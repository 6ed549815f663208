import OnePass.Proofs.Generator.Operand

/-!
# The cells of a layout

In a layout without flaws the two pointers, the scratch cells and the global data lie apart, and all
of them within the signed range. -/

namespace OnePass

namespace Layout

/-- Pointers, scratch cells and global data lie apart. -/
structure Apart (l : Layout) : Prop where
  pointers : l.framePointer.toNat ≠ l.stackPointer.toNat
  framePointer_lt : l.framePointer.toNat < l.dataBase.toNat
  stackPointer_lt : l.stackPointer.toNat < l.dataBase.toNat
  scratch_le : l.scratchBase.toNat + Word.size * l.scratchSlots.toNat ≤ l.dataBase.toNat
  framePointer_scratch : l.framePointer.toNat < l.scratchBase.toNat ∨
    l.scratchBase.toNat + Word.size * l.scratchSlots.toNat ≤ l.framePointer.toNat
  stackPointer_scratch : l.stackPointer.toNat < l.scratchBase.toNat ∨
    l.scratchBase.toNat + Word.size * l.scratchSlots.toNat ≤ l.stackPointer.toNat
  dataBase_le : l.dataBase.toNat ≤ declaredLimit

variable {l : Layout}

theorem apart_of_flaw? (h : l.flaw? = none) : l.Apart := by
  simp only [flaw?, tests, Option.map_eq_none_iff, List.find?_eq_none, List.forall_mem_cons,
    Bool.not_eq_true, beq_eq_false_iff_ne, occupied, Bool.or_eq_false_iff, Bool.and_eq_false_iff,
    decide_eq_false_iff_not, Nat.not_le] at h
  obtain ⟨-, -, -, -, -, hshared, ⟨hframe, hframe_lt⟩, ⟨hstack, hstack_lt⟩, hdata, hend, -⟩ := h
  have hlimit : declaredLimit < Word.addressMax := by decide
  -- the pool ends below the data, so it does not reach the last address
  have hpool : l.scratchEnd = l.scratchBase.toNat + Word.size * l.scratchSlots.toNat := by
    rw [scratchEnd] at hend ⊢
    omega
  rw [hpool] at hend hframe hstack
  exact ⟨fun heq => hshared (BitVec.eq_of_toNat_eq heq), hframe_lt, hstack_lt, Nat.not_lt.mp hend,
    hframe.imp_right Nat.not_lt.mp, hstack.imp_right Nat.not_lt.mp, Nat.le_of_lt hdata⟩

theorem toNat_scratchCell (h : l.Apart) {k : Nat} (hk : k < l.scratchSlots.toNat) :
    (l.scratchCell k).toNat = l.scratchBase.toNat + Word.size * k := by
  have hscratch := h.scratch_le
  have hdata := h.dataBase_le
  simp only [Word.size, declaredLimit] at hscratch hdata ⊢
  rw [scratchCell, BitVec.toNat_add, BitVec.toNat_ofNat, Word.size]
  omega

end Layout

end OnePass
