import OnePass.Proofs.Semantics.Machine
import OnePass.Proofs.Storage.Layout

/-!
# What uses of symbols do

A use of a symbol changes no more than a scratch cell, and then its operand leads to the cell of the
symbol, or gives its value, as long as that scratch cell and the pointers stay as they are. -/

namespace OnePass

namespace Layout

/-! ### Memories that agree -/

/-- A scratch cell from a number on. -/
def IsScratch (l : Layout) (n : Nat) (a : Int) : Prop :=
  ∃ k, n ≤ k ∧ k < l.scratchSlots.toNat ∧ a = (l.scratchCell k).toNat

/-- A cell that is no pointer and no scratch cell. -/
structure Free (l : Layout) (a : Int) : Prop where
  framePointer : a ≠ l.framePointer.toNat
  stackPointer : a ≠ l.stackPointer.toNat
  scratch : ¬ l.IsScratch 0 a

/-- Memories that differ at most in scratch cells from a number on. -/
def Keeps (l : Layout) (n : Nat) (m m' : Memory) : Prop := ∀ a, ¬ l.IsScratch n a → m' a = m a

/-- Memories with the same pointers and the same scratch cells up to a number. -/
structure Fixes (l : Layout) (n : Nat) (m m' : Memory) : Prop where
  framePointer : m' l.framePointer.toNat = m l.framePointer.toNat
  stackPointer : m' l.stackPointer.toNat = m l.stackPointer.toNat
  scratch : ∀ k < n, m' (l.scratchCell k).toNat = m (l.scratchCell k).toNat

variable {l : Layout} {n k : Nat} {m m₁ m' : Memory} {a : Int}

theorem IsScratch.mono (h : l.IsScratch n a) (hk : k ≤ n) : l.IsScratch k a := by
  obtain ⟨i, hi, hslot, ha⟩ := h
  exact ⟨i, Nat.le_trans hk hi, hslot, ha⟩

namespace Apart

variable (hl : l.Apart)
include hl

theorem not_isScratch_framePointer : ¬ l.IsScratch n l.framePointer.toNat := by
  rintro ⟨k, -, hk, heq⟩
  have hapart := hl.framePointer_scratch
  rw [toNat_scratchCell hl hk] at heq
  simp only [Word.size] at hapart heq
  omega

theorem not_isScratch_stackPointer : ¬ l.IsScratch n l.stackPointer.toNat := by
  rintro ⟨k, -, hk, heq⟩
  have hapart := hl.stackPointer_scratch
  rw [toNat_scratchCell hl hk] at heq
  simp only [Word.size] at hapart heq
  omega

theorem not_isScratch_scratchCell (hk : k < n) (hn : n ≤ l.scratchSlots.toNat) :
    ¬ l.IsScratch n (l.scratchCell k).toNat := by
  rintro ⟨i, hi, hslot, heq⟩
  rw [toNat_scratchCell hl (Nat.lt_of_lt_of_le hk hn), toNat_scratchCell hl hslot] at heq
  simp only [Word.size] at heq
  omega

/-- All that lies behind the global data is free. -/
theorem free (ha : l.dataBase.toNat ≤ a) : l.Free a := by
  have hframe := hl.framePointer_lt
  have hstack := hl.stackPointer_lt
  refine ⟨by omega, by omega, ?_⟩
  rintro ⟨k, -, hk, heq⟩
  have hscratch := hl.scratch_le
  rw [toNat_scratchCell hl hk] at heq
  simp only [Word.size] at hscratch heq
  omega

end Apart

namespace Keeps

theorem refl (l : Layout) (n : Nat) (m : Memory) : l.Keeps n m m := fun _ _ => rfl

theorem trans (h : l.Keeps n m m₁) (h' : l.Keeps n m₁ m') : l.Keeps n m m' :=
  fun a ha => (h' a ha).trans (h a ha)

theorem mono (h : l.Keeps n m m') (hk : k ≤ n) : l.Keeps k m m' :=
  fun a ha => h a fun hscratch => ha (hscratch.mono hk)

theorem of_free (h : l.Keeps n m m') (ha : l.Free a) : m' a = m a :=
  h a fun hscratch => ha.scratch (hscratch.mono (Nat.zero_le n))

theorem framePointer (h : l.Keeps n m m') (hl : l.Apart) :
    m' l.framePointer.toNat = m l.framePointer.toNat := h _ hl.not_isScratch_framePointer

theorem stackPointer (h : l.Keeps n m m') (hl : l.Apart) :
    m' l.stackPointer.toNat = m l.stackPointer.toNat := h _ hl.not_isScratch_stackPointer

theorem fixes (h : l.Keeps n m m') (hl : l.Apart) (hn : n ≤ l.scratchSlots.toNat) :
    l.Fixes n m m' :=
  ⟨h.framePointer hl, h.stackPointer hl,
    fun _ hk => h _ (hl.not_isScratch_scratchCell hk hn)⟩

/-- A scratch cell takes a value. -/
theorem set_scratch (hn : n < l.scratchSlots.toNat) (m : Memory) (w : Word) :
    l.Keeps n m (m.set (l.scratchCell n).toNat w) := by
  intro a ha
  refine m.set_of_ne (fun heq => ha ⟨n, Nat.le_refl n, hn, heq⟩) w

theorem set (h : l.Keeps n m m') (a : Int) (w : Word) : l.Keeps n (m.set a w) (m'.set a w) := by
  intro c hc
  rw [Memory.set, Memory.set]
  split
  · rfl
  · exact h c hc

/-- What is known after a free cell took a value. -/
theorem of_set {c : Int} {w : Word} (h : l.Keeps n (m.set c w) m') (hl : l.Apart)
    (hc : l.Free c) :
    m' c = w ∧ m' l.framePointer.toNat = m l.framePointer.toNat ∧
      m' l.stackPointer.toNat = m l.stackPointer.toNat ∧ ∀ a, l.Free a → a ≠ c → m' a = m a := by
  refine ⟨?_, ?_, ?_, fun a ha hne => ?_⟩
  · rw [h.of_free hc, Memory.set_self]
  · rw [h.framePointer hl, m.set_of_ne hc.framePointer.symm]
  · rw [h.stackPointer hl, m.set_of_ne hc.stackPointer.symm]
  · rw [h.of_free ha, m.set_of_ne hne]

end Keeps

namespace Fixes

theorem trans (h : l.Fixes n m m₁) (h' : l.Fixes n m₁ m') : l.Fixes n m m' :=
  ⟨h'.framePointer.trans h.framePointer, h'.stackPointer.trans h.stackPointer,
    fun k hk => (h'.scratch k hk).trans (h.scratch k hk)⟩

/-- A free cell takes a value. -/
theorem set_free (ha : l.Free a) (hn : n ≤ l.scratchSlots.toNat) (m : Memory) (w : Word) :
    l.Fixes n m (m.set a w) := by
  refine ⟨m.set_of_ne ha.framePointer.symm w, m.set_of_ne ha.stackPointer.symm w, fun k hk => ?_⟩
  refine m.set_of_ne (fun heq => ha.scratch ?_) w
  exact ⟨k, Nat.zero_le k, Nat.lt_of_lt_of_le hk hn, heq.symm⟩

end Fixes

end Layout

/-! ### Uses -/

namespace Use

/-- The code of a use takes scratch cells from a number on, and then its operand stands for a
    cell. -/
def Leads (l : Layout) (n : Nat) (u : Use) (m : Memory) (a : Int) : Prop :=
  ∃ m', effects? u.code m = some m' ∧ l.Keeps n m m' ∧
    ∀ m'', l.Fixes (n + u.cells) m' m'' → u.operand.referent m'' = .cell a

/-- The code of a use takes scratch cells from a number on, and then its operand has a value. -/
def Gives (l : Layout) (n : Nat) (u : Use) (m : Memory) (w : Word) : Prop :=
  ∃ m', effects? u.code m = some m' ∧ l.Keeps n m m' ∧
    ∀ m'', l.Keeps (n + u.cells) m' m'' → u.operand.value m'' = w

variable {l : Layout} {n : Nat} {u : Use} {m : Memory} {a : Int} {w : Word}

/-- The value of a cell is what it holds. -/
theorem Leads.gives (h : u.Leads l n m a) (hl : l.Apart) (ha : l.Free a)
    (hn : n + u.cells ≤ l.scratchSlots.toNat) : u.Gives l n m (m a) := by
  obtain ⟨m', hrun, hkeeps, hleads⟩ := h
  refine ⟨m', hrun, hkeeps, fun m'' h => ?_⟩
  rw [Operand.value, hleads m'' (h.fixes hl hn)]
  exact (h.of_free ha).trans (hkeeps.of_free ha)

theorem gives_number (w : Word) : (number w).Gives l n m w :=
  ⟨m, rfl, .refl l n m, fun _ _ => rfl⟩

end Use

theorem Word.toInt_ofNat_add {b : Nat} {offset : Word} (h : b + offset.toNat < 2147483648) :
    (BitVec.ofNat 32 b + offset).toInt = (b + offset.toNat : Nat) := by
  have hsum : BitVec.ofNat 32 b + offset = BitVec.ofNat 32 (b + offset.toNat) := by
    rw [BitVec.ofNat_add, BitVec.ofNat_toNat, BitVec.setWidth_eq]
  rw [hsum, Word.toInt_ofNat h]

/-- What an assignment does whose source has a value and whose target stands for a cell. -/
theorem effect?_assign {src dst : Operand} {m : Memory} {a : Int} {w : Word}
    (hsrc : src.value m = w) (hdst : dst.referent m = .cell a) :
    (Instruction.assign src dst).effect? m = some (m.set a w) := by
  subst hsrc
  change (dst.referent m).store? m _ = _
  rw [hdst]
  rfl

/-! ### Symbols -/

namespace Symbol

/-- The address of the cell of a symbol, in a function whose record begins at `b`. -/
def place (b : Nat) (s : Symbol) : Nat := if s.isGlobal then s.value.toNat else b + s.value.toNat

/-- The cell that a symbol stands for; a temporary of an element holds the address of it. -/
def target (b : Nat) (m : Memory) (s : Symbol) : Int :=
  if s.ty = .indexed then (m (s.place b)).toInt else s.place b

/-- The value of a symbol. -/
def valueIn (b : Nat) (m : Memory) (s : Symbol) : Word :=
  if s.isConstant then s.value else m (s.target b m)

/-- The cells that the value of a symbol depends on. -/
def cells (b : Nat) (m : Memory) (s : Symbol) : List Int :=
  if s.isConstant then []
  else if s.ty = .indexed then [(s.place b : Int), s.target b m] else [(s.place b : Int)]

/-- The address of the first element of what can be indexed. -/
def baseIn (b : Nat) (m : Memory) (s : Symbol) : Word :=
  match s.ty with
  | .arrayInt | .arrayVoid => BitVec.ofNat 32 (s.place b)
  | _ => m (s.place b)

/-- The cell of a symbol can be used. -/
structure Placed (l : Layout) (b : Nat) (s : Symbol) : Prop where
  free : l.Free (s.place b)
  bound : s.place b < 2147483648
  offset : s.isGlobal = false → s.value ≠ 0
  indexed : s.ty = .indexed → s.isGlobal = false

variable {b : Nat} {m m' : Memory} {s : Symbol}

theorem target_of_ne (h : s.ty ≠ .indexed) : s.target b m = s.place b := if_neg h

theorem target_mem_cells (h : s.isConstant = false) : s.target b m ∈ s.cells b m := by
  rw [cells, h, if_neg Bool.false_ne_true]
  split
  · exact List.mem_cons_of_mem _ (List.mem_singleton_self _)
  · rename_i hty
    rw [target_of_ne hty]
    exact List.mem_singleton_self _

theorem place_mem_cells (h : s.isConstant = false) : (s.place b : Int) ∈ s.cells b m := by
  rw [cells, h, if_neg Bool.false_ne_true]
  split <;> simp

/-- Symbols do not change as long as their cells do not. -/
theorem target_congr (hc : s.isConstant = false) (h : ∀ a ∈ s.cells b m, m' a = m a) :
    s.target b m' = s.target b m := by
  rw [target, target, h _ (place_mem_cells hc)]

theorem valueIn_congr (h : ∀ a ∈ s.cells b m, m' a = m a) : s.valueIn b m' = s.valueIn b m := by
  rw [valueIn, valueIn]
  split
  · rfl
  · rename_i hc
    have hc := eq_false_of_ne_true hc
    rw [target_congr hc h, h _ (target_mem_cells hc)]

theorem cells_congr (h : ∀ a ∈ s.cells b m, m' a = m a) : s.cells b m' = s.cells b m := by
  cases hc : s.isConstant with
  | true => rw [cells, cells, hc, if_pos rfl, if_pos rfl]
  | false => rw [cells, cells, target_congr hc h]

end Symbol

namespace Use

variable {l : Layout} {n b : Nat} {m : Memory} {s : Symbol}

/-- A field of a record leads to its cell. -/
theorem leads_field (hn : n < l.scratchSlots.toNat) {pointer offset : Word}
    (hpointer : pointer = l.framePointer ∨ pointer = l.stackPointer)
    (hm : m pointer.toNat = BitVec.ofNat 32 b) (hb : b + offset.toNat < 2147483648) :
    (field l n pointer offset).Leads l n m (b + offset.toNat : Nat) := by
  rw [field]
  split
  · rename_i hzero
    subst hzero
    refine ⟨m, rfl, .refl l n m, fun m'' h => congrArg Referent.cell ?_⟩
    have hsame : m'' pointer.toNat = m pointer.toNat := by
      rcases hpointer with rfl | rfl
      · exact h.framePointer
      · exact h.stackPointer
    rw [hsame, hm]
    exact Word.toInt_ofNat hb
  · refine ⟨m.set _ (m pointer.toNat + offset), rfl, .set_scratch hn m _, fun m'' h => ?_⟩
    have hheld := h.scratch n (Nat.lt_succ_self n)
    rw [Memory.set_self, hm] at hheld
    rw [Operand.referent, hheld, Word.toInt_ofNat_add hb]

section
variable (hn : n < l.scratchSlots.toNat) (hm : m l.framePointer.toNat = BitVec.ofNat 32 b)
  (hs : s.Placed l b)
include hn hm hs

theorem leads_cell : (cell l n s).Leads l n m (s.place b) := by
  have hbound := hs.bound
  rw [cell]
  cases hg : s.isGlobal with
  | true =>
    rw [if_pos rfl, Symbol.place, if_pos hg]
    exact ⟨m, rfl, .refl l n m, fun _ _ => rfl⟩
  | false =>
    rw [Symbol.place, hg, if_neg Bool.false_ne_true] at hbound
    rw [if_neg Bool.false_ne_true, Symbol.place, hg, if_neg Bool.false_ne_true]
    exact leads_field hn (.inl rfl) hm hbound

/-- A temporary of an element leads to the element. -/
theorem leads_through (hty : s.ty = .indexed) :
    (cell l n s).through.Leads l n m (m (s.place b)).toInt := by
  have hg := hs.indexed hty
  obtain ⟨m', hrun, hkeeps, hleads⟩ := leads_cell hn hm hs
  have hfield : cell l n s = ⟨.indirect (l.scratchCell n),
      [.add (.direct l.framePointer) (.immediate s.value) (.direct (l.scratchCell n))], 1⟩ := by
    rw [cell, hg, if_neg Bool.false_ne_true, field, if_neg (hs.offset hg)]
  rw [hfield] at hrun hleads ⊢
  have hread : (Operand.indirect (l.scratchCell n)).value m' = m (s.place b) := by
    rw [Operand.value, hleads m' ⟨rfl, rfl, fun _ _ => rfl⟩]
    exact hkeeps.of_free hs.free
  refine ⟨m'.set (l.scratchCell n).toNat (m (s.place b)), ?_,
    hkeeps.trans (.set_scratch hn m' _), fun m'' h => ?_⟩
  · rw [through, effects?_append, hrun, Option.bind_some, effects?_cons,
      effect?_assign hread (a := (l.scratchCell n).toNat) rfl]
    rfl
  · have hheld := h.scratch n (Nat.lt_succ_self n)
    rw [Memory.set_self] at hheld
    rw [through, Operand.referent, hheld]

/-- The value of a symbol with a cell leads to the cell that it stands for. -/
theorem leads_value (hfn : s.isFunction = false) (hscalar : s.ty.isScalar)
    (hc : s.isConstant = false) : (value l n s).Leads l n m (s.target b m) := by
  rw [value, hfn, hscalar, scalar, hc, Symbol.target]
  simp only [Bool.not_true, Bool.or_false, Bool.false_eq_true, if_false]
  split
  · rename_i hty
    exact leads_through hn hm hs hty
  · exact leads_cell hn hm hs

end

/-- What can be used as an integer gives its value. -/
theorem gives_value (hl : l.Apart) (hn : n < l.scratchSlots.toNat)
    (hm : m l.framePointer.toNat = BitVec.ofNat 32 b) (hfn : s.isFunction = false)
    (hscalar : s.ty.isScalar)
    (hs : s.isConstant = false → s.Placed l b ∧ l.Free (s.target b m)) :
    (value l n s).Gives l n m (s.valueIn b m) := by
  cases hc : s.isConstant with
  | true =>
    rw [Symbol.valueIn, hc, if_pos rfl, value, hfn, hscalar, scalar, hc]
    exact gives_number _
  | false =>
    obtain ⟨hplaced, hfree⟩ := hs hc
    have hcells := value_cells_le l n s
    rw [Symbol.valueIn, hc, if_neg Bool.false_ne_true]
    exact (leads_value hn hm hplaced hfn hscalar hc).gives hl hfree (by omega)

/-- What can be indexed gives the address of its first element. -/
theorem gives_reference (hl : l.Apart) (hn : n < l.scratchSlots.toNat)
    (hm : m l.framePointer.toNat = BitVec.ofNat 32 b) (hfn : s.isFunction = false)
    (href : s.ty.isReference)
    (hs : s.ty ≠ .arrayInt → s.ty ≠ .arrayVoid → s.Placed l b) :
    (reference l n s).Gives l n m (s.baseIn b m) := by
  rw [reference, hfn, href]
  simp only [Bool.not_true, Bool.or_false, Bool.false_eq_true, if_false]
  -- an array gives its address, and a parameter what its cell holds
  have harray : (if s.isGlobal then number s.value else
      { operand := .direct (l.scratchCell n)
        code := [.add (.direct l.framePointer) (.immediate s.value) (.direct (l.scratchCell n))]
        cells := 1 }).Gives l n m (BitVec.ofNat 32 (s.place b)) := by
    rw [Symbol.place]
    split
    · rw [BitVec.ofNat_toNat, BitVec.setWidth_eq]
      exact gives_number _
    · refine ⟨m.set _ (m l.framePointer.toNat + s.value), rfl, .set_scratch hn m _, fun m'' h => ?_⟩
      have hheld := (h.fixes hl hn).scratch n (Nat.lt_succ_self n)
      rw [Memory.set_self, hm] at hheld
      rw [Operand.value, Operand.referent, Referent.value, hheld, BitVec.ofNat_add,
        BitVec.ofNat_toNat, BitVec.setWidth_eq]
  have hcell : s.Placed l b → (cell l n s).Gives l n m (m (s.place b)) := fun hplaced => by
    have hcells := cell_cells_le l n s
    exact (leads_cell hn hm hplaced).gives hl hplaced.free (by omega)
  rw [base, Symbol.baseIn]
  cases hty : s.ty with
  | arrayInt | arrayVoid => exact harray
  | void | int | pointerInt | pointerVoid | indexed =>
    exact hcell (hs (by rw [hty]; decide) (by rw [hty]; decide))

end Use

/-! ### Instructions on uses -/

section
variable {l : Layout} {n : Nat} {m : Memory} {u v r : Use} {a : Int} {w w' : Word}

/-- What is read from one use goes to the cell of another. -/
theorem effects?_assign (hl : l.Apart) (hu : u.Gives l n m w)
    (hv : ∀ m', l.Keeps n m m' → v.Leads l (n + u.cells) m' a)
    (hslots : n + u.cells + v.cells ≤ l.scratchSlots.toNat) :
    ∃ m', effects? (u.code ++ v.code ++ [.assign u.operand v.operand]) m = some m' ∧
      l.Keeps n (m.set a w) m' := by
  obtain ⟨m₁, hrun₁, hkeeps₁, hvalue⟩ := hu
  obtain ⟨m₂, hrun₂, hkeeps₂, hleads⟩ := hv m₁ hkeeps₁
  refine ⟨m₂.set a w, ?_, (hkeeps₁.trans (hkeeps₂.mono (Nat.le_add_right ..))).set a w⟩
  rw [effects?_append, effects?_append, hrun₁, Option.bind_some, hrun₂, Option.bind_some,
    effects?_cons, effect?_assign (hvalue m₂ hkeeps₂)
      (hleads m₂ ((Layout.Keeps.refl l _ m₂).fixes hl hslots))]
  rfl

end

end OnePass
