import OnePass.Proofs.Runs.Uses

/-!
# What resolved symbols stand for

A symbol is resolved to an operand, with instructions before it that may take a scratch cell. Run in
a memory whose frame pointer holds the address of a record, these instructions change no other cell,
and then the operand stands for what the symbol means there: a number, the cell of a global, the
cell at an offset in the record, or the cell that a temporary holds the address of. -/

namespace OnePass

/-- A global lies in the global data, and anything else behind the header of a record that ends
    within the signed range. -/
def Symbol.Situated (l : Layout) (b : Nat) (s : Symbol) : Prop :=
  if s.isGlobal then l.dataBase.toNat ≤ s.value.toNat
  else 16 ≤ s.value.toNat ∧ b + s.value.toNat < 2147483648

/-- Memories that differ at most in some scratch cells. -/
def Layout.ScratchOnly (l : Layout) (first last : Nat) (m m' : Memory) : Prop :=
  ∀ a : Int, (∀ k, first ≤ k → k < last → a ≠ (l.scratchCell k).toNat) → m' a = m a

/-- A free cell is spared. -/
theorem Layout.ScratchOnly.of_free {l : Layout} {first last : Nat} {m m' : Memory} {a : Int}
    (h : l.ScratchOnly first last m m') (ha : l.Free a)
    (hlast : first < last → last ≤ l.scratchSlots.toNat) : m' a = m a := by
  refine h a fun k hfirst hk heq => ha.scratch ⟨k, Nat.zero_le k, ?_, heq⟩
  exact Nat.lt_of_lt_of_le hk (hlast (Nat.lt_of_le_of_lt hfirst hk))

/-- What does not lie in the global data has an offset in its record. -/
theorem Symbol.Situated.offset {l : Layout} {b : Nat} {s : Symbol} (h : s.Situated l b)
    (hg : s.isGlobal = false) : s.value ≠ 0 ∧ b + s.value.toNat < 2147483648 := by
  rw [Symbol.Situated, hg, if_neg Bool.false_ne_true] at h
  refine ⟨fun hzero => ?_, h.2⟩
  rw [hzero] at h
  exact absurd h.1 (by decide)

namespace Use

variable {l : Layout} {n b : Nat} {m m' : Memory} {s : Symbol}

/-! ### What uses come to -/

section
variable (hfn : s.isFunction = false)
include hfn

/-- A number is itself. -/
theorem value_of_constant (hscalar : s.ty.isScalar) (hc : s.isConstant) :
    value l n s = number s.value := by
  simp [value, scalar, hfn, hscalar, hc]

/-- A global is used without a scratch cell. -/
theorem value_of_global (hscalar : s.ty.isScalar) (hc : s.isConstant = false) (hg : s.isGlobal) :
    value l n s =
      { operand := if s.ty = .indexed then .indirect s.value else .direct s.value } := by
  simp only [value, scalar, cell, through, hfn, hscalar, hc, hg]
  by_cases hty : s.ty = .indexed <;> simp [hty]

/-- What lies in a record is reached through a scratch cell. -/
theorem value_of_local (hscalar : s.ty.isScalar) (hc : s.isConstant = false)
    (hg : s.isGlobal = false) (hoffset : s.value ≠ 0) : value l n s =
    { operand := .indirect (l.scratchCell n)
      code := .add (.direct l.framePointer) (.immediate s.value) (.direct (l.scratchCell n)) ::
        if s.ty = .indexed then [.assign (.indirect (l.scratchCell n)) (.direct (l.scratchCell n))]
        else []
      cells := 1 } := by
  simp only [value, scalar, cell, field, through, hfn, hscalar, hc, hg, hoffset]
  by_cases hty : s.ty = .indexed <;> simp [hty]

theorem value_code_length (hscalar : s.ty.isScalar)
    (hoffset : s.isConstant = false → s.isGlobal = false → s.value ≠ 0) :
    (value l n s).code.length =
      if s.isConstant ∨ s.isGlobal then 0 else if s.ty = .indexed then 2 else 1 := by
  cases hc : s.isConstant with
  | true => rw [value_of_constant hfn hscalar hc]; rfl
  | false =>
    cases hg : s.isGlobal with
    | true => rw [value_of_global hfn hscalar hc hg]; rfl
    | false =>
      rw [value_of_local hfn hscalar hc hg (hoffset hc hg)]
      split <;> rfl

/-- An array or a reference among the globals is used without a scratch cell. -/
theorem reference_of_global (href : s.ty.isReference) (hg : s.isGlobal) :
    reference l n s =
      { operand := if s.ty = .arrayInt ∨ s.ty = .arrayVoid then .immediate s.value
          else .direct s.value } := by
  simp only [reference, base, number, cell, hfn, href, hg]
  cases hty : s.ty <;> simp_all [Ty.isReference]

/-- The address in a record of an array or of a reference is computed in a scratch cell. -/
theorem reference_of_local (href : s.ty.isReference) (hg : s.isGlobal = false)
    (hoffset : s.value ≠ 0) : reference l n s =
    { operand := if s.ty = .arrayInt ∨ s.ty = .arrayVoid then .direct (l.scratchCell n)
        else .indirect (l.scratchCell n)
      code := [.add (.direct l.framePointer) (.immediate s.value) (.direct (l.scratchCell n))]
      cells := 1 } := by
  simp only [reference, base, cell, field, hfn, href, hg, hoffset]
  cases hty : s.ty <;> simp_all [Ty.isReference]

end

/-! ### What uses mean -/

variable (hm : m l.framePointer.toNat = BitVec.ofNat 32 b)

section
include hm

/-- The value of a symbol is a number, or is found in the cell that the symbol stands for. -/
theorem exists_referent_value (hfn : s.isFunction = false) (hscalar : s.ty.isScalar)
    (hsituated : s.isConstant = false → s.Situated l b) (hfree : ∀ a ∈ s.cells b m, l.Free a)
    (hn : s.isConstant = false → s.isGlobal = false → n < l.scratchSlots.toNat) :
    ∃ m', effects? (value l n s).code m = some m' ∧
      l.ScratchOnly n (n + (value l n s).cells) m m' ∧
      (value l n s).operand.referent m' =
        if s.isConstant then .number s.value else .cell (s.target b m) := by
  cases hc : s.isConstant with
  | true =>
    rw [value_of_constant hfn hscalar hc]
    exact ⟨m, rfl, fun _ _ => rfl, rfl⟩
  | false =>
    have hsituated := hsituated hc
    rw [if_neg Bool.false_ne_true]
    cases hg : s.isGlobal with
    | true =>
      rw [value_of_global hfn hscalar hc hg]
      refine ⟨m, rfl, fun _ _ => rfl, ?_⟩
      rw [Symbol.target, Symbol.place, if_pos hg]
      split <;> rfl
    | false =>
      obtain ⟨hoffset, hbound⟩ := hsituated.offset hg
      have hbound : s.place b < 2147483648 := by rwa [Symbol.place, hg]
      have hplaced : s.Placed l b :=
        ⟨hfree _ (Symbol.place_mem_cells hc), hbound, fun _ => hoffset, fun _ => hg⟩
      obtain ⟨m', hrun, -, hleads⟩ := leads_value (hn hc hg) hm hplaced hfn hscalar hc
      refine ⟨m', hrun, fun a ha => ?_, hleads m' ⟨rfl, rfl, fun _ _ => rfl⟩⟩
      rw [value_of_local hfn hscalar hc hg hoffset] at hrun ha
      have hne := ha n (Nat.le_refl n) (Nat.lt_succ_self n)
      split at hrun
      · obtain rfl := Option.some.inj hrun
        rw [Memory.set_of_ne _ hne, Memory.set_of_ne _ hne]
      · obtain rfl := Option.some.inj hrun
        rw [Memory.set_of_ne _ hne]

/-- What can be indexed has for its value the address of its first element. A reference to an array
    stands for the cell that holds it. -/
theorem exists_value_reference (hfn : s.isFunction = false) (href : s.ty.isReference)
    (hsituated : s.Situated l b) (hfree : l.Free (s.place b))
    (hn : s.isGlobal = false → n < l.scratchSlots.toNat) :
    ∃ m', effects? (reference l n s).code m = some m' ∧
      l.ScratchOnly n (n + (reference l n s).cells) m m' ∧
      (reference l n s).operand.value m' = s.baseIn b m ∧
      (¬ (s.ty = .arrayInt ∨ s.ty = .arrayVoid) →
        (reference l n s).operand.referent m' = .cell (s.place b)) := by
  have hbase : s.baseIn b m = if s.ty = .arrayInt ∨ s.ty = .arrayVoid then
      BitVec.ofNat 32 (s.place b) else m (s.place b) := by
    rw [Symbol.baseIn]
    cases s.ty <;> simp
  rw [hbase]
  cases hg : s.isGlobal with
  | true =>
    rw [reference_of_global hfn href hg]
    have hplace : s.place b = s.value.toNat := by rw [Symbol.place, if_pos hg]
    refine ⟨m, rfl, fun _ _ => rfl, ?_, fun harray => ?_⟩
    · rw [hplace, BitVec.ofNat_toNat, BitVec.setWidth_eq]
      split <;> rfl
    · rw [if_neg harray, hplace]
      rfl
  | false =>
    obtain ⟨hoffset, hbound⟩ := hsituated.offset hg
    have hplace : s.place b = b + s.value.toNat := by
      rw [Symbol.place, hg, if_neg Bool.false_ne_true]
    rw [reference_of_local hfn href hg hoffset]
    let m' := m.set (l.scratchCell n).toNat (m l.framePointer.toNat + s.value)
    have hspares : l.ScratchOnly n (n + 1) m m' :=
      fun a ha => m.set_of_ne (ha n (Nat.le_refl n) (Nat.lt_succ_self n)) _
    have hheld : m' (l.scratchCell n).toNat = BitVec.ofNat 32 b + s.value :=
      (m.set_self _ _).trans (by rw [hm])
    have hcell : (Operand.indirect (l.scratchCell n)).referent m' = .cell (s.place b) := by
      rw [Operand.referent, hheld, Word.toInt_ofNat_add hbound, hplace]
    refine ⟨m', rfl, hspares, ?_, fun harray => by rwa [if_neg harray]⟩
    by_cases harray : s.ty = .arrayInt ∨ s.ty = .arrayVoid
    · rw [if_pos harray, if_pos harray, hplace, BitVec.ofNat_add, BitVec.ofNat_toNat,
        BitVec.setWidth_eq]
      exact hheld
    · rw [if_neg harray, if_neg harray, Operand.value, hcell]
      exact hspares.of_free hfree fun _ => hn hg

end

end Use

/-! ### Resolving with few scratch cells left -/

namespace Gen

variable {g : Generator} {n : Nat} {s : Symbol}

theorem stops_takeScratch (h : ¬ n < g.layout.scratchSlots.toNat) : Stops takeScratch g n := by
  refine .get fun trace => ?_
  have htake : (g.taking n trace).scratch.take =
      .error (.scratchExhausted g.layout.scratchSlots.toNat) := if_neg h
  rw [htake]
  exact Stops.bind .throw

theorem stops_cellOperand (hg : s.isGlobal = false) (hoffset : s.value ≠ 0)
    (h : ¬ n < g.layout.scratchSlots.toNat) : Stops (cellOperand s) g n := by
  rw [cellOperand, hg]
  refine .get fun trace => ?_
  rw [fieldOperand]
  exact .ite_neg hoffset (stops_takeScratch h).bind

/-- A value in a record is not resolved without a scratch cell. -/
theorem stops_resolveOperand (hs : (s.isFunction || !s.ty.isScalar) = false)
    (hc : s.isConstant = false) (hg : s.isGlobal = false) (hoffset : s.value ≠ 0)
    (h : ¬ n < g.layout.scratchSlots.toNat) : Stops (resolveOperand s) g n := by
  rw [resolveOperand, hs, scalarOperand, hc]
  exact does_pc.stops (Stops.bind (stops_cellOperand hg hoffset h).bind)

/-- Neither is an array or a reference in a record. -/
theorem stops_resolveReference (hs : (s.isFunction || !s.ty.isReference) = false)
    (hg : s.isGlobal = false) (hoffset : s.value ≠ 0)
    (h : ¬ n < g.layout.scratchSlots.toNat) : Stops (resolveReference s) g n := by
  rw [resolveReference, hs, baseOperand]
  refine does_pc.stops (Stops.bind ?_)
  cases s.ty with
  | arrayInt | arrayVoid =>
    dsimp only
    rw [hg]
    exact (stops_takeScratch h).bind
  | _ => exact stops_cellOperand hg hoffset h

theorem does_cellOperand_global (hg : s.isGlobal) :
    Does (cellOperand s) g n (.direct s.value) g n := by
  rw [cellOperand, if_pos hg]
  exact .pure

/-- A value is used as `Use.value` says if there is a scratch cell for it, or it needs none. -/
theorem does_resolveOperand_of_room (hfn : s.isFunction = false) (hscalar : s.ty.isScalar)
    (hroom : s.isConstant = false → s.isGlobal = false → n < g.layout.scratchSlots.toNat) :
    Does (resolveOperand s) g n
      (some ⟨(Use.value g.layout n s).operand, (Use.value g.layout n s).code.length⟩)
      (g.resolved (Use.value g.layout n s)) (n + (Use.value g.layout n s).cells) := by
  have hnone : ∀ {o}, Does (scalarOperand s) g n o g n →
      Does (resolveOperand s) g n (some ⟨o, 0⟩) g n := by
    intro o ho
    rw [resolveOperand, hfn, hscalar, ← Nat.sub_self g.code.pc]
    exact does_pc.bind (ho.bind (does_pc.bind ((does_log _).bind .pure)))
  rw [scalarOperand] at hnone
  cases hc : s.isConstant with
  | true =>
    rw [Use.value_of_constant hfn hscalar hc]
    rw [hc] at hnone
    exact hnone .pure
  | false =>
    cases hg : s.isGlobal with
    | true =>
      rw [Use.value_of_global hfn hscalar hc hg]
      rw [hc] at hnone
      refine hnone ((does_cellOperand_global hg).bind ?_)
      split <;> exact .pure
    | false => exact does_resolveOperand s (by rw [hfn, hscalar]; rfl) (hroom hc hg)

/-- An array or a reference is used as `Use.reference` says if there is a scratch cell for it, or it
    needs none. -/
theorem does_resolveReference_of_room (hfn : s.isFunction = false) (href : s.ty.isReference)
    (hroom : s.isGlobal = false → n < g.layout.scratchSlots.toNat) :
    Does (resolveReference s) g n
      (some ⟨(Use.reference g.layout n s).operand, (Use.reference g.layout n s).code.length⟩)
      (g.resolved (Use.reference g.layout n s)) (n + (Use.reference g.layout n s).cells) := by
  cases hg : s.isGlobal with
  | true =>
    have hbase : Does (baseOperand s) g n (Use.reference g.layout n s).operand g n := by
      rw [Use.reference_of_global hfn href hg, baseOperand]
      cases hty : s.ty with
      | arrayInt | arrayVoid =>
        dsimp only
        rw [if_pos hg, if_pos (by decide)]
        exact .pure
      | _ =>
        rw [if_neg (by decide : ¬ (_ ∨ _))]
        exact does_cellOperand_global hg
    rw [Use.reference_of_global hfn href hg] at hbase ⊢
    change Does (resolveReference s) g n (some ⟨_, 0⟩) g n
    rw [resolveReference, hfn, href, ← Nat.sub_self g.code.pc]
    exact does_pc.bind (hbase.bind (does_pc.bind ((does_log _).bind .pure)))
  | false =>
    have hcount : (Use.reference g.layout n s).code.length =
        (g.resolved (Use.reference g.layout n s)).code.pc - g.code.pc := by
      rw [Generator.resolved, Generator.withCode, Store.pc_append, Nat.add_sub_cancel_left]
    rw [hcount]
    exact does_resolveReference s (by rw [hfn, href]; rfl) (hroom hg)

end Gen

/-! ### Calls that succeed -/

/-- The scratch cells are those of the layout, however many of them are taken. -/
def Generator.Pooled (g : Generator) : Prop := g.scratch.clear = ScratchPool.ofLayout g.layout

theorem Generator.Pooled.taking_eq {g : Generator} (h : g.Pooled) :
    g.taking g.scratch.used g.trace = g := by
  rw [Generator.taking, ← h]
  rfl

namespace Gen

variable {α : Type} {op : Gen α} {g g' g₁ : Generator} {n : Nat} {a r : α}

/-- The outcome of a call is what the operation does. -/
theorem Does.run_eq (hdoes : Does op g g.scratch.used a g₁ n) (hpool : g.Pooled)
    (h : g.run op = (.ok r, g')) : r = a ∧ g'.code = g₁.code ∧ g'.scratch.used = n := by
  obtain ⟨trace, htrace⟩ := hdoes g.trace
  rw [hpool.taking_eq] at htrace
  simp only [Generator.run, EStateM.run, htrace] at h
  cases h
  exact ⟨rfl, rfl, rfl⟩

theorem Stops.run_ne (hstops : Stops op g g.scratch.used) (hpool : g.Pooled) :
    g.run op ≠ (.ok r, g') := by
  intro h
  obtain ⟨fault, g₂, hfault⟩ := hstops g.trace
  rw [hpool.taking_eq] at hfault
  simp only [Generator.run, EStateM.run, hfault] at h
  cases h

end Gen

/-- A call has emitted instructions that lead from one memory to another, wherever they stand, and
    that change no cells but the scratch cells it has taken. -/
structure Fetches (g g' : Generator) (resolved : Gen.Resolved) (is : List Instruction)
    (m m' : Memory) : Prop where
  code : g'.code = g.code.append is
  emitted : resolved.emitted = is.length
  runs : ∀ program pc printed, CodeAt program pc is →
    Machine.Reaches program ⟨pc, m, printed⟩ ⟨pc + is.length, m', printed⟩
  spares : g.layout.ScratchOnly g.scratch.used g'.scratch.used m m'

section
variable {g g' : Generator} {s : Symbol} {b : Nat} {m : Memory} {r : Option Gen.Resolved}
  (hpool : g.Pooled) (hfn : s.isFunction = false)
  (hm : m g.layout.framePointer.toNat = BitVec.ofNat 32 b)
  (hsituated : s.isConstant = false → s.Situated g.layout b)
  (hfree : ∀ a ∈ s.cells b m, g.layout.Free a)
include hpool hfn hm hsituated hfree

/-- The value of a symbol that was resolved. -/
theorem fetches_value (hscalar : s.ty.isScalar)
    (h : g.run (Gen.resolveOperand s) = (.ok r, g')) :
    ∃ resolved is m', r = some resolved ∧ Fetches g g' resolved is m m' ∧
      is.length = (if s.isConstant ∨ s.isGlobal then 0 else if s.ty = .indexed then 2 else 1) ∧
      resolved.operand.value m' = s.valueIn b m ∧
      resolved.operand.referent m' =
        if s.isConstant then .number s.value else .cell (s.target b m) := by
  have hs : (s.isFunction || !s.ty.isScalar) = false := by rw [hfn, hscalar]; rfl
  -- a value in a record is resolved only while scratch cells are left
  have hroom : s.isConstant = false → s.isGlobal = false →
      g.scratch.used < g.layout.scratchSlots.toNat := by
    intro hc hg
    by_contra hfull
    exact (Gen.stops_resolveOperand hs hc hg ((hsituated hc).offset hg).1 hfull).run_ne hpool h
  obtain ⟨rfl, hcode, hused⟩ :=
    (Gen.does_resolveOperand_of_room hfn hscalar hroom).run_eq hpool h
  obtain ⟨m', hrun, hspares, href⟩ :=
    Use.exists_referent_value hm hfn hscalar hsituated hfree hroom
  refine ⟨_, _, m', rfl, ⟨hcode, rfl, fun _ _ _ hat => Machine.reaches_of_effects hat hrun,
    hused ▸ hspares⟩, Use.value_code_length hfn hscalar fun hc hg => ((hsituated hc).offset hg).1,
    ?_, href⟩
  rw [Operand.value, href, Symbol.valueIn]
  cases hc : s.isConstant with
  | true => rfl
  | false =>
    refine hspares.of_free (hfree _ (Symbol.target_mem_cells hc)) fun hlt => ?_
    cases hg : s.isGlobal with
    | true =>
      rw [Use.value_of_global hfn hscalar hc hg] at hlt
      exact absurd hlt (Nat.lt_irrefl _)
    | false =>
      have hcells := Use.value_cells_le g.layout g.scratch.used s
      have hleft := hroom hc hg
      omega

/-- The base of a symbol that was resolved. -/
theorem fetches_reference (href : s.ty.isReference) (hc : s.isConstant = false)
    (h : g.run (Gen.resolveReference s) = (.ok r, g')) :
    ∃ resolved is m', r = some resolved ∧ Fetches g g' resolved is m m' ∧
      is.length = (if s.isGlobal then 0 else 1) ∧
      resolved.operand.value m' = s.baseIn b m ∧
      (¬ (s.ty = .arrayInt ∨ s.ty = .arrayVoid) →
        resolved.operand.referent m' = .cell (s.place b)) := by
  have hs : (s.isFunction || !s.ty.isReference) = false := by rw [hfn, href]; rfl
  have hroom : s.isGlobal = false → g.scratch.used < g.layout.scratchSlots.toNat := by
    intro hg
    by_contra hfull
    exact (Gen.stops_resolveReference hs hg ((hsituated hc).offset hg).1 hfull).run_ne hpool h
  obtain ⟨rfl, hcode, hused⟩ :=
    (Gen.does_resolveReference_of_room hfn href hroom).run_eq hpool h
  obtain ⟨m', hrun, hspares, hvalue, hcell⟩ := Use.exists_value_reference hm hfn href
    (hsituated hc) (hfree _ (Symbol.place_mem_cells hc)) hroom
  refine ⟨_, _, m', rfl, ⟨hcode, rfl, fun _ _ _ hat => Machine.reaches_of_effects hat hrun,
    hused ▸ hspares⟩, ?_, hvalue, hcell⟩
  cases hg : s.isGlobal with
  | true => rw [Use.reference_of_global hfn href hg]; rfl
  | false => rw [Use.reference_of_local hfn href hg ((hsituated hc).offset hg).1]; rfl

end

/-- What symbols are resolved to has the meaning of the symbols. Let the frame pointer of a memory
    hold the address `b` of a record, and let the cells of a symbol be apart from the pointers and
    the scratch cells. Whenever a scalar is resolved, the instructions emitted for it, as many as
    its kind calls for, run and change no more than the scratch cells taken for them; then the
    operand reads as the number, the word at the address of a global, the word at `b` and an offset,
    or the word whose address the cell of a temporary holds, and a result left there goes to just
    that cell, or nowhere for a number. Whenever an array or a reference to one is resolved, the
    operand reads likewise as the address of the first element, and the operand of a reference
    stands for its cell. -/
theorem resolution_keeps_meaning (g : Generator) (s : Symbol) (b : Nat) (m : Memory)
    (hpool : g.Pooled) (hfn : s.isFunction = false)
    (hm : m g.layout.framePointer.toNat = BitVec.ofNat 32 b)
    (hsituated : s.isConstant = false → s.Situated g.layout b)
    (hfree : ∀ a ∈ s.cells b m, g.layout.Free a) :
    (s.ty.isScalar → ∀ r g', g.run (Gen.resolveOperand s) = (.ok r, g') →
      ∃ resolved is m', r = some resolved ∧ Fetches g g' resolved is m m' ∧
        is.length = (if s.isConstant ∨ s.isGlobal then 0 else if s.ty = .indexed then 2 else 1) ∧
        resolved.operand.value m' = s.valueIn b m ∧
        ∀ w, (resolved.operand.referent m').store? m' w =
          if s.isConstant then none else some (m'.set (s.target b m) w)) ∧
    (s.ty.isReference → s.isConstant = false →
      ∀ r g', g.run (Gen.resolveReference s) = (.ok r, g') →
      ∃ resolved is m', r = some resolved ∧ Fetches g g' resolved is m m' ∧
        is.length = (if s.isGlobal then 0 else 1) ∧
        resolved.operand.value m' = s.baseIn b m ∧
        (¬ (s.ty = .arrayInt ∨ s.ty = .arrayVoid) → ∀ w,
          (resolved.operand.referent m').store? m' w = some (m'.set (s.place b) w))) := by
  constructor
  · intro hscalar r g' h
    obtain ⟨resolved, is, m', hr, hfetches, hlength, hvalue, href⟩ :=
      fetches_value hpool hfn hm hsituated hfree hscalar h
    refine ⟨resolved, is, m', hr, hfetches, hlength, hvalue, fun w => ?_⟩
    rw [href]
    split <;> rfl
  · intro href hc r g' h
    obtain ⟨resolved, is, m', hr, hfetches, hlength, hvalue, hcell⟩ :=
      fetches_reference hpool hfn hm hsituated hfree href hc h
    refine ⟨resolved, is, m', hr, hfetches, hlength, hvalue, fun harray w => ?_⟩
    rw [hcell harray]
    rfl

/-- A temporary that holds the address of an element, in a record at 1000: its operand reads and
    writes the element at 2000. -/
theorem resolution_keeps_meaning_element :
    let g := Generator.initial {}
    let s : Symbol := { ty := .indexed, value := 20 }
    let m : Memory := fun a => if a = 200 then 1000 else if a = 1020 then 2000 else 7
    ∃ r g', g.run (Gen.resolveOperand s) = (.ok r, g') ∧
      ∃ resolved is m', r = some resolved ∧ Fetches g g' resolved is m m' ∧ is.length = 2 ∧
        resolved.operand.value m' = 7 ∧
        (resolved.operand.referent m').store? m' 9 = some (m'.set 2000 9) := by
  intro g s m
  have hfree : ∀ a ∈ s.cells 1000 m, g.layout.Free a := by
    intro a ha
    refine (Layout.apart_of_flaw? (by decide +kernel)).free ?_
    obtain rfl | rfl : a = 1020 ∨ a = 2000 := by
      simpa [s, m, Symbol.cells, Symbol.place, Symbol.target] using ha
    · decide
    · decide
  have hsituated : s.Situated g.layout 1000 := by
    unfold Symbol.Situated
    decide
  obtain ⟨r, g', hrun⟩ : ∃ r g', g.run (Gen.resolveOperand s) = (.ok r, g') := ⟨_, _, rfl⟩
  obtain ⟨resolved, is, m', hr, hfetches, hlength, hvalue, hstore⟩ :=
    (resolution_keeps_meaning g s 1000 m rfl rfl rfl (fun _ => hsituated) hfree).1 rfl r g' hrun
  exact ⟨r, g', hrun, resolved, is, m', hr, hfetches, hlength, hvalue, hstore 9⟩

end OnePass
