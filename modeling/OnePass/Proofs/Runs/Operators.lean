import OnePass.Proofs.Runs.Calls
import OnePass.Proofs.Semantics.Source

/-!
# Running operators

The code of an operator computes its result into a temporary, and the code of an index the address
of the element. A symbol that was left by earlier code can still be read as long as its cells are
none that the code behind it borrows for its temporaries. -/

namespace OnePass

/-! ### Memories -/

/-- All but scratch cells and the cells between two addresses stays as it is, and so does the frame
    pointer. -/
structure Layout.Borrows (l : Layout) (lo hi : Nat) (m m' : Memory) : Prop where
  framePointer : m' l.framePointer.toNat = m l.framePointer.toNat
  others : ∀ a, ¬ l.IsScratch 0 a → (a < lo ∨ hi ≤ a) → m' a = m a

namespace Layout.Borrows

variable {l : Layout} {lo mid hi : Nat} {m m₁ m' : Memory}

theorem spares (h : l.Borrows lo hi m m') : l.Spares lo hi m m' :=
  fun a ha hout => h.others a ha.scratch hout

theorem refl (l : Layout) (lo hi : Nat) (m : Memory) : l.Borrows lo hi m m :=
  ⟨rfl, fun _ _ _ => rfl⟩

theorem trans (h : l.Borrows lo mid m m₁) (h' : l.Borrows mid hi m₁ m') (hlo : lo ≤ mid)
    (hhi : mid ≤ hi) : l.Borrows lo hi m m' := by
  refine ⟨h'.framePointer.trans h.framePointer, fun a ha hout => ?_⟩
  exact (h'.others a ha (by omega)).trans (h.others a ha (by omega))

theorem of_keeps {n : Nat} (h : l.Keeps n m m') (hl : l.Apart) : l.Borrows lo hi m m' :=
  ⟨h.framePointer hl, fun a ha _ => h a fun hscratch => ha (hscratch.mono (Nat.zero_le n))⟩

/-- A cell between the addresses takes a value. -/
theorem of_set {n : Nat} {a : Int} {w : Word} (h : l.Keeps n (m.set a w) m') (hl : l.Apart)
    (ha : l.Free a) (hlo : lo ≤ a) (hhi : a < hi) : l.Borrows lo hi m m' := by
  refine ⟨(h.of_set hl ha).2.1, fun c hc hout => ?_⟩
  rw [h c fun hscratch => hc (hscratch.mono (Nat.zero_le n)), m.set_of_ne (by omega)]

end Layout.Borrows

/-! ### Computations on uses -/

theorem effect?_binary {op : Opcode} {f : Word → Word → Word} (hop : op.compute? = some f)
    {a b dst : Operand} {m : Memory} {c : Int} (hdst : dst.referent m = .cell c) :
    (Instruction.binary op a b dst).effect? m = some (m.set c (f (a.value m) (b.value m))) := by
  have hcompute : (Instruction.binary op a b dst).effect? m = op.compute?.bind fun f =>
      (dst.referent m).store? m (f (a.value m) (b.value m)) := by
    cases op with
    | assign => cases hop
    | add | mul | sub | eq | lt | jp | jpf | print => rfl
  rw [hcompute, hop, hdst]
  rfl

/-- An operator is computed as the machine does. -/
theorem BinaryOp.compute?_opcode (op : BinaryOp) : op.opcode.compute? = some op.apply := by
  cases op with
  | add | sub | mul | eq => rfl
  | lt =>
    refine congrArg some ?_
    funext a b
    simp only [BitVec.slt_iff_toInt_lt, apply]

section
variable {l : Layout} {n : Nat} {m : Memory} {u v r : Use} {a : Int} {w w' : Word}

/-- What is computed from two uses goes to the cell of a third. -/
theorem effects?_compute {op : Opcode} {f : Word → Word → Word} (hop : op.compute? = some f)
    (hl : l.Apart) (hu : u.Gives l n m w)
    (hv : ∀ m', l.Keeps n m m' → v.Gives l (n + u.cells) m' w')
    (hr : ∀ m', l.Keeps n m m' → r.Leads l (n + u.cells + v.cells) m' a)
    (hslots : n + u.cells + v.cells + r.cells ≤ l.scratchSlots.toNat) :
    ∃ m', effects? (u.code ++ v.code ++ r.code ++
        [.binary op u.operand v.operand r.operand]) m = some m' ∧
      l.Keeps n (m.set a (f w w')) m' := by
  obtain ⟨m₁, hrun₁, hkeeps₁, hvalue⟩ := hu
  obtain ⟨m₂, hrun₂, hkeeps₂, hvalue'⟩ := hv m₁ hkeeps₁
  have hkeeps := hkeeps₁.trans (hkeeps₂.mono (Nat.le_add_right ..))
  obtain ⟨m₃, hrun₃, hkeeps₃, hleads⟩ := hr m₂ hkeeps
  refine ⟨m₃.set a (f w w'), ?_, (hkeeps.trans (hkeeps₃.mono (by omega))).set a _⟩
  rw [effects?_append, effects?_append, effects?_append, hrun₁, Option.bind_some, hrun₂,
    Option.bind_some, hrun₃, Option.bind_some, effects?_cons,
    effect?_binary hop (hleads m₃ ((Layout.Keeps.refl l _ m₃).fixes hl hslots)),
    hvalue m₃ (hkeeps₂.trans (hkeeps₃.mono (Nat.le_add_right ..))), hvalue' m₃ hkeeps₃]
  rfl

/-- What is read from one use goes to a cell, times a number and plus what is read from another. -/
theorem effects?_scale (k : Word) (hl : l.Apart) (hu : u.Gives l n m w)
    (hr : ∀ m', l.Keeps n m m' → r.Leads l (n + u.cells) m' a) (ha : l.Free a)
    (hv : ∀ m' : Memory, m' l.framePointer.toNat = m l.framePointer.toNat →
      (∀ c, l.Free c → c ≠ a → m' c = m c) → v.Gives l (n + u.cells + r.cells) m' w')
    (hslots : n + u.cells + r.cells + v.cells ≤ l.scratchSlots.toNat) :
    ∃ m', effects? (u.code ++ r.code ++ [.mul u.operand (.immediate k) r.operand] ++ v.code ++
        [.add r.operand v.operand r.operand]) m = some m' ∧
      l.Keeps n (m.set a (w * k + w')) m' := by
  have hcells : n + u.cells + r.cells ≤ l.scratchSlots.toNat := by omega
  obtain ⟨m₁, hrun₁, hkeeps₁, hvalue⟩ := hu
  obtain ⟨m₂, hrun₂, hkeeps₂, hleads⟩ := hr m₁ hkeeps₁
  have hkeeps := hkeeps₁.trans (hkeeps₂.mono (Nat.le_add_right ..))
  -- the product goes to the cell, and the sum replaces it there
  have hproduct : l.Fixes _ m₂ (m₂.set a (w * k)) := .set_free ha hcells m₂ _
  obtain ⟨m₃, hrun₃, hkeeps₃, hvalue'⟩ :=
    hv (m₂.set a (w * k)) (hproduct.framePointer.trans (hkeeps.framePointer hl))
      fun c hc hne => (Memory.set_of_ne _ hne _).trans (hkeeps.of_free hc)
  have hmul : (Instruction.mul u.operand (.immediate k) r.operand).effect? m₂ =
      some (m₂.set a (w * k)) := by
    rw [← hvalue m₂ hkeeps₂]
    exact effect?_binary (show Opcode.mul.compute? = _ from rfl)
      (hleads m₂ ((Layout.Keeps.refl l _ m₂).fixes hl hcells))
  have hcell : r.operand.referent m₃ = .cell a :=
    hleads m₃ (hproduct.trans (hkeeps₃.fixes hl hcells))
  have hadd : (Instruction.add r.operand v.operand r.operand).effect? m₃ =
      some (m₃.set a (w * k + w')) := by
    have hread : r.operand.value m₃ = w * k := by
      rw [Operand.value, hcell]
      exact (hkeeps₃.of_free ha).trans (Memory.set_self _ _ _)
    rw [← hread, ← hvalue' m₃ (.refl l _ m₃)]
    exact effect?_binary (show Opcode.add.compute? = _ from rfl) hcell
  refine ⟨m₃.set a (w * k + w'), ?_, fun c hc => ?_⟩
  · rw [effects?_append, effects?_append, effects?_append, effects?_append, hrun₁,
      Option.bind_some, hrun₂, Option.bind_some, effects?_cons, hmul, Option.bind_some,
      effects?_nil, Option.bind_some, hrun₃, Option.bind_some, effects?_cons, hadd]
    rfl
  · by_cases heq : c = a
    · rw [heq, Memory.set_self, Memory.set_self]
    · rw [Memory.set_of_ne _ heq, Memory.set_of_ne _ heq,
        hkeeps₃ c fun hscratch => hc (hscratch.mono (by omega)), Memory.set_of_ne _ heq,
        hkeeps c hc]

end

/-! ### Symbols that can be read -/

/-- A symbol can be used as an integer, and none of its cells lies between two addresses. -/
structure Symbol.Ready (l : Layout) (b lo hi : Nat) (m : Memory) (s : Symbol) : Prop where
  storage : s.isFunction = false
  scalar : s.ty.isScalar
  placed : s.isConstant = false → s.Placed l b
  cells : ∀ a ∈ s.cells b m, l.Free a ∧ (a < lo ∨ hi ≤ a)

namespace Symbol.Ready

variable {l : Layout} {b lo mid hi n : Nat} {m m' : Memory} {s : Symbol}

theorem constant (w : Word) : (Symbol.constant w).Ready l b lo hi m :=
  ⟨rfl, rfl, nofun, nofun⟩

theorem gives (h : s.Ready l b lo hi m) (hl : l.Apart)
    (hm : m l.framePointer.toNat = BitVec.ofNat 32 b) (hn : n < l.scratchSlots.toNat) :
    (Use.value l n s).Gives l n m (s.valueIn b m) :=
  Use.gives_value hl hn hm h.storage h.scalar fun hc =>
    ⟨h.placed hc, (h.cells _ (Symbol.target_mem_cells hc)).1⟩

/-- What other cells are borrowed for makes no difference to a symbol. -/
theorem same (h : s.Ready l b lo hi m) (hm : l.Borrows lo mid m m') (hhi : mid ≤ hi) :
    ∀ a ∈ s.cells b m, m' a = m a := by
  intro a ha
  obtain ⟨hfree, hout⟩ := h.cells a ha
  exact hm.spares a hfree (by omega)

theorem later (h : s.Ready l b lo hi m) (hm : l.Borrows lo mid m m') (hlo : lo ≤ mid)
    (hhi : mid ≤ hi) : s.Ready l b mid hi m' ∧ s.valueIn b m' = s.valueIn b m := by
  have hsame := h.same hm hhi
  refine ⟨⟨h.storage, h.scalar, h.placed, ?_⟩, Symbol.valueIn_congr hsame⟩
  rw [Symbol.cells_congr hsame]
  intro a ha
  obtain ⟨hfree, hout⟩ := h.cells a ha
  exact ⟨hfree, by omega⟩

/-- The value of a symbol goes to the cell that another stands for. -/
theorem effects?_assign {s₁ s₂ : Symbol} (h₁ : s₁.Ready l b lo lo m) (hc : s₁.isConstant = false)
    (h₂ : s₂.Ready l b lo lo m) (hl : l.Apart) (hslots : 2 ≤ l.scratchSlots.toNat)
    (hm : m l.framePointer.toNat = BitVec.ofNat 32 b) :
    ∃ m', effects? (Fragment.assign l s₁ s₂) m = some m' ∧
      l.Keeps 0 (m.set (s₁.target b m) (s₂.valueIn b m)) m' := by
  let u := Use.value l 0 s₂
  let r := Use.value l u.cells s₁
  have hu : u.cells ≤ 1 := Use.value_cells_le ..
  have hr : r.cells ≤ 1 := Use.value_cells_le ..
  refine OnePass.effects?_assign (u := u) (v := r) hl (h₂.gives hl hm (by omega))
    (fun m' hkeeps => ?_) (by omega)
  have hborrows : l.Borrows lo lo m m' := .of_keeps hkeeps hl
  rw [Nat.zero_add, ← Symbol.target_congr hc (h₁.same hborrows (Nat.le_refl _))]
  exact Use.leads_value (by omega) ((hkeeps.framePointer hl).trans hm) (h₁.placed hc) h₁.storage
    h₁.scalar hc

end Symbol.Ready

/-! ### Results in temporaries -/

/-- The record in use begins at `b`, and its word at the offset `n` can be used. -/
structure Layout.Offers (l : Layout) (b n : Nat) (m : Memory) : Prop where
  apart : l.Apart
  slots : 3 ≤ l.scratchSlots.toNat
  framePointer : m l.framePointer.toNat = BitVec.ofNat 32 b
  offset : 0 < n
  bound : b + n < 2147483648
  free : l.Free (b + n : Nat)

/-- The address of an element, as it is computed. -/
theorem Word.toInt_element {w first : Word} {i : Nat} (hw : w.toInt = i)
    (hbound : first.toInt + (Word.size * i : Nat) < 2147483648) :
    (w * BitVec.ofNat 32 Word.size + first).toInt = first.toInt + (Word.size * i : Nat) := by
  have hleast := first.le_toInt
  have hsize : (BitVec.ofNat 32 Word.size).toInt = Word.size := rfl
  rw [BitVec.toInt_add, BitVec.toInt_mul, hw, hsize, Int.bmod_add_bmod]
  simp only [Word.size] at hbound ⊢
  rw [Int.bmod_eq_of_le (by omega) (by omega)]
  omega

theorem Symbol.target_of_indexed {s : Symbol} (h : s.ty = .indexed) (b : Nat) (m : Memory) :
    s.target b m = (m (s.place b)).toInt := if_pos h

theorem Symbol.baseIn_congr {s : Symbol} {b : Nat} {m m' : Memory}
    (h : s.ty ≠ .arrayInt → s.ty ≠ .arrayVoid → m' (s.place b) = m (s.place b)) :
    s.baseIn b m' = s.baseIn b m := by
  rw [baseIn, baseIn]
  cases hty : s.ty with
  | arrayInt | arrayVoid => rfl
  | void | int | pointerInt | pointerVoid | indexed =>
    exact h (by rw [hty]; decide) (by rw [hty]; decide)

namespace Layout.Offers

variable {l : Layout} {b hi : Nat} {m : Memory} {f : OpenFunction} {s s₁ s₂ array : Symbol}

/-- The next temporary takes the next word of the record. -/
theorem placed_temporary (h : l.Offers b f.record.size m) (count : Nat) (indexed : Bool) :
    (f.temporary count indexed).place b = b + f.record.size ∧
      (f.temporary count indexed).Placed l b := by
  have hoffset := h.offset
  have hbound := h.bound
  have hplace : (f.temporary count indexed).place b = b + f.record.size :=
    congrArg (b + ·) (Word.toNat_ofNat (by omega))
  refine ⟨hplace, ⟨?_, ?_, fun _ => Word.ofNat_ne_zero (by omega) (by omega), fun _ => rfl⟩⟩
  · rw [hplace]
    exact h.free
  · rw [hplace]
    exact hbound

/-- The address of an element goes to a temporary, which then stands for the element. -/
theorem effects?_index (h : l.Offers b f.record.size m)
    (hs : s.Ready l b (b + f.record.size) hi m) (hfn : array.isFunction = false)
    (href : array.ty.isReference) (hcell : array.ty ≠ .arrayInt → array.ty ≠ .arrayVoid →
      array.Placed l b ∧ array.place b ≠ b + f.record.size)
    {i : Nat} {a : Int} (hindex : (s.valueIn b m).toInt = i)
    (ha : (array.baseIn b m).toInt + (Word.size * i : Nat) = a) (hbound : a < 2147483648)
    (hfree : l.Free a) (hout : a < (b + f.record.size + Word.size : Nat) ∨ hi ≤ a)
    (count : Nat) :
    ∃ m', effects? (Fragment.index l array s (f.temporary count true)) m = some m' ∧
      l.Borrows (b + f.record.size) (b + f.record.size + Word.size) m m' ∧
      (f.temporary count true).Ready l b (b + f.record.size + Word.size) hi m' ∧
      (f.temporary count true).target b m' = a := by
  obtain ⟨hplace, hplaced⟩ := h.placed_temporary count true
  have hslots := h.slots
  let u := Use.value l 0 s
  let r := Use.cell l u.cells (f.temporary count true)
  let v := Use.reference l (u.cells + r.cells) array
  have hu : u.cells ≤ 1 := Use.value_cells_le ..
  have hr : r.cells ≤ 1 := Use.cell_cells_le ..
  have hv : v.cells ≤ 1 := Use.reference_cells_le ..
  obtain ⟨m', hrun, hkeeps⟩ : ∃ m', effects? (Fragment.index l array s
      (f.temporary count true)) m = some m' ∧ l.Keeps 0 (m.set (b + f.record.size : Nat)
        (s.valueIn b m * BitVec.ofNat 32 Word.size + array.baseIn b m)) m' := by
    refine effects?_scale (u := u) (r := r) (v := v) _ h.apart
      (hs.gives h.apart h.framePointer (by omega)) (fun m₁ hkeeps => ?_) h.free
      (fun m₁ hframe hsame => ?_) (by omega)
    · rw [← hplace, Nat.zero_add]
      exact Use.leads_cell (by omega) ((hkeeps.framePointer h.apart).trans h.framePointer) hplaced
    · have hbase : array.baseIn b m₁ = array.baseIn b m := Symbol.baseIn_congr fun h₁ h₂ =>
        hsame _ (hcell h₁ h₂).1.free (by exact_mod_cast (hcell h₁ h₂).2)
      rw [Nat.zero_add, ← hbase]
      exact Use.gives_reference h.apart (by omega) (hframe.trans h.framePointer) hfn href
        fun h₁ h₂ => (hcell h₁ h₂).1
  have htarget : (f.temporary count true).target b m' = a := by
    rw [Symbol.target_of_indexed rfl, hplace, (hkeeps.of_set h.apart h.free).1,
      Word.toInt_element hindex (by omega), ha]
  refine ⟨m', hrun, .of_set hkeeps h.apart h.free (by omega) (by simp only [Word.size]; omega),
    ⟨rfl, rfl, fun _ => hplaced, fun c hc => ?_⟩, htarget⟩
  have hcells : (f.temporary count true).cells b m' =
      [((f.temporary count true).place b : Int), (f.temporary count true).target b m'] := rfl
  rw [hcells, htarget, hplace] at hc
  rcases List.mem_cons.mp hc with rfl | hc
  · exact ⟨h.free, by simp only [Word.size]; omega⟩
  · rw [List.mem_singleton.mp hc]
    exact ⟨hfree, hout⟩

/-- The result of an operator goes to a temporary. -/
theorem effects?_operator (h : l.Offers b f.record.size m)
    (h₁ : s₁.Ready l b (b + f.record.size) hi m) (h₂ : s₂.Ready l b (b + f.record.size) hi m)
    (hroom : b + f.record.size + Word.size ≤ hi) (op : BinaryOp) (count : Nat) :
    ∃ m', effects? (Fragment.binary l op s₁ s₂ (f.temporary count false)) m = some m' ∧
      l.Borrows (b + f.record.size) (b + f.record.size + Word.size) m m' ∧
      (f.temporary count false).Ready l b (b + f.record.size + Word.size) hi m' ∧
      (f.temporary count false).valueIn b m' =
        op.apply (s₁.valueIn b m) (s₂.valueIn b m) := by
  obtain ⟨hplace, hplaced⟩ := h.placed_temporary count false
  have hslots := h.slots
  let u := Use.value l 0 s₁
  let v := Use.value l u.cells s₂
  let r := Use.value l (u.cells + v.cells) (f.temporary count false)
  have hu : u.cells ≤ 1 := Use.value_cells_le ..
  have hv : v.cells ≤ 1 := Use.value_cells_le ..
  have hr : r.cells ≤ 1 := Use.value_cells_le ..
  obtain ⟨m', hrun, hkeeps⟩ : ∃ m', effects? (Fragment.binary l op s₁ s₂
      (f.temporary count false)) m = some m' ∧ l.Keeps 0 (m.set (b + f.record.size : Nat)
        (op.apply (s₁.valueIn b m) (s₂.valueIn b m))) m' := by
    refine effects?_compute (u := u) (v := v) (r := r) op.compute?_opcode h.apart
      (h₁.gives h.apart h.framePointer (by omega)) (fun m₁ hkeeps => ?_) (fun m₁ hkeeps => ?_)
      (by omega)
    · have hborrows : l.Borrows (b + f.record.size) (b + f.record.size) m m₁ :=
        .of_keeps hkeeps h.apart
      obtain ⟨hready, hvalue⟩ := h₂.later hborrows (Nat.le_refl _) (Nat.le_of_add_right_le hroom)
      rw [Nat.zero_add, ← hvalue]
      exact hready.gives h.apart ((hkeeps.framePointer h.apart).trans h.framePointer) (by omega)
    · have hleads := Use.leads_value (n := u.cells + v.cells) (by omega)
        ((hkeeps.framePointer h.apart).trans h.framePointer) hplaced rfl rfl rfl
      rw [Symbol.target_of_ne (by nofun), hplace] at hleads
      rwa [Nat.zero_add]
  have hvalue : (f.temporary count false).valueIn b m' =
      m' ((f.temporary count false).place b) := rfl
  refine ⟨m', hrun, .of_set hkeeps h.apart h.free (by omega) (by simp only [Word.size]; omega),
    ⟨rfl, rfl, fun _ => hplaced, fun a ha => ?_⟩, ?_⟩
  · have hcells : (f.temporary count false).cells b m' =
        [((f.temporary count false).place b : Int)] := rfl
    rw [hcells, hplace] at ha
    rw [List.mem_singleton.mp ha]
    exact ⟨h.free, by simp only [Word.size]; omega⟩
  · rw [hvalue, hplace]
    exact (hkeeps.of_set h.apart h.free).1

end Layout.Offers

end OnePass
