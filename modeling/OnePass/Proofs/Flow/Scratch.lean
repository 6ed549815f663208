import OnePass.Proofs.Flow.Jumps
import OnePass.Proofs.Storage.Code

/-!
# Scratch cells within blocks

Code falls into blocks: control enters a block only at its first instruction and leaves it only after
its last. Every scratch cell is written in the block that reads it, before it is read, so no scratch
cell ever carries a value from one block to another. -/

namespace OnePass

open Planned (plain settle)

/-! ### Reading and writing -/

namespace Instruction

/-- The operands whose values an instruction takes. -/
def sources (i : Instruction) : List Operand :=
  match i.op with
  | .add | .mul | .sub | .eq | .lt => i.a.toList ++ i.b.toList
  | .assign | .jpf | .print => i.a.toList
  | .jp => []

/-- An instruction depends on what a cell holds: it takes its value, or follows it to another cell
    or to a position. -/
def Reads (i : Instruction) (cell : Word) : Prop :=
  .direct cell ∈ i.sources ∨ .indirect cell ∈ i.dataOperands

/-- An instruction leaves its result in a cell. -/
def Writes (i : Instruction) (cell : Word) : Prop := i.destination? = some (.direct cell)

/-- The next instruction comes next. -/
def Falls (i : Instruction) : Prop := i.op ≠ .jp ∧ i.op ≠ .jpf

theorem Falls.of_op {i : Instruction} (op : Opcode) (hop : i.op = op)
    (h : op ≠ .jp ∧ op ≠ .jpf) : i.Falls := by
  rwa [Falls, hop]

section
variable {op : Opcode} {a b c : Operand} {cell : Word}

theorem reads_binary (hop : op.arity = 3) (h : (binary op a b c).Reads cell) :
    a.address? = some cell ∨ b.address? = some cell ∨ c = .indirect cell := by
  have hsources : (binary op a b c).sources = [a, b] := by
    cases op <;> first | rfl | cases hop
  have hoperands : (binary op a b c).dataOperands = [a, b, c] := by
    cases op <;> first | rfl | cases hop
  rw [Reads, hsources, hoperands] at h
  simp only [List.mem_cons, List.not_mem_nil, or_false] at h
  rcases h with (rfl | rfl) | (rfl | rfl | rfl)
  · exact .inl rfl
  · exact .inr (.inl rfl)
  · exact .inl rfl
  · exact .inr (.inl rfl)
  · exact .inr (.inr rfl)

theorem reads_assign (h : (assign a b).Reads cell) : a.address? = some cell ∨ b = .indirect cell := by
  simp only [Reads, assign, sources, dataOperands, jumpTarget?, targetOperand?, Option.toList,
    List.singleton_append, List.append_nil, List.mem_cons, List.not_mem_nil, or_false] at h
  rcases h with rfl | (rfl | rfl)
  · exact .inl rfl
  · exact .inl rfl
  · exact .inr rfl

theorem reads_print (h : (print a).Reads cell) : a.address? = some cell := by
  simp only [Reads, print, sources, dataOperands, jumpTarget?, targetOperand?, Option.toList,
    List.append_nil, List.mem_cons, List.not_mem_nil, or_false] at h
  rcases h with rfl | rfl <;> rfl

theorem reads_jumpIfFalse {target : Nat} (h : (jumpIfFalse a target).Reads cell) :
    a.address? = some cell := by
  simp only [Reads, jumpIfFalse, sources, dataOperands, jumpTarget?, targetOperand?,
    Instruction.target, Option.toList, List.mem_cons, List.not_mem_nil, or_false] at h
  rcases h with rfl | rfl <;> rfl

theorem not_reads_jump {target : Nat} : ¬ (jump target).Reads cell := by
  rintro (h | h) <;> cases h

theorem reads_jumpThrough {c : Word} (h : (jumpThrough (.indirect c)).Reads cell) : c = cell := by
  rcases h with h | h
  · cases h
  · exact (Operand.indirect.inj (List.mem_singleton.mp h)).symm

end

end Instruction

/-- Some instruction writes a cell. -/
def Written (is : List Instruction) (cell : Word) : Prop := ∃ i ∈ is, i.Writes cell

/-- Code without jumps that writes every cell of a kind before it reads it. -/
structure Fed (S : Word → Prop) (is : List Instruction) : Prop where
  falls : ∀ i ∈ is, i.Falls
  reads : ∀ k i, is[k]? = some i → ∀ cell, S cell → i.Reads cell → Written (is.take k) cell

variable {S : Word → Prop} {is js : List Instruction}

theorem Written.left {cell : Word} (h : Written is cell) : Written (is ++ js) cell := by
  obtain ⟨i, hi, hwrites⟩ := h
  exact ⟨i, List.mem_append_left _ hi, hwrites⟩

theorem Written.right {cell : Word} (h : Written js cell) : Written (is ++ js) cell := by
  obtain ⟨i, hi, hwrites⟩ := h
  exact ⟨i, List.mem_append_right _ hi, hwrites⟩

theorem Written.last {i : Instruction} {cell : Word} (h : i.Writes cell) :
    Written (is ++ [i]) cell := .right ⟨i, List.mem_singleton_self i, h⟩

namespace Fed

theorem nil : Fed S [] := ⟨List.forall_mem_nil _, fun _ _ hk => by cases hk⟩

theorem append (h : Fed S is) (h' : Fed S js) : Fed S (is ++ js) := by
  refine ⟨List.forall_mem_append.mpr ⟨h.falls, h'.falls⟩, fun k i hk cell hcell hreads => ?_⟩
  rw [List.take_append]
  by_cases hlt : k < is.length
  · rw [List.getElem?_append_left hlt] at hk
    exact .left (h.reads k i hk cell hcell hreads)
  · rw [List.getElem?_append_right (by omega)] at hk
    exact .right (h'.reads _ i hk cell hcell hreads)

/-- One more instruction, that reads what was written. -/
theorem snoc (h : Fed S is) {i : Instruction} (hfalls : i.Falls)
    (hreads : ∀ cell, S cell → i.Reads cell → Written is cell) : Fed S (is ++ [i]) := by
  refine ⟨List.forall_mem_append.mpr ⟨h.falls, List.forall_mem_singleton.mpr hfalls⟩,
    fun k x hk cell hcell hx => ?_⟩
  rw [List.take_append]
  by_cases hlt : k < is.length
  · rw [List.getElem?_append_left hlt] at hk
    exact .left (h.reads k x hk cell hcell hx)
  · rw [List.getElem?_append_right (by omega)] at hk
    obtain rfl := List.mem_singleton.mp (List.mem_of_getElem? hk)
    rw [List.take_of_length_le (by omega)]
    exact .left (hreads cell hcell hx)

section
variable {a b c : Operand} (h : Fed S is)
  (ha : ∀ cell, S cell → a.address? = some cell → Written is cell)
  (hb : ∀ cell, S cell → b.address? = some cell → Written is cell)
include h ha hb

theorem binary {op : Opcode} (hop : op.arity = 3)
    (hc : ∀ cell, S cell → c.address? = some cell → Written is cell) :
    Fed S (is ++ [.binary op a b c]) := by
  refine h.snoc ?_ fun cell hcell hreads => ?_
  · constructor <;> rintro ⟨⟩ <;> cases hop
  · rcases Instruction.reads_binary hop hreads with heq | heq | rfl
    · exact ha cell hcell heq
    · exact hb cell hcell heq
    · exact hc cell hcell rfl

theorem assign : Fed S (is ++ [.assign a b]) := by
  refine h.snoc (.of_op .assign rfl (by decide)) fun cell hcell hreads => ?_
  rcases Instruction.reads_assign hreads with heq | rfl
  · exact ha cell hcell heq
  · exact hb cell hcell rfl

end

theorem flatMap {α : Type} {f : α → List Instruction} {xs : List α}
    (h : ∀ x ∈ xs, Fed S (f x)) : Fed S (xs.flatMap f) := by
  induction xs with
  | nil => exact .nil
  | cons x xs ih =>
    rw [List.forall_mem_cons] at h
    exact h.1.append (ih h.2)

end Fed

/-! ### Fragments -/

/-- The cells of the pool. -/
def Layout.IsScratchCell (l : Layout) (cell : Word) : Prop :=
  ∃ k, k < l.scratchSlots.toNat ∧ cell = l.scratchCell k

/-- The code of a use is fed, and writes what its operand depends on. -/
structure Use.Fed (S : Word → Prop) (u : Use) : Prop where
  code : OnePass.Fed S u.code
  operand : ∀ cell, S cell → u.operand.address? = some cell → Written u.code cell

namespace Use.Fed

theorem number (w : Word) : (Use.number w).Fed S := ⟨.nil, nofun⟩

theorem field {l : Layout} {n : Nat} {pointer : Word} (hpointer : ¬ S pointer) (offset : Word) :
    (Use.field l n pointer offset).Fed S := by
  rw [Use.field]
  split
  · refine ⟨.nil, ?_⟩
    rintro _ hcell ⟨⟩
    exact absurd hcell hpointer
  · refine ⟨OnePass.Fed.snoc .nil (.of_op .add rfl (by decide)) fun cell hcell hreads => ?_, ?_⟩
    · rcases Instruction.reads_binary rfl hreads with heq | heq | heq <;> cases heq
      exact absurd hcell hpointer
    · rintro _ - ⟨⟩
      exact ⟨_, List.mem_singleton_self _, rfl⟩

theorem through {u : Use} (h : u.Fed S) : u.through.Fed S := by
  rw [Use.through]
  split
  · rename_i scratch hu
    refine ⟨h.code.snoc (.of_op .assign rfl (by decide)) fun cell hcell hreads => ?_, fun cell hcell heq => ?_⟩
    · rcases Instruction.reads_assign hreads with heq | heq <;> cases heq
      exact h.operand _ hcell (by rw [hu]; rfl)
    · exact .left (h.operand cell hcell heq)
  · rename_i address hu
    refine ⟨h.code, ?_⟩
    rintro _ hcell ⟨⟩
    exact h.operand _ hcell (by rw [hu]; rfl)
  · exact h

end Use.Fed

variable {A : Area}

namespace Area.Sound

variable (hA : A.Sound) {n : Nat} {s : Symbol}
include hA

theorem framePointer_not_scratch : ¬ A.layout.IsScratchCell A.layout.framePointer := by
  rintro ⟨k, hk, heq⟩
  exact hA.scratch_ne hk heq.symm

theorem stackPointer_not_scratch : ¬ A.layout.IsScratchCell A.layout.stackPointer := by
  rintro ⟨k, hk, heq⟩
  have hcell := Layout.toNat_scratchCell hA.apart hk
  have houtside := hA.apart.stackPointer_scratch
  rw [← heq] at hcell
  simp only [Word.size] at hcell houtside
  omega

theorem variable_not_scratch {d : VarDecl} {address : Nat} (h : (d, address) ∈ A.globals) :
    ¬ A.layout.IsScratchCell (BitVec.ofNat 32 address) := by
  rintro ⟨k, hk, heq⟩
  have hdata := hA.data _ h
  have hcell := Layout.toNat_scratchCell hA.apart hk
  have hbelow := hA.apart.scratch_le
  have hlimit : declaredLimit < 2147483648 := by decide
  rw [← heq, Word.toNat_ofNat (by omega)] at hcell
  simp only [Word.size] at hcell hbelow
  omega

theorem fed_cell (hs : s.Located A) (hfn : s.isFunction = false) :
    (Use.cell A.layout n s).Fed A.layout.IsScratchCell := by
  cases hs with
  | function h =>
    rw [hfn] at h
    cases h
  | global h =>
    refine ⟨.nil, ?_⟩
    rintro _ hcell ⟨⟩
    exact absurd hcell (hA.variable_not_scratch h)
  | array => exact .field hA.framePointer_not_scratch _
  | cell => exact .field hA.framePointer_not_scratch _

theorem fed_value (hs : s.Usable A) : (Use.value A.layout n s).Fed A.layout.IsScratchCell := by
  cases hs with
  | constant w => exact .number w
  | voidResult name => exact .number 0
  | located hs =>
    rw [Use.value, Use.scalar]
    split
    · exact .number 0
    rename_i hscalar
    simp only [Bool.or_eq_true, Bool.not_eq_true', not_or, Bool.not_eq_true] at hscalar
    split
    · exact .number _
    split
    · exact .through (hA.fed_cell hs hscalar.1)
    · exact hA.fed_cell hs hscalar.1

theorem fed_reference (hs : s.Usable A) : (Use.reference A.layout n s).Fed A.layout.IsScratchCell := by
  have harray : (Use.mk (.direct (A.layout.scratchCell n)) [.add (.direct A.layout.framePointer)
      (.immediate s.value) (.direct (A.layout.scratchCell n))] 1).Fed A.layout.IsScratchCell := by
    refine ⟨OnePass.Fed.snoc .nil (.of_op .add rfl (by decide)) fun cell hcell hreads => ?_, ?_⟩
    · rcases Instruction.reads_binary rfl hreads with heq | heq | heq <;> cases heq
      exact absurd hcell hA.framePointer_not_scratch
    · rintro _ - ⟨⟩
      exact ⟨_, List.mem_singleton_self _, rfl⟩
  cases hs with
  | constant w => exact .number 0
  | voidResult name => exact .number 0
  | located hs =>
    rw [Use.reference]
    split
    · exact .number 0
    rename_i href
    simp only [Bool.or_eq_true, Bool.not_eq_true', not_or, Bool.not_eq_true] at href
    rw [Use.base]
    split
    · split
      · exact .number _
      · exact harray
    · split
      · exact .number _
      · exact harray
    · exact hA.fed_cell hs href.1

theorem fed_argument (hs : s.Usable A) (parameter : Ty) :
    (Use.argument A.layout n parameter s).Fed A.layout.IsScratchCell := by
  rw [Use.argument]
  split
  · exact hA.fed_reference hs
  · exact hA.fed_value hs

/-! Each fragment but for its jump, if it has one. -/

theorem fed_binary (op : BinaryOp) {a b c : Symbol} (ha : a.Usable A) (hb : b.Usable A)
    (hc : c.Usable A) : Fed A.layout.IsScratchCell (Fragment.binary A.layout op a b c) := by
  have hfirst := hA.fed_value (n := 0) ha
  have hsecond := hA.fed_value (n := (Use.value A.layout 0 a).cells) hb
  have hthird := hA.fed_value (n := (Use.value A.layout 0 a).cells
    + (Use.value A.layout (Use.value A.layout 0 a).cells b).cells) hc
  refine ((hfirst.code.append hsecond.code).append hthird.code).binary ?_ ?_ ?_ ?_
  · exact fun cell hcell heq => .left (.left (hfirst.operand cell hcell heq))
  · exact fun cell hcell heq => .left (.right (hsecond.operand cell hcell heq))
  · cases op <;> rfl
  · exact fun cell hcell heq => .right (hthird.operand cell hcell heq)

theorem fed_assign {a b : Symbol} (ha : a.Usable A) (hb : b.Usable A) :
    Fed A.layout.IsScratchCell (Fragment.assign A.layout a b) := by
  have hfirst := hA.fed_value (n := 0) hb
  have hsecond := hA.fed_value (n := (Use.value A.layout 0 b).cells) ha
  refine (hfirst.code.append hsecond.code).assign ?_ ?_
  · exact fun cell hcell heq => .left (hfirst.operand cell hcell heq)
  · exact fun cell hcell heq => .right (hsecond.operand cell hcell heq)

theorem fed_index {a i e : Symbol} (ha : a.Usable A) (hi : i.Usable A) (he : e.Located A)
    (hfn : e.isFunction = false) : Fed A.layout.IsScratchCell (Fragment.index A.layout a i e) := by
  have hindex := hA.fed_value (n := 0) hi
  have helement := hA.fed_cell (n := (Use.value A.layout 0 i).cells) he hfn
  have harray := hA.fed_reference (n := (Use.value A.layout 0 i).cells
    + (Use.cell A.layout (Use.value A.layout 0 i).cells e).cells) ha
  refine (((hindex.code.append helement.code).binary ?_ ?_ rfl ?_).append harray.code).binary
    ?_ ?_ rfl ?_
  · exact fun cell hcell heq => .left (hindex.operand cell hcell heq)
  · rintro _ - ⟨⟩
  · exact fun cell hcell heq => .right (helement.operand cell hcell heq)
  · exact fun cell hcell heq => .left (.left (.right (helement.operand cell hcell heq)))
  · exact fun cell hcell heq => .right (harray.operand cell hcell heq)
  · exact fun cell hcell heq => .left (.left (.right (helement.operand cell hcell heq)))

theorem fed_print {args : List Symbol} (hargs : ∀ s ∈ args, s.Usable A) :
    Fed A.layout.IsScratchCell (Fragment.print A.layout args) := by
  have hprint : ∀ {u : Use}, u.Fed A.layout.IsScratchCell →
      Fed A.layout.IsScratchCell (u.code ++ [.print u.operand]) := fun hu =>
    hu.code.snoc (.of_op .print rfl (by decide)) fun cell hcell hreads =>
      hu.operand cell hcell (Instruction.reads_print hreads)
  cases args with
  | nil => exact hprint (.number 0)
  | cons arg _ => exact hprint (hA.fed_value (hargs arg (List.mem_cons_self ..)))

theorem fed_stackField (n : Nat) (offset : Word) :
    (Use.field A.layout n A.layout.stackPointer offset).Fed A.layout.IsScratchCell :=
  .field hA.stackPointer_not_scratch offset

theorem fed_arguments (params : List Ty) {args : List Symbol} (hargs : ∀ s ∈ args, s.Usable A) :
    Fed A.layout.IsScratchCell (Fragment.arguments A.layout params args) := by
  refine .flatMap ?_
  rintro ⟨⟨parameter, arg⟩, index⟩ hx
  have harg : arg.Usable A := hargs arg (List.of_mem_zip (List.fst_mem_of_mem_zipIdx hx)).2
  have hfirst := hA.fed_argument (n := 0) harg parameter
  have hsecond := hA.fed_stackField (Use.argument A.layout 0 parameter arg).cells
    (BitVec.ofNat 32 (Record.header + Word.size * index))
  refine (hfirst.code.append hsecond.code).assign ?_ ?_
  · exact fun cell hcell heq => .left (hfirst.operand cell hcell heq)
  · exact fun cell hcell heq => .right (hsecond.operand cell hcell heq)

theorem fed_fetch {s : Symbol} (hs : s.Usable A) :
    Fed A.layout.IsScratchCell (Fragment.fetch A.layout s) := by
  have hvalue := hA.fed_value (n := 0) hs
  refine hvalue.code.assign ?_ hvalue.operand
  rintro _ hcell ⟨⟩
  exact absurd hcell hA.stackPointer_not_scratch

theorem fed_storeReturn {s : Symbol} (hs : s.Usable A) :
    Fed A.layout.IsScratchCell (Fragment.storeReturn A.layout s) := by
  have hvalue := hA.fed_value (n := 0) hs
  have hreturn : (Use.field A.layout (Use.value A.layout 0 s).cells A.layout.framePointer
      (BitVec.ofNat 32 Record.returnValue)).Fed A.layout.IsScratchCell :=
    .field hA.framePointer_not_scratch _
  refine (hvalue.code.append hreturn.code).assign ?_ ?_
  · exact fun cell hcell heq => .left (hvalue.operand cell hcell heq)
  · exact fun cell hcell heq => .right (hreturn.operand cell hcell heq)

end Area.Sound

/-! ### Blocks -/

/-- In code that stands at `pc` and is cut at some positions, a cell is written at offset `j` for the
    instruction at offset `k`: no jump leads away in between, and no cut is passed. -/
structure Feeds (cuts : Nat → Prop) (pc : Nat) (ps : List Planned) (cell : Word) (j k : Nat) :
    Prop where
  lt : j < k
  writes : ∃ i, ps[j]? = some (.code i) ∧ i.Writes cell
  falls : ∀ m, j ≤ m → m < k → ∃ i, ps[m]? = some (.code i) ∧ i.Falls
  uncut : ∀ m, j < m → m ≤ k → ¬ cuts (pc + m)

/-- Code that stands at `pc` is cut into blocks, in each of which cells of a kind are written before
    they are read. -/
structure Cut (S : Word → Prop) (cuts : Nat → Prop) (pc : Nat) (ps : List Planned) : Prop where
  first : cuts pc
  last : cuts (pc + ps.length)
  within : ∀ q, cuts q → pc ≤ q ∧ q ≤ pc + ps.length
  reads : ∀ k i, ps[k]? = some (.code i) → ∀ cell, S cell → i.Reads cell →
    ∃ j, Feeds cuts pc ps cell j k

namespace Cut

variable {cuts cuts' : Nat → Prop} {pc : Nat} {ps qs : List Planned}

theorem append (h : Cut S cuts pc ps) (h' : Cut S cuts' (pc + ps.length) qs) :
    Cut S (fun q => cuts q ∨ cuts' q) pc (ps ++ qs) := by
  refine ⟨.inl h.first, .inr ?_, fun q hq => ?_, fun k i hk cell hcell hreads => ?_⟩
  · rw [List.length_append, ← Nat.add_assoc]
    exact h'.last
  · rw [List.length_append]
    rcases hq with hq | hq
    · have := h.within q hq
      omega
    · have := h'.within q hq
      omega
  · by_cases hlt : k < ps.length
    · rw [List.getElem?_append_left hlt] at hk
      obtain ⟨j, hfeeds⟩ := h.reads k i hk cell hcell hreads
      have hj := hfeeds.lt
      refine ⟨j, hj, ?_, fun m hjm hmk => ?_, fun m hjm hmk => ?_⟩
      · rw [List.getElem?_append_left (by omega)]
        exact hfeeds.writes
      · rw [List.getElem?_append_left (by omega)]
        exact hfeeds.falls m hjm hmk
      · rintro (hq | hq)
        · exact hfeeds.uncut m hjm hmk hq
        · have := h'.within _ hq
          omega
    · rw [List.getElem?_append_right (by omega)] at hk
      obtain ⟨j, hfeeds⟩ := h'.reads _ i hk cell hcell hreads
      have hj := hfeeds.lt
      refine ⟨ps.length + j, by omega, ?_, fun m hjm hmk => ?_, fun m hjm hmk => ?_⟩
      · rw [List.getElem?_append_right (by omega), Nat.add_sub_cancel_left]
        exact hfeeds.writes
      · rw [List.getElem?_append_right (by omega)]
        exact hfeeds.falls _ (by omega) (by omega)
      · have hpos : pc + ps.length + (m - ps.length) = pc + m := by omega
        rintro (hq | hq)
        · have := h.within _ hq
          omega
        · exact hfeeds.uncut (m - ps.length) (by omega) (by omega) (by rwa [hpos])

theorem next (h : Cut S cuts pc ps) {pc' : Nat} (hpc : pc' = pc + ps.length)
    (h' : Cut S cuts' pc' qs) : Cut S (fun q => cuts q ∨ cuts' q) pc (ps ++ qs) := by
  subst hpc
  exact h.append h'

/-- One block: straight code, and maybe a jump. -/
theorem block (h : Fed S is) (jump : Option Instruction)
    (hjump : ∀ i ∈ jump, ∀ cell, S cell → i.Reads cell → Written is cell) :
    Cut S (fun q => q = pc ∨ q = pc + (is ++ jump.toList).length) pc (plain (is ++ jump.toList)) := by
  refine ⟨.inl rfl, .inr (by rw [Planned.length_plain]), fun q hq => ?_,
    fun k i hk cell hcell hreads => ?_⟩
  · rw [Planned.length_plain]
    omega
  have hplain : ∀ {m : Nat} {x : Instruction},
      is[m]? = some x → (plain (is ++ jump.toList))[m]? = some (.code x) := by
    intro m x hm
    obtain ⟨hlt, -⟩ := List.getElem?_eq_some_iff.mp hm
    rw [plain, List.getElem?_map, List.getElem?_append_left hlt, hm]
    rfl
  rw [plain, List.getElem?_map, Option.map_eq_some_iff] at hk
  obtain ⟨x, hk, heq⟩ := hk
  cases heq
  obtain ⟨hk_lt, -⟩ := List.getElem?_eq_some_iff.mp hk
  -- what the instruction reads is written in the straight code before it
  have hbefore : k ≤ is.length ∧ Written (is.take k) cell := by
    by_cases hlt : k < is.length
    · rw [List.getElem?_append_left hlt] at hk
      exact ⟨Nat.le_of_lt hlt, h.reads k i hk cell hcell hreads⟩
    · have hjump_length : jump.toList.length ≤ 1 := by cases jump <;> simp
      rw [List.getElem?_append_right (by omega)] at hk
      have hmem := Option.mem_toList.mp (List.mem_of_getElem? hk)
      rw [List.length_append] at hk_lt
      rw [List.take_of_length_le (by omega)]
      exact ⟨by omega, hjump i hmem cell hcell hreads⟩
  obtain ⟨hle, w, hw, hwrites⟩ := hbefore
  obtain ⟨j, hj⟩ := List.mem_iff_getElem?.mp hw
  obtain ⟨hj_lt, -⟩ := List.getElem?_eq_some_iff.mp hj
  rw [List.length_take] at hj_lt
  rw [List.getElem?_take_of_lt (by omega)] at hj
  refine ⟨j, by omega, ⟨w, hplain hj, hwrites⟩, fun m _ hmk => ?_, fun m hjm hmk => by omega⟩
  have hm : m < is.length := by omega
  exact ⟨is[m], hplain (List.getElem?_eq_getElem hm), h.falls _ (List.getElem_mem hm)⟩

/-- A jump that is still open is a block of its own. -/
theorem hole {kind : Planned} (h : kind.slot = none) :
    Cut S (fun q => q = pc ∨ q = pc + 1) pc [kind] := by
  refine ⟨.inl rfl, .inr rfl, fun q hq => ?_, fun k i hk => ?_⟩
  · simp only [List.length_singleton]
    omega
  · obtain rfl := List.mem_singleton.mp (List.mem_of_getElem? hk)
    cases h

theorem nil : Cut S (· = pc) pc [] :=
  ⟨rfl, rfl, fun q hq => by simp [hq], fun k i hk => by cases hk⟩

/-- A jump may be a block of its own too. -/
theorem jump (target : Nat) : Cut S (fun q => q = pc ∨ q = pc + 1) pc (plain [.jump target]) := by
  refine .block .nil (some (.jump target)) ?_
  rintro _ ⟨⟩ cell - hreads
  exact absurd hreads Instruction.not_reads_jump

/-- Jumps in place of open ones change no block. -/
theorem map (h : Cut S cuts pc ps) {f : Planned → Planned} (hcode : ∀ i, f (.code i) = .code i)
    (hopen : ∀ p, p.slot = none → f p = p ∨ ∃ target, f p = .code (.jump target)) :
    Cut S cuts pc (ps.map f) := by
  refine ⟨h.first, ?_, ?_, fun k i hk cell hcell hreads => ?_⟩
  · rw [List.length_map]
    exact h.last
  · rw [List.length_map]
    exact h.within
  · have hkeeps : ∀ {m : Nat} {i : Instruction}, ps[m]? = some (.code i) → (ps.map f)[m]? = some (.code i) := by
      intro m i hm
      rw [List.getElem?_map, hm, Option.map_some, hcode]
    rw [List.getElem?_map, Option.map_eq_some_iff] at hk
    obtain ⟨p, hp, hfp⟩ := hk
    have hpi : p = .code i := by
      cases hslot : p.slot with
      | some i' =>
        cases p with
        | code x => rwa [hcode] at hfp
        | leave | back => cases hslot
      | none =>
        rcases hopen p hslot with hsame | ⟨target, hjump⟩
        · exact hsame.symm.trans hfp
        · rw [hjump] at hfp
          cases hfp
          exact absurd hreads Instruction.not_reads_jump
    rw [hpi] at hp
    obtain ⟨j, hfeeds⟩ := h.reads k i hp cell hcell hreads
    refine ⟨j, hfeeds.lt, ?_, fun m hjm hmk => ?_, hfeeds.uncut⟩
    · obtain ⟨w, hw, hwrites⟩ := hfeeds.writes
      exact ⟨w, hkeeps hw, hwrites⟩
    · obtain ⟨x, hx, hfalls⟩ := hfeeds.falls m hjm hmk
      exact ⟨x, hkeeps hx, hfalls⟩

theorem settle (h : Cut S cuts pc ps) {kind : Planned} (hkind : kind.slot = none) (target : Nat) :
    Cut S cuts pc (ps.map (settle kind (.jump target))) := by
  refine h.map (fun i => ?_) fun p _ => ?_
  · rw [Planned.settle, if_neg]
    rintro rfl
    cases hkind
  · rw [Planned.settle]
    split
    · exact .inr ⟨target, rfl⟩
    · exact .inl rfl

theorem finish (h : Cut S cuts pc ps) (epilogue : Nat) :
    Cut S cuts pc (plain (ps.map (Planned.finish epilogue))) := by
  rw [plain, List.map_map]
  refine h.map (fun i => rfl) fun p hp => .inr ⟨epilogue, ?_⟩
  cases p with
  | code i => cases hp
  | leave | back => rfl

end Cut

/-- Jumps lead to cuts, or to functions. -/
def Aims (fns : List (FnDecl × Frame)) (cuts : Nat → Prop) (ps : List Planned) : Prop :=
  ∀ i, .code i ∈ ps → ∀ target, i.jumpTarget? = some target →
    ∃ q, target = (BitVec.ofNat 32 q).toNat ∧ (cuts q ∨ ∃ x ∈ fns, q = x.2.entry)

namespace Aims

variable {fns : List (FnDecl × Frame)} {cuts cuts' : Nat → Prop} {ps qs : List Planned}

theorem mono (h : Aims fns cuts ps) (hcuts : ∀ q, cuts q → cuts' q) : Aims fns cuts' ps := by
  intro i hi target htarget
  obtain ⟨q, hq, hcut⟩ := h i hi target htarget
  exact ⟨q, hq, hcut.imp_left (hcuts q)⟩

theorem append (h : Aims fns cuts ps) (h' : Aims fns cuts qs) : Aims fns cuts (ps ++ qs) := by
  intro i hi
  rcases List.mem_append.mp hi with hi | hi
  · exact h i hi
  · exact h' i hi

theorem straight (h : ∀ i ∈ is, i.Falls) : Aims fns cuts (plain is) := by
  intro i hi target htarget
  obtain ⟨x, hx, heq⟩ := List.mem_map.mp hi
  cases heq
  obtain ⟨hjp, hjpf⟩ := h i hx
  rw [Instruction.jumpTarget?, Instruction.targetOperand?] at htarget
  split at htarget
  · rename_i heq
    split at heq
    · exact absurd (by assumption) hjp
    · exact absurd (by assumption) hjpf
    · cases heq
  · cases htarget

theorem hole {kind : Planned} (h : kind.slot = none) : Aims fns cuts [kind] := by
  intro i hi
  obtain rfl := List.mem_singleton.mp hi
  cases h

theorem jump {q : Nat} (h : cuts q ∨ ∃ x ∈ fns, q = x.2.entry) : Aims fns cuts (plain [.jump q]) := by
  intro i hi target htarget
  cases List.mem_singleton.mp hi
  exact ⟨q, (Option.some.inj htarget).symm, h⟩

theorem jumpIfFalse {q : Nat} (h : cuts q) (c : Operand) :
    Aims fns cuts (plain [.jumpIfFalse c q]) := by
  intro i hi target htarget
  cases List.mem_singleton.mp hi
  exact ⟨q, (Option.some.inj htarget).symm, .inl h⟩

theorem settle (h : Aims fns cuts ps) (kind : Planned) {q : Nat} (hq : cuts q) :
    Aims fns cuts (ps.map (settle kind (.jump q))) := by
  intro i hi target htarget
  obtain ⟨p, hp, heq⟩ := List.mem_map.mp hi
  rw [Planned.settle] at heq
  split at heq
  · cases heq
    exact ⟨q, (Option.some.inj htarget).symm, .inl hq⟩
  · subst heq
    exact h i hp target htarget

theorem finish (h : Aims fns cuts ps) {q : Nat} (hq : cuts q) :
    Aims fns cuts (plain (ps.map (Planned.finish q))) := by
  intro i hi target htarget
  rw [plain, List.map_map] at hi
  obtain ⟨p, hp, heq⟩ := List.mem_map.mp hi
  cases p with
  | code x =>
    obtain rfl : x = i := Planned.code.inj heq
    exact h x hp target htarget
  | leave | back =>
    cases heq
    exact ⟨q, (Option.some.inj htarget).symm, .inl hq⟩

end Aims

/-- Code is cut into blocks so that jumps lead to cuts or to functions. -/
def Divided (S : Word → Prop) (fns : List (FnDecl × Frame)) (pc : Nat) (ps : List Planned) : Prop :=
  ∃ cuts, Cut S cuts pc ps ∧ Aims fns cuts ps

namespace Divided

variable {fns : List (FnDecl × Frame)} {pc : Nat} {ps qs : List Planned}

theorem append (h : Divided S fns pc ps) (h' : Divided S fns (pc + ps.length) qs) :
    Divided S fns pc (ps ++ qs) := by
  obtain ⟨cuts, hcut, haims⟩ := h
  obtain ⟨cuts', hcut', haims'⟩ := h'
  exact ⟨_, hcut.append hcut',
    (haims.mono fun _ => .inl).append (haims'.mono fun _ => .inr)⟩

theorem nil : Divided S fns pc [] := ⟨_, .nil, fun _ hi => nomatch hi⟩

theorem hole {kind : Planned} (h : kind.slot = none) : Divided S fns pc [kind] :=
  ⟨_, .hole h, .hole h⟩

theorem straight (h : Fed S is) : Divided S fns pc (plain is) := by
  have hcut : Cut S _ pc _ := .block h none fun _ hi => by cases hi
  rw [Option.toList, List.append_nil] at hcut
  exact ⟨_, hcut, .straight h.falls⟩

/-- Straight code and a last instruction, which may jump to a function. -/
theorem block (h : Fed S is) {i : Instruction}
    (hreads : ∀ cell, S cell → i.Reads cell → Written is cell)
    (haims : ∀ target, i.jumpTarget? = some target →
      ∃ x ∈ fns, target = (BitVec.ofNat 32 x.2.entry).toNat) :
    Divided S fns pc (plain (is ++ [i])) := by
  refine ⟨_, .block h (some i) ?_, ?_⟩
  · rintro _ ⟨⟩
    exact hreads
  · rw [Planned.plain_append]
    refine .append (.straight h.falls) fun j hj target htarget => ?_
    cases List.mem_singleton.mp hj
    obtain ⟨x, hx, heq⟩ := haims target htarget
    exact ⟨x.2.entry, heq, .inr ⟨x, hx, rfl⟩⟩

/-- Straight code and a jump to a function. -/
theorem jumping (h : Fed S is) {x : FnDecl × Frame} (hx : x ∈ fns) {value : Word}
    (hvalue : value = BitVec.ofNat 32 x.2.entry) :
    Divided S fns pc (plain (is ++ [.jump value.toNat])) := by
  refine .block h (fun _ _ hreads => absurd hreads Instruction.not_reads_jump) ?_
  rintro _ ⟨⟩
  refine ⟨x, hx, ?_⟩
  rw [hvalue, BitVec.ofNat_toNat, BitVec.setWidth_eq]

end Divided

namespace Area.Sound

variable {fns : List (FnDecl × Frame)} {pc : Nat} (hA : A.Sound)
include hA

/-- A call is one block, with its jump. -/
theorem divided_call {f : FnDecl} {frame : Frame} (hf : (f, frame) ∈ fns) (callee : Symbol)
    (hvalue : callee.value = BitVec.ofNat 32 frame.entry) {args : List Symbol}
    (hargs : ∀ s ∈ args, s.Usable A) :
    Divided A.layout.IsScratchCell fns pc (plain (Fragment.call A.layout pc callee args)) := by
  have hreturn := hA.fed_stackField 0 (BitVec.ofNat 32 Record.returnAddress)
  rw [Fragment.call, Fragment.enter, List.append_cons, ← List.append_assoc, ← List.append_assoc]
  refine .jumping (((hA.fed_arguments _ hargs).append hreturn.code).assign ?_ ?_) hf hvalue
  · rintro _ - ⟨⟩
  · exact fun cell hcell heq => .right (hreturn.operand cell hcell heq)

end Area.Sound

/-! ### Woven code -/

variable {fns : List (FnDecl × Frame)} {pc : Nat}

/-- The code of a condition with its jump, wherever the jump leads. -/
theorem Divided.test (hA : A.Sound) (h : Divided A.layout.IsScratchCell fns pc (plain is))
    {s : Symbol} (hs : s.Usable A) (target : Nat) :
    ∃ cuts, Cut A.layout.IsScratchCell cuts pc (plain (Fragment.test A.layout is s target)) ∧
      ∀ cuts' : Nat → Prop, (∀ q, cuts q → cuts' q) → cuts' target →
        Aims fns cuts' (plain (Fragment.test A.layout is s target)) := by
  obtain ⟨cuts, hcut, haims⟩ := h
  have huse := hA.fed_value (n := 0) hs
  have hjump : ∀ i ∈ some (Instruction.jumpIfFalse (Use.value A.layout 0 s).operand target),
      ∀ cell, A.layout.IsScratchCell cell → i.Reads cell →
        Written (Use.value A.layout 0 s).code cell := by
    rintro _ ⟨⟩ cell hcell hreads
    exact huse.operand cell hcell (Instruction.reads_jumpIfFalse hreads)
  have hblock := hcut.append (.block huse.code _ hjump)
  rw [← Planned.plain_append, Option.toList, ← List.append_assoc] at hblock
  refine ⟨_, hblock, fun cuts' hmono htarget => ?_⟩
  rw [Fragment.test, Planned.plain_append, Planned.plain_append]
  exact ((haims.mono fun q hq => hmono q (.inl hq)).append (.straight huse.code.falls)).append
    (.jumpIfFalse htarget _)

/-- Woven code falls into blocks. -/
theorem Woven.divided (hA : A.Sound) {ps : List Planned} {cs : List (Name × Args)}
    (h : Woven A fns pc ps cs) : Divided A.layout.IsScratchCell fns pc ps := by
  induction h with
  | nil => exact .nil
  | append _ _ ih₁ ih₂ => exact ih₁.append ih₂
  | index ha hi he hfn => exact .straight (hA.fed_index ha hi he hfn)
  | print h => exact .straight (hA.fed_print h.usable)
  | call h hname =>
    obtain ⟨f, frame, hf, rfl⟩ := h.callee hname
    exact hA.divided_call hf _ rfl h.usable
  | callValue h hname _ hlo hhi =>
    obtain ⟨f, frame, hf, rfl⟩ := h.callee hname
    rw [Planned.plain_append]
    refine (hA.divided_call hf _ rfl h.usable).append (.straight (hA.fed_fetch ?_))
    exact .located (.cell (by decide) (by decide) hlo hhi)
  | binary ha hb hc => exact .straight (hA.fed_binary _ ha hb hc)
  | assign ha hb => exact .straight (hA.fed_assign ha hb)
  | storeReturn hs => exact .straight (hA.fed_storeReturn hs)
  | hole hkind => exact .hole hkind
  | ifThen _ hs hn _ ih₁ ih₂ =>
    obtain ⟨cuts, hcut, haims⟩ := ih₁.test hA hs _
    obtain ⟨cuts₁, hcut₁, haims₁⟩ := ih₂
    refine ⟨_, hcut.next ?_ hcut₁, (haims _ (fun _ => .inl) (.inr hcut₁.last)).append
      (haims₁.mono fun _ => .inr)⟩
    rw [Planned.length_plain, Fragment.length_test, hn, Nat.add_assoc]
  | ifElse _ hs hn _ _ ih₁ ih₂ ih₃ =>
    obtain ⟨cuts, hcut, haims⟩ := ih₁.test hA hs _
    obtain ⟨cuts₁, hcut₁, haims₁⟩ := ih₂
    obtain ⟨cuts₂, hcut₂, haims₂⟩ := ih₃
    refine ⟨_, ((hcut.next ?_ hcut₁).append (.jump _)).next ?_ hcut₂,
      (((haims _ (fun _ hq => .inl (.inl (.inl hq))) (.inr hcut₂.first)).append
        (haims₁.mono fun _ hq => .inl (.inl (.inr hq)))).append
          (.jump (.inl (.inr hcut₂.last)))).append (haims₂.mono fun _ => .inr)⟩
    · rw [Planned.length_plain, Fragment.length_test, hn, Nat.add_assoc]
    · simp only [List.length_append, Planned.length_plain, Fragment.length_test,
        List.length_cons, List.length_nil, ← hn]
      omega
  | loop _ _ hs hn ih₁ ih₂ =>
    obtain ⟨cuts, hcut, haims⟩ := ih₁
    obtain ⟨cuts₁, hcut₁, haims₁⟩ := ih₂.test hA hs _
    have hend := hcut₁.last
    rw [Planned.length_plain, Fragment.length_test, ← hn, ← Nat.add_assoc] at hend
    exact ⟨_, (hcut.append hcut₁).settle rfl _, ((haims.mono fun _ => .inl).append
      (haims₁ _ (fun _ => .inr) (.inl hcut.first))).settle _ (.inr hend)⟩

end OnePass
