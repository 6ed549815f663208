import OnePass.Proofs.Storage.Layout
import OnePass.Proofs.Storage.Places
import OnePass.Proofs.Translate.Linked

/-!
# What instructions touch

An area is what the code of a function may use: the cells of the layout, the global variables, and
its record. An instruction stays within an area if it has the operands that its operation takes, no
result goes to a number, every cell it names is one of the layout or of a global variable, and what
it adds to the frame pointer leads to a cell or an array of the record. -/

namespace OnePass

/-! ### Operands of an instruction -/

/-- The number of operands that an operation takes. -/
def Opcode.arity : Opcode → Nat
  | .add | .mul | .sub | .eq | .lt => 3
  | .assign | .jpf => 2
  | .jp | .print => 1

/-- The address that an operand names. -/
def Operand.address? : Operand → Option Word
  | .immediate _ => none
  | .direct address | .indirect address => some address

namespace Instruction

/-- An instruction has just the operands that its operation takes. -/
def HasShape (i : Instruction) : Prop :=
  i.a.isSome ∧ (i.b.isSome ↔ 2 ≤ i.op.arity) ∧ (i.c.isSome ↔ 3 ≤ i.op.arity)

/-- The operand that a result goes to. -/
def destination? (i : Instruction) : Option Operand :=
  match i.op with
  | .add | .mul | .sub | .eq | .lt => i.c
  | .assign => i.b
  | .jpf | .jp | .print => none

/-- The operands but for a position to jump to. -/
def dataOperands (i : Instruction) : List Operand :=
  match i.op, i.jumpTarget? with
  | .jp, some _ => []
  | .jpf, some _ => i.a.toList
  | _, _ => i.a.toList ++ i.b.toList ++ i.c.toList

/-- The number that an instruction adds to what a pointer holds. -/
def addend? (pointer : Word) (i : Instruction) : Option Word :=
  match i.op, i.a, i.b with
  | .add, some (.direct a), some (.immediate k)
  | .add, some (.immediate k), some (.direct a) => if a = pointer then some k else none
  | _, _, _ => none

end Instruction

/-! ### Areas -/

/-- What code may use: the cells of a layout, global variables with their addresses, and a record
    of some size with variables at some offsets. -/
structure Area where
  layout : Layout
  globals : List (VarDecl × Nat)
  locals : List (VarDecl × Nat) := []
  size : Nat := 0

/-- The addresses that code for an area names. -/
inductive Area.Names (A : Area) : Word → Prop
  | framePointer : Names A A.layout.framePointer
  | stackPointer : Names A A.layout.stackPointer
  | scratch {k} : k < A.layout.scratchSlots.toNat → Names A (A.layout.scratchCell k)
  | variable {d address} : (d, address) ∈ A.globals → d.ty = .int →
      Names A (BitVec.ofNat 32 address)

/-- The offsets from the frame pointer that code for an area uses. -/
inductive Area.Offset (A : Area) : Word → Prop
  | savedStack : Offset A (BitVec.ofNat 32 Record.savedStack)
  | savedFrame : Offset A (BitVec.ofNat 32 Record.savedFrame)
  | array {d offset} : (d, offset) ∈ A.locals → d.ty = .arrayInt →
      Offset A (BitVec.ofNat 32 offset)
  | cell {offset} : Record.header ≤ offset → offset + Word.size ≤ A.size →
      Offset A (BitVec.ofNat 32 offset)

/-- The addresses that an operand names are within an area. -/
def Operand.Within (A : Area) (o : Operand) : Prop := ∀ a, o.address? = some a → A.Names a

/-- An instruction stays within an area. -/
structure Instruction.Within (A : Area) (i : Instruction) : Prop where
  shape : i.HasShape
  destination : ∀ w, i.destination? ≠ some (.immediate w)
  operands : ∀ o ∈ i.dataOperands, o.Within A
  addend : ∀ k, i.addend? A.layout.framePointer = some k → A.Offset k

variable {A : Area}

namespace Operand.Within

theorem immediate (w : Word) : (Operand.immediate w).Within A := nofun

theorem direct {a : Word} (h : A.Names a) : (Operand.direct a).Within A := by
  rintro _ ⟨⟩
  exact h

theorem indirect {a : Word} (h : A.Names a) : (Operand.indirect a).Within A := by
  rintro _ ⟨⟩
  exact h

end Operand.Within

namespace Instruction

/-- Nothing is added to a pointer that is no operand. -/
theorem addend?_eq_none {pointer : Word} {op : Opcode} {a b c : Operand}
    (ha : a ≠ .direct pointer) (hb : b ≠ .direct pointer) :
    (Instruction.binary op a b c).addend? pointer = none := by
  rw [addend?]
  split
  · rename_i heq _
    split
    · subst pointer
      exact absurd (Option.some.inj heq) ha
    · rfl
  · rename_i heq
    split
    · subst pointer
      exact absurd (Option.some.inj heq) hb
    · rfl
  · rfl

namespace Within

variable {a b c : Operand}

theorem binary {op : Opcode} (hop : op.arity = 3) (ha : a.Within A) (hb : b.Within A)
    (hc : c.Within A) (hdst : ∀ w, c ≠ .immediate w)
    (hadd : ∀ k, (Instruction.binary op a b c).addend? A.layout.framePointer = some k →
      A.Offset k) : (Instruction.binary op a b c).Within A := by
  have hdestination : (Instruction.binary op a b c).destination? = some c := by
    cases op <;> first | rfl | cases hop
  have hoperands : (Instruction.binary op a b c).dataOperands = [a, b, c] := by
    cases op <;> first | rfl | cases hop
  refine ⟨?_, ?_, ?_, hadd⟩
  · simp [HasShape, Instruction.binary, hop]
  · intro w
    rw [hdestination]
    exact fun heq => hdst w (Option.some.inj heq)
  · rw [hoperands]
    simp [ha, hb, hc]

/-- A computation without the frame pointer. -/
theorem compute {op : Opcode} (hop : op.arity = 3) (ha : a.Within A) (hb : b.Within A)
    (hc : c.Within A) (hdst : ∀ w, c ≠ .immediate w)
    (hfirst : a ≠ .direct A.layout.framePointer) (hsecond : b ≠ .direct A.layout.framePointer) :
    (Instruction.binary op a b c).Within A := by
  refine .binary hop ha hb hc hdst fun k hk => ?_
  rw [addend?_eq_none hfirst hsecond] at hk
  cases hk

/-- A number added to what a pointer holds. -/
theorem addPointer {pointer offset scratch : Word} (hpointer : A.Names pointer)
    (hscratch : A.Names scratch) (hoffset : pointer = A.layout.framePointer → A.Offset offset) :
    (Instruction.add (.direct pointer) (.immediate offset) (.direct scratch)).Within A := by
  refine .binary rfl (.direct hpointer) (.immediate _) (.direct hscratch) nofun fun k hk => ?_
  simp only [Instruction.binary, Instruction.addend?, Option.ite_none_right_eq_some,
    Option.some.injEq] at hk
  exact hk.2 ▸ hoffset hk.1

theorem assign (ha : a.Within A) (hb : b.Within A) (hdst : ∀ w, b ≠ .immediate w) :
    (Instruction.assign a b).Within A := by
  refine ⟨by simp [HasShape, Instruction.assign, Opcode.arity], ?_, ?_, nofun⟩
  · exact fun w heq => hdst w (Option.some.inj heq)
  · simp [dataOperands, Instruction.assign, ha, hb]

theorem print (ha : a.Within A) : (Instruction.print a).Within A := by
  refine ⟨by simp [HasShape, Instruction.print, Opcode.arity], nofun, ?_, nofun⟩
  simp [dataOperands, Instruction.print, ha]

theorem jump (target : Nat) : (Instruction.jump target).Within A :=
  ⟨by simp [HasShape, Instruction.jump, Opcode.arity], nofun, nofun, nofun⟩

theorem jumpIfFalse (ha : a.Within A) (target : Nat) :
    (Instruction.jumpIfFalse a target).Within A := by
  refine ⟨by simp [HasShape, Instruction.jumpIfFalse, Opcode.arity], nofun, ?_, nofun⟩
  intro o ho
  obtain rfl := List.mem_singleton.mp ho
  exact ha

theorem jumpThrough {c : Word} (hc : A.Names c) :
    (Instruction.jumpThrough (.indirect c)).Within A := by
  refine ⟨by simp [HasShape, Instruction.jumpThrough, Opcode.arity], nofun, ?_, nofun⟩
  intro o ho
  obtain rfl := List.mem_singleton.mp ho
  exact .indirect hc

end Within

end Instruction

/-! ### Uses of symbols -/

/-- An area for which code is made: its layout has no flaws and enough scratch cells, and its
    global variables are in the data. -/
structure Area.Sound (A : Area) : Prop where
  apart : A.layout.Apart
  slots : 3 ≤ A.layout.scratchSlots.toNat
  data : ∀ x ∈ A.globals, A.layout.dataBase.toNat ≤ x.2 ∧ x.2 ≤ declaredLimit

/-- A symbol stands for a function, or for storage within an area. -/
inductive Symbol.Located (A : Area) : Symbol → Prop
  | function {s} : s.isFunction → s.isPlaceholder = false → Located A s
  | global {name d address} : (d, address) ∈ A.globals → Located A (.cell name d.ty address true)
  | array {name d offset} : (d, offset) ∈ A.locals → d.ty = .arrayInt →
      Located A (.cell name .arrayInt offset false)
  | cell {name ty offset} : ty ≠ .arrayInt → ty ≠ .arrayVoid → Record.header ≤ offset →
      offset + Word.size ≤ A.size → Located A (.cell name ty offset false)

/-- What an expression gives: a number, nothing, or something that is located. -/
inductive Symbol.Usable (A : Area) : Symbol → Prop
  | constant (w) : Usable A (.constant w)
  | voidResult (name) : Usable A (.voidResult name)
  | located {s} : s.Located A → Usable A s

/-- The code of a use stays within an area, and its operand can be used there. -/
structure Use.Within (A : Area) (u : Use) : Prop where
  code : ∀ i ∈ u.code, i.Within A
  operand : u.operand.Within A
  pointer : u.operand ≠ .direct A.layout.framePointer

namespace Use.Within

variable {n : Nat}

theorem number (w : Word) : (Use.number w).Within A :=
  ⟨List.forall_mem_nil _, .immediate w, nofun⟩

theorem field (hn : n < A.layout.scratchSlots.toNat) {pointer : Word}
    (hpointer : A.Names pointer) {offset : Word}
    (hoffset : pointer = A.layout.framePointer → offset ≠ 0 → A.Offset offset) :
    (Use.field A.layout n pointer offset).Within A := by
  rw [Use.field]
  split
  · exact ⟨List.forall_mem_nil _, .indirect hpointer, by rintro ⟨⟩⟩
  · rename_i hne
    refine ⟨fun i hi => ?_, .indirect (.scratch hn), by rintro ⟨⟩⟩
    obtain rfl := List.mem_singleton.mp hi
    exact .addPointer hpointer (.scratch hn) fun heq => hoffset heq hne

theorem through {u : Use} (hu : u.Within A) : u.through.Within A := by
  rw [Use.through]
  split
  · rename_i a ha
    have hname : A.Names a := hu.operand a (by rw [ha]; rfl)
    refine ⟨fun i hi => ?_, hu.operand, hu.pointer⟩
    rcases List.mem_append.mp hi with hi | hi
    · exact hu.code i hi
    · obtain rfl := List.mem_singleton.mp hi
      exact .assign (.indirect hname) (.direct hname) (by rintro _ ⟨⟩)
  · rename_i a ha
    exact ⟨hu.code, .indirect (hu.operand a (by rw [ha]; rfl)), by rintro ⟨⟩⟩
  · exact hu

end Use.Within

theorem VarDecl.ty_cases (d : VarDecl) : d.ty = .int ∨ d.ty = .arrayInt := by
  rw [VarDecl.ty]
  split
  · exact .inl rfl
  · exact .inr rfl

namespace Area.Sound

variable (hA : A.Sound) {n : Nat} (hn : n < A.layout.scratchSlots.toNat) {s : Symbol}
include hA

theorem stackPointer_ne : A.layout.stackPointer ≠ A.layout.framePointer :=
  fun heq => hA.apart.pointers (congrArg BitVec.toNat heq.symm)

theorem variable_ne {d : VarDecl} {address : Nat} (h : (d, address) ∈ A.globals) :
    BitVec.ofNat 32 address ≠ A.layout.framePointer := by
  intro heq
  have hdata := hA.data _ h
  have hbelow := hA.apart.framePointer_lt
  have hlimit : declaredLimit < 2147483648 := by decide
  rw [← heq, Word.toNat_ofNat (by omega)] at hbelow
  omega

include hn

theorem scratch_ne : A.layout.scratchCell n ≠ A.layout.framePointer := by
  intro heq
  have hcell := Layout.toNat_scratchCell hA.apart hn
  have houtside := hA.apart.framePointer_scratch
  rw [heq] at hcell
  simp only [Word.size] at hcell houtside
  omega

/-- The cell of a symbol. -/
theorem within_cell (hs : s.Located A) (hfn : s.isFunction = false) (hty : s.ty ≠ .arrayInt) :
    (Use.cell A.layout n s).Within A := by
  cases hs with
  | function h =>
    rw [hfn] at h
    cases h
  | global h =>
    rename_i name d address
    have hd : d.ty = .int := d.ty_cases.resolve_right hty
    exact ⟨List.forall_mem_nil _, .direct (.variable h hd),
      fun heq => hA.variable_ne h (Operand.direct.inj heq)⟩
  | array => exact absurd rfl hty
  | cell _ _ hlo hhi => exact .field hn .framePointer fun _ _ => .cell hlo hhi

/-- The value of what an expression gives. -/
theorem within_value (hs : s.Usable A) : (Use.value A.layout n s).Within A := by
  cases hs with
  | constant w => exact .number w
  | voidResult name => exact .number 0
  | located hs =>
    rw [Use.value, Use.scalar]
    split
    · exact .number 0
    rename_i hscalar
    simp only [Bool.or_eq_true, Bool.not_eq_true', not_or, Bool.not_eq_true,
      Bool.not_eq_false] at hscalar
    have hty : s.ty ≠ .arrayInt := by
      intro hty
      rw [hty] at hscalar
      cases hscalar.2
    split
    · exact .number _
    split
    · exact .through (hA.within_cell hn hs hscalar.1 hty)
    · exact hA.within_cell hn hs hscalar.1 hty

/-- An array as a whole. -/
theorem within_reference (hs : s.Usable A) : (Use.reference A.layout n s).Within A := by
  cases hs with
  | constant w => exact .number 0
  | voidResult name => exact .number 0
  | located hs =>
    rw [Use.reference]
    split
    · exact .number 0
    rename_i href
    simp only [Bool.or_eq_true, Bool.not_eq_true', not_or, Bool.not_eq_true,
      Bool.not_eq_false] at href
    cases hs with
    | function h =>
      rw [href.1] at h
      cases h
    | global h =>
      rename_i name d address
      rcases d.ty_cases with hd | hd
      · rw [Symbol.cell, hd] at href
        cases href.2
      · rw [hd]
        exact .number _
    | array h hd =>
      refine ⟨fun i hi => ?_, .direct (.scratch hn), ?_⟩
      · obtain rfl := List.mem_singleton.mp hi
        exact .addPointer .framePointer (.scratch hn) fun _ => .array h hd
      · exact fun heq => hA.scratch_ne hn (Operand.direct.inj heq)
    | cell hint hvoid hlo hhi =>
      rename_i name ty offset
      have hcell := hA.within_cell hn (s := .cell name ty offset false) (.cell hint hvoid hlo hhi)
        rfl hint
      rw [Use.base]
      split
      · exact absurd (by assumption) hint
      · exact absurd (by assumption) hvoid
      · exact hcell

theorem within_argument (hs : s.Usable A) (parameter : Ty) :
    (Use.argument A.layout n parameter s).Within A := by
  rw [Use.argument]
  split
  · exact hA.within_reference hn hs
  · exact hA.within_value hn hs

end Area.Sound

/-- A scalar that is no constant has a cell. -/
theorem Use.value_ne_immediate {l : Layout} {n : Nat} {s : Symbol} (hfn : s.isFunction = false)
    (hty : s.ty.isScalar) (hconstant : s.isConstant = false) (w : Word) :
    (Use.value l n s).operand ≠ .immediate w := by
  have hcell := Gen.cell_operand_ne_immediate (n := n) l s
  rw [Use.value, hfn, hty, Use.scalar, hconstant, if_neg (by decide), if_neg (by decide)]
  split
  · rw [Use.through]
    split
    · exact hcell w
    · rintro ⟨⟩
    · exact hcell w
  · exact hcell w

end OnePass
