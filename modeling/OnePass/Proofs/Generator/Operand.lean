import OnePass.Proofs.Code.Store
import OnePass.Proofs.Generator.Run

/-!
# Operands of symbols

`Use` is what the use of a symbol comes to: an operand, with the instructions that go before it and
the scratch cells they take. It depends on nothing but the layout, the symbol and how many cells are
taken, and no use takes more than one. -/

namespace OnePass

/-! ### Uses -/

/-- A scratch cell, counted from zero. -/
def Layout.scratchCell (l : Layout) (n : Nat) : Word :=
  l.scratchBase + BitVec.ofNat 32 (Word.size * n)

/-- An operand, with the instructions before it and the scratch cells they take. -/
structure Use where
  operand : Operand
  code : List Instruction := []
  cells : Nat := 0
  deriving DecidableEq, Repr

namespace Use

/-- The use of the cell `offset` bytes beyond the address that `pointer` holds. -/
def field (l : Layout) (n : Nat) (pointer offset : Word) : Use :=
  if offset = 0 then { operand := .indirect pointer }
  else
    { operand := .indirect (l.scratchCell n)
      code := [.add (.direct pointer) (.immediate offset) (.direct (l.scratchCell n))]
      cells := 1 }

/-- The use of the cell of a symbol. -/
def cell (l : Layout) (n : Nat) (s : Symbol) : Use :=
  if s.isGlobal then { operand := .direct s.value } else field l n l.framePointer s.value

/-- The use of the value that a cell holds the address of. -/
def through (u : Use) : Use :=
  match u.operand with
  | .indirect scratch =>
    { u with code := u.code ++ [.assign (.indirect scratch) (.direct scratch)] }
  | .direct address => { u with operand := .indirect address }
  | .immediate _ => u

/-- The use of a number. -/
def number (value : Word) : Use := { operand := .immediate value }

/-- The use of the value of a scalar. -/
def scalar (l : Layout) (n : Nat) (s : Symbol) : Use :=
  if s.isConstant then number s.value
  else if s.ty = .indexed then (cell l n s).through
  else cell l n s

/-- The use of the value of a symbol; one without value counts as zero. -/
def value (l : Layout) (n : Nat) (s : Symbol) : Use :=
  if s.isFunction || !s.ty.isScalar then number 0 else scalar l n s

/-- The use of the address of an array. -/
def base (l : Layout) (n : Nat) (s : Symbol) : Use :=
  match s.ty with
  | .arrayInt | .arrayVoid =>
    if s.isGlobal then number s.value
    else
      { operand := .direct (l.scratchCell n)
        code := [.add (.direct l.framePointer) (.immediate s.value) (.direct (l.scratchCell n))]
        cells := 1 }
  | _ => cell l n s

/-- The use of a symbol as an array; one that is none counts as zero. -/
def reference (l : Layout) (n : Nat) (s : Symbol) : Use :=
  if s.isFunction || !s.ty.isReference then number 0 else base l n s

/-- The use of an argument for a parameter of a type. -/
def argument (l : Layout) (n : Nat) (parameter : Ty) (arg : Symbol) : Use :=
  if parameter.isReference && !arg.isPlaceholder then reference l n arg else value l n arg

theorem field_cells_le (l : Layout) (n : Nat) (pointer offset : Word) :
    (field l n pointer offset).cells ≤ 1 := by
  rw [field]
  split <;> simp

theorem cell_cells_le (l : Layout) (n : Nat) (s : Symbol) : (cell l n s).cells ≤ 1 := by
  rw [cell]
  split
  · exact Nat.zero_le 1
  · exact field_cells_le ..

theorem through_cells (u : Use) : u.through.cells = u.cells := by
  rw [through]
  split <;> rfl

theorem value_cells_le (l : Layout) (n : Nat) (s : Symbol) : (value l n s).cells ≤ 1 := by
  rw [value, scalar]
  split
  · exact Nat.zero_le 1
  split
  · exact Nat.zero_le 1
  split
  · rw [through_cells]
    exact cell_cells_le ..
  · exact cell_cells_le ..

theorem reference_cells_le (l : Layout) (n : Nat) (s : Symbol) : (reference l n s).cells ≤ 1 := by
  rw [reference]
  split
  · exact Nat.zero_le 1
  rw [base]
  split
  · split <;> simp [number]
  · split <;> simp [number]
  · exact cell_cells_le ..

theorem argument_cells_le (l : Layout) (n : Nat) (parameter : Ty) (arg : Symbol) :
    (argument l n parameter arg).cells ≤ 1 := by
  rw [argument]
  split
  · exact reference_cells_le ..
  · exact value_cells_le ..

end Use

/-- The state after the instructions of a use. -/
def Generator.resolved (g : Generator) (u : Use) : Generator :=
  g.withCode (g.code.append u.code)

namespace Gen

variable {g : Generator} {n : Nat}

theorem does_fieldOperand (pointer offset : Word) (h : n < g.layout.scratchSlots.toNat) :
    Does (fieldOperand pointer offset) g n (Use.field g.layout n pointer offset).operand
      (g.resolved (Use.field g.layout n pointer offset))
      (n + (Use.field g.layout n pointer offset).cells) := by
  rw [fieldOperand, Use.field]
  split
  · exact .pure
  · exact (does_takeScratch h).bind ((does_emit _).bind .pure)

theorem does_cellOperand (s : Symbol) (h : n < g.layout.scratchSlots.toNat) :
    Does (cellOperand s) g n (Use.cell g.layout n s).operand (g.resolved (Use.cell g.layout n s))
      (n + (Use.cell g.layout n s).cells) := by
  rw [cellOperand, Use.cell]
  split
  · exact .pure
  · exact .get fun _ => does_fieldOperand _ _ h

/-- The cell of a symbol is never a number. -/
theorem cell_operand_ne_immediate (l : Layout) (s : Symbol) (value : Word) :
    (Use.cell l n s).operand ≠ .immediate value := by
  rw [Use.cell]
  split
  · simp
  · rw [Use.field]
    split <;> simp

theorem does_throughCell {u : Use} (h : ∀ value, u.operand ≠ .immediate value) :
    Does (throughCell u.operand) (g.resolved u) n u.through.operand (g.resolved u.through) n := by
  rw [Use.through]
  split
  · rename_i scratch hu
    rw [hu]
    refine (does_emit _).bind ?_
    rw [show (g.resolved u).code.emit (.assign (.indirect scratch) (.direct scratch)) =
      g.code.append (u.code ++ [.assign (.indirect scratch) (.direct scratch)]) from
        Store.emit_append ..]
    exact .pure
  · rename_i address hu
    rw [hu]
    exact .pure
  · rename_i value hu
    exact absurd hu (h value)

theorem does_scalarOperand (s : Symbol) (h : n < g.layout.scratchSlots.toNat) :
    Does (scalarOperand s) g n (Use.scalar g.layout n s).operand
      (g.resolved (Use.scalar g.layout n s)) (n + (Use.scalar g.layout n s).cells) := by
  rw [scalarOperand, Use.scalar]
  split
  · exact .pure
  refine (does_cellOperand s h).bind ?_
  split
  · rw [Use.through_cells]
    exact does_throughCell (cell_operand_ne_immediate _ s)
  · exact .pure

/-- The value of a symbol is used as `Use.value` says. -/
theorem does_resolveOperand (s : Symbol) (hs : (s.isFunction || !s.ty.isScalar) = false)
    (h : n < g.layout.scratchSlots.toNat) :
    Does (resolveOperand s) g n
      (some ⟨(Use.value g.layout n s).operand, (Use.value g.layout n s).code.length⟩)
      (g.resolved (Use.value g.layout n s)) (n + (Use.value g.layout n s).cells) := by
  have hcount : (Use.value g.layout n s).code.length =
      (g.resolved (Use.value g.layout n s)).code.pc - g.code.pc := by
    rw [Generator.resolved, Generator.withCode, Store.pc_append, Nat.add_sub_cancel_left]
  rw [hcount, resolveOperand, Use.value, hs]
  exact does_pc.bind ((does_scalarOperand s h).bind (does_pc.bind ((does_log _).bind .pure)))

/-- The value of a symbol is used as `Use.value` says, also where it has none. -/
theorem does_valueOperand (s : Symbol) (h : n < g.layout.scratchSlots.toNat) :
    Does (valueOperand s) g n (Use.value g.layout n s).operand
      (g.resolved (Use.value g.layout n s)) (n + (Use.value g.layout n s).cells) := by
  cases hs : s.isFunction || !s.ty.isScalar with
  | false => exact (does_resolveOperand s hs h).bind .pure
  | true =>
    rw [valueOperand, resolveOperand, Use.value, hs]
    exact .pure

theorem does_baseOperand (s : Symbol) (h : n < g.layout.scratchSlots.toNat) :
    Does (baseOperand s) g n (Use.base g.layout n s).operand
      (g.resolved (Use.base g.layout n s)) (n + (Use.base g.layout n s).cells) := by
  rw [baseOperand, Use.base]
  cases s.ty with
  | arrayInt | arrayVoid =>
    dsimp only
    split
    · exact .pure
    · exact (does_takeScratch h).bind (.get fun _ => (does_emit _).bind .pure)
  | _ => exact does_cellOperand s h

/-- The base of an array is used as `Use.reference` says. -/
theorem does_resolveReference (s : Symbol) (hs : (s.isFunction || !s.ty.isReference) = false)
    (h : n < g.layout.scratchSlots.toNat) :
    Does (resolveReference s) g n
      (some ⟨(Use.reference g.layout n s).operand,
        (g.resolved (Use.reference g.layout n s)).code.pc - g.code.pc⟩)
      (g.resolved (Use.reference g.layout n s)) (n + (Use.reference g.layout n s).cells) := by
  rw [resolveReference, Use.reference, hs]
  exact does_pc.bind ((does_baseOperand s h).bind (does_pc.bind ((does_log _).bind .pure)))

/-- The base of a symbol is used as `Use.reference` says, also where it has none. -/
theorem does_referenceOrZero (s : Symbol) (h : n < g.layout.scratchSlots.toNat) :
    Does (do return operandOrZero (← resolveReference s)) g n
      (Use.reference g.layout n s).operand (g.resolved (Use.reference g.layout n s))
      (n + (Use.reference g.layout n s).cells) := by
  cases hs : s.isFunction || !s.ty.isReference with
  | false => exact (does_resolveReference s hs h).bind .pure
  | true =>
    rw [resolveReference, Use.reference, hs]
    exact .pure

end Gen

end OnePass
