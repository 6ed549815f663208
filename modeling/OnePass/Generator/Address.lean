import OnePass.Generator.State

/-!
# Operands of symbols

A symbol becomes an operand of an instruction where it is used. A constant is the number itself and
a global its cell. Anything in a frame is reached through a scratch cell, into which its address is
computed first, so that a use may come with instructions of its own. -/

namespace OnePass.Gen

/-- The cell `offset` bytes beyond the address that `pointer` holds. -/
def fieldOperand (pointer offset : Word) : Gen Operand := do
  if offset = 0 then return .indirect pointer
  let scratch ← takeScratch
  emit (.add (.direct pointer) (.immediate offset) (.direct scratch))
  return .indirect scratch

/-- A cell of the convention's header, in the record that `pointer` points to. -/
def headerOperand (pointer : Word) (offset : Nat) : Gen Operand :=
  fieldOperand pointer (BitVec.ofNat 32 offset)

/-- The cell of a symbol. -/
def cellOperand (s : Symbol) : Gen Operand := do
  if s.isGlobal then return .direct s.value
  fieldOperand (← get).layout.framePointer s.value

/-- An operand, and the number of instructions it came with. -/
structure Resolved where
  operand : Operand
  emitted : Nat
  deriving DecidableEq, Repr

/-- The value that a cell holds the address of. An address in a scratch cell is first replaced by
    the address it leads to. -/
def throughCell : Operand → Gen Operand
  | .indirect scratch => do
    emit (.assign (.indirect scratch) (.direct scratch))
    return .indirect scratch
  | .direct address => return .indirect address
  | .immediate _ => throw .indexedWithoutStorage

/-- The operand for the value of a scalar. -/
def scalarOperand (s : Symbol) : Gen Operand := do
  if s.isConstant then return .immediate s.value
  let cell ← cellOperand s
  if s.ty = .indexed then throughCell cell else return cell

/-- The operand for the address of the first element of an array. A parameter holds it; that of an
    array in the frame is computed. -/
def baseOperand (s : Symbol) : Gen Operand := do
  match s.ty with
  | .arrayInt | .arrayVoid =>
    if s.isGlobal then return .immediate s.value
    let scratch ← takeScratch
    emit (.add (.direct (← get).layout.framePointer) (.immediate s.value) (.direct scratch))
    return .direct scratch
  | _ => cellOperand s

/-- The operand for the value of a symbol, if it is a scalar. -/
def resolveOperand (s : Symbol) : Gen (Option Resolved) := do
  if s.isFunction || !s.ty.isScalar then return none
  let before ← pc
  let operand ← scalarOperand s
  let resolved : Resolved := ⟨operand, (← pc) - before⟩
  log (.resolved s resolved.operand resolved.emitted)
  return some resolved

/-- The operand for the base of a symbol, if it is an array or refers to one. -/
def resolveReference (s : Symbol) : Gen (Option Resolved) := do
  if s.isFunction || !s.ty.isReference then return none
  let before ← pc
  let operand ← baseOperand s
  let resolved : Resolved := ⟨operand, (← pc) - before⟩
  log (.referenceResolved s resolved.operand resolved.emitted)
  return some resolved

/-- The operand of a resolved symbol, or zero for one that has none. -/
def operandOrZero : Option Resolved → Operand
  | some resolved => resolved.operand
  | none => .immediate 0

/-- The operand for the value of a symbol, or zero if it has none. -/
def valueOperand (s : Symbol) : Gen Operand := return operandOrZero (← resolveOperand s)

end OnePass.Gen
