import OnePass.Generator.Address

/-!
# Statements

A jump forward is a slot that is filled when its target comes up. The operand of a condition is
resolved where its slot is reserved, so that instructions it comes with stand right before the
jump. -/

namespace OnePass.Gen

/-- The operand of the condition on the stack; zero if it is not an integer. -/
def conditionOperand (token : Token) : Gen Operand := do
  let cond ← popSymbol
  if !(← checkInts [cond] token.line) then return .immediate 0
  valueOperand cond

/-- Reserves the jump past the first branch. -/
def reserveBranch (token : Token) : Gen Unit := do
  let cond ← conditionOperand token
  let hole ← reserve
  log (.branchReserved hole.pc cond)
  push (.branch hole cond)

/-- Ends the first branch: reserves the jump past the second, which starts here. -/
def startElse : Gen Unit := do
  let (hole, cond) ← popBranch
  let skip ← reserve
  fill hole (.jumpIfFalse cond (← pc))
  push (.slot skip)

/-- Ends the second branch. -/
def endElse : Gen Unit := do
  let hole ← popSlot
  fill hole (.jump (← pc))

/-- Ends a branch that has no second one. -/
def endBranch : Gen Unit := do
  let (hole, cond) ← popBranch
  fill hole (.jumpIfFalse cond (← pc))

/-- Notes where a loop starts. -/
def startLoop : Gen Unit := do push (.label (← pc))

/-- Jumps back to the start of a loop unless its condition holds. -/
def repeatLoop (token : Token) : Gen Unit := do
  let cond ← conditionOperand token
  let start ← popLabel
  emit (.jumpIfFalse cond start)

/-- Opens the breaks of a loop. -/
def openBreaks : Gen Unit := modify fun g => { g with breaks := [] :: g.breaks }

/-- A jump out of the innermost loop. -/
def registerBreak (token : Token) : Gen Unit := do
  match (← get).breaks with
  | [] => report token.line .breakOutsideLoop
  | holes :: rest =>
    let hole ← reserve
    modify fun g => { g with breaks := (holes ++ [hole]) :: rest }

/-- Ends a loop: its breaks jump here. -/
def closeBreaks : Gen Unit := do
  match (← get).breaks with
  | [] => throw .closeWithoutBreakScope
  | holes :: rest =>
    modify fun g => { g with breaks := rest }
    let here ← pc
    log (.breaksClosed holes.length here)
    holes.forM fun hole => fill hole (.jump here)

/-- Stores the value of a return in the record of the function. -/
def storeReturnValue (token : Token) : Gen Unit := do
  let value ← popSymbol
  if !(← checkInts [value] token.line) then return
  let source ← valueOperand value
  let place ← headerOperand (← get).layout.framePointer Record.returnValue
  emit (.assign source place)

/-- A jump to the epilogue of the function. -/
def markReturn : Gen Unit := do
  match (← get).body with
  | none => throw .returnOutside
  | some body =>
    let hole ← reserve
    modify fun g => { g with body := some { body with returns := body.returns ++ [hole] } }

end OnePass.Gen
