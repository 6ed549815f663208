import OnePass.Generator.Address

/-!
# Expressions

Operands come on the stack as symbols and literals, and an action that combines some of them leaves
its result there. An operand that does not fit is reported once: a placeholder takes the place of
the result, and later actions accept it. -/

namespace OnePass.Gen

/-- A name used as an operand. -/
def pushIdentifier (token : Token) : Gen Unit := do
  match (← get).symbols.find? token.lexeme with
  | some s => pushSymbol s
  | none =>
    report token.line (.notDefined token.lexeme)
    pushSymbol (.placeholder token.lexeme)

/-- An integer literal; one that fits no word counts as zero. -/
def pushNumber (token : Token) : Gen Unit := do
  match Word.ofNumeral? token.lexeme with
  | some value => push (.literal value)
  | none =>
    report token.line (.literalRange token.lexeme)
    push (.literal 0)

/-- A binary operator. -/
def pushOperator (token : Token) : Gen Unit := do
  match BinaryOp.ofLexeme? token.lexeme with
  | some op => push (.operator op)
  | none => throw (.notBinaryOperator token.lexeme)

/-- The two operands and the operator on the stack, combined into a temporary. -/
def computeBinary (token : Token) : Gen Unit := do
  let rhs ← popSymbol
  let op ← popOperator
  let lhs ← popSymbol
  if !(← checkInts [lhs, rhs] token.line) then
    pushSymbol (.placeholder "")
    return
  let result ← demand (.newTemporary false)
  let a ← valueOperand lhs
  let b ← valueOperand rhs
  let dst ← valueOperand result
  emit (op.instruction a b dst)
  pushSymbol result

/-- Assigns the top of the stack to the place below it, and leaves the assigned operand. -/
def assign (token : Token) : Gen Unit := do
  let src ← popSymbol
  let dst ← popSymbol
  if !(← checkInts [dst, src] token.line) then
    pushSymbol (.placeholder "")
    return
  let value ← valueOperand src
  let place ← valueOperand dst
  emit (.assign value place)
  pushSymbol src

/-- The element of an array at an index: a temporary that holds its address. -/
def indexArray (token : Token) : Gen Unit := do
  let index ← popSymbol
  let array ← popSymbol
  if array.isPlaceholder then
    pushSymbol (.placeholder array.name)
    return
  if array.isFunction || !array.ty.isReference then
    report token.line (.notArray array.name)
    pushSymbol (.placeholder array.name)
    return
  if !(← checkInts [index] token.line) then
    pushSymbol (.placeholder array.name)
    return
  let element ← demand (.newTemporary true)
  let offset ← valueOperand index
  let cell ← cellOperand element
  emit (.mul offset (.immediate (BitVec.ofNat 32 Word.size)) cell)
  match ← resolveReference array with
  | none => throw .arrayBaseUnresolved
  | some base =>
    emit (.add cell base.operand cell)
    pushSymbol element

/-! ### Calls -/

/-- Counts one more argument of the innermost call. -/
def incrementArgCount : Gen Unit := do
  match (← get).argCounts with
  | [] => throw .incrementWithoutCount
  | count :: rest => modify fun g => { g with argCounts := (count + 1) :: rest }

/-- Takes the number of arguments of the innermost call. -/
def popArgCount : Gen Nat := do
  match (← get).argCounts with
  | [] => throw .callWithoutCount
  | count :: rest =>
    modify fun g => { g with argCounts := rest }
    return count

/-- What diagnostics say a parameter expects. -/
def expectedCategory (parameter : Ty) : Category :=
  if parameter.isReference then .array else .int

/-- The first mistake in the arguments of a call: their number, or else the first that does not
    fit its parameter. -/
def argumentMistake? (callee : Symbol) (args : List Symbol) : Option Diagnostic.Cause :=
  let params := callee.args.getD []
  if params.length ≠ args.length then some (.argumentCount callee.name)
  else
    let bad := (params.zip args).zipIdx.find? fun ((parameter, arg), _) =>
      !arg.matchesParameter parameter
    bad.map fun ((parameter, arg), index) =>
      .argumentType (index + 1) callee.name (expectedCategory parameter) arg.category

/-- Writes an argument to its place in the record of the callee. -/
def passArgument (parameter : Ty) (arg : Symbol) (index : Nat) : Gen Unit := do
  clearScratch
  let value ←
    if parameter.isReference && !arg.isPlaceholder then
      pure (operandOrZero (← resolveReference arg))
    else valueOperand arg
  let place ← headerOperand (← get).layout.stackPointer (Record.header + Word.size * index)
  emit (.assign value place)

/-- Stores the position after the coming jump as the return address, and jumps. Gives that
    position. -/
def jumpToCallee (entry : Word) : Gen Nat := do
  let place ← headerOperand (← get).layout.stackPointer Record.returnAddress
  let returnPc := (← pc) + 2
  emit (.assign (.immediate (BitVec.ofNat 32 returnPc)) place)
  emit (.jump entry.toNat)
  return returnPc

/-- Calls a function of the program: passes the arguments, jumps, and copies the result into a
    temporary. -/
def callFunction (callee : Symbol) (args : List Symbol) : Gen Unit := do
  let params := callee.args.getD []
  (params.zip args).zipIdx.forM fun ((parameter, arg), index) => passArgument parameter arg index
  clearScratch
  let returnPc ← jumpToCallee callee.value
  log (.called callee.name args.length returnPc)
  if callee.ty = .void then
    pushSymbol (.voidResult callee.name)
    return
  clearScratch
  let result ← demand (.newTemporary false)
  let dst ← valueOperand result
  emit (.assign (.indirect (← get).layout.stackPointer) dst)
  pushSymbol result

/-- Prints the one argument of the built-in function. -/
def callOutput (callee : Symbol) (args : List Symbol) : Gen Unit := do
  let value ← match args with
    | arg :: _ => valueOperand arg
    | [] => pure (.immediate 0)
  emit (.print value)
  pushSymbol (.voidResult callee.name)

/-- Calls what is on the stack below the arguments. The function is found again by its entry, which
    brings the parameters it has by now. -/
def call (token : Token) : Gen Unit := do
  let args ← popSymbols (← popArgCount)
  let target ← popSymbol
  if target.isPlaceholder then
    pushSymbol (.placeholder target.name)
    return
  if !target.isFunction then
    report token.line (.notFunction target.name)
    pushSymbol (.placeholder target.name)
    return
  let callee := ((← get).symbols.functionAt? target.value).getD target
  match argumentMistake? callee args with
  | some cause =>
    report token.line cause
    pushSymbol (.placeholder callee.name)
  | none => if callee.name = outputName then callOutput callee args else callFunction callee args

end OnePass.Gen
