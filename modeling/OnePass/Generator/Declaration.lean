import OnePass.Generator.Address

/-!
# Declarations

Variables and parameters get storage, and functions a prologue and an epilogue around their code.
The calling convention, with offsets from the stack pointer at the call:

    caller   writes argument `i` to `16 + 4 * i` and the return address to `4`, and jumps
    callee   saves the stack pointer at `8` and the frame pointer at `12`, makes the stack pointer
             the frame pointer, and moves the stack pointer past the frame
    return   restores both pointers and jumps to the return address

The size of a frame is known only when the body ends; the slot that moves the stack pointer waits
until then. -/

namespace OnePass.Gen

/-- The type that a keyword names. -/
def pushType (token : Token) : Gen Unit := do
  match Ty.ofKeyword? token.lexeme with
  | some ty => push (.type ty)
  | none => throw (.notTypeKeyword token.lexeme)

/-- Only a function has no value: anything else declared so is reported and taken for an
    integer. -/
def checkNotVoid (ty : Ty) (name : String) (line : Nat) : Gen Ty := do
  if ty = .void then
    report line (.illegalVoid name)
    return .int
  return ty

/-- Declares storage. A name whose storage does not fit stands for a placeholder, so that its uses
    are not reported too. -/
def declareStorage (name : String) (ty : Ty) (words line : Nat) : Gen Unit := do
  match ← request (.declare name ty words) with
  | .ok _ => return
  | .error (.tooLarge name') =>
    reportRejected line (.tooLarge name')
    demand (.declarePlaceholder name)
  | .error e => reportRejected line e

/-- Declares a variable of the name and type on the stack. -/
def declareVariable (token : Token) : Gen Unit := do
  let name ← popName
  let ty ← checkNotVoid (← popType) name token.line
  declareStorage name ty 1 token.line

/-- Declares an array of the size, name and type on the stack. -/
def declareArray (token : Token) : Gen Unit := do
  let size ← popSymbol
  let name ← popName
  let element ← checkNotVoid (← popType) name token.line
  declareStorage name element.arrayOf size.value.toInt.toNat token.line

/-- Adds a parameter of the name and type on the stack. -/
def addParameter (token : Token) (byReference : Bool) : Gen Unit := do
  let name ← popName
  let element ← checkNotVoid (← popType) name token.line
  let ty := if byReference then element.pointerTo else element
  match ← request (.addParameter name ty) with
  | .ok _ => return
  | .error e => reportRejected token.line e

/-! ### Functions -/

/-- Opens a function of the name and type on the stack, whose code starts here. -/
def declareFunction (token : Token) : Gen Unit := do
  let name ← popName
  let ty ← popType
  if (← get).body.isSome then throw (.functionInside name)
  let entry ← pc
  match ← request (.openFunction name ty entry) with
  | .ok _ => pure ()
  | .error e => reportRejected token.line e
  log (.functionDeclared ty name entry)
  modify fun g => { g with body := some { name } }

/-- The prologue: saves both pointers and sets the frame pointer. -/
def beginFunction : Gen Unit := do
  if (← get).body.isNone then throw .noDeclaredFunction
  let { stackPointer := sp, framePointer := fp, .. } := (← get).layout
  let savedStack ← headerOperand sp Record.savedStack
  emit (.assign (.direct sp) savedStack)
  let savedFrame ← headerOperand sp Record.savedFrame
  emit (.assign (.direct fp) savedFrame)
  emit (.assign (.direct sp) (.direct fp))
  let hole ← reserve
  modify fun g => { g with body := g.body.map ({ · with prologue := some hole }) }

/-- The epilogue: restores both pointers and jumps to the return address. -/
def emitEpilogue : Gen Unit := do
  let { stackPointer := sp, framePointer := fp, .. } := (← get).layout
  let savedStack ← headerOperand fp Record.savedStack
  emit (.assign savedStack (.direct sp))
  let savedFrame ← headerOperand fp Record.savedFrame
  emit (.assign savedFrame (.direct fp))
  let scratch ← takeScratch
  emit (.add (.direct sp) (.immediate (BitVec.ofNat 32 Record.returnAddress)) (.direct scratch))
  emit (.assign (.indirect scratch) (.direct scratch))
  emit (.jumpThrough (.indirect scratch))

/-- Closes the function at hand: the slot of the prologue and the returns are filled, and the
    epilogue follows. -/
def endFunction : Gen Unit := do
  match (← get).body with
  | none => throw .endOutside
  | some body =>
    modify fun g => { g with body := none }
    let closed ← demand .closeFunction
    match body.prologue with
    | none => throw (.noPrologue body.name)
    | some prologue =>
      let sp := (← get).layout.stackPointer
      let size := BitVec.ofNat 32 closed.record.size
      fill prologue (.add (.direct sp) (.immediate size) (.direct sp))
      let epilogue ← pc
      body.returns.forM fun hole => fill hole (.jump epilogue)
      emitEpilogue
      log (.frameClosed closed.frame)
      modify fun g => { g with frames := g.frames.push closed.frame }

/-! ### Programs -/

/-- Reserves the jump to the code that starts the program. -/
def beginProgram : Gen Unit := do
  if (← get).start.isSome then throw .beginTwice
  let hole ← reserve
  modify fun g => { g with start := some hole }

/-- The function that a program starts with: it has no parameters and no result. -/
def isMain (s : Symbol) : Bool :=
  s.isFunction && 0 ≤ s.value.toInt && s.ty == .void && s.args == some []

/-- The code that starts the program: both pointers start right after the global data, and the
    main function returns to the end of the code, where the machine halts. -/
def emitStart (entry : Word) : Gen Unit := do
  let { stackPointer := sp, framePointer := fp, .. } := (← get).layout
  let base : Operand := .immediate (BitVec.ofNat 32 (← get).symbols.dataEnd)
  emit (.assign base (.direct sp))
  emit (.assign base (.direct fp))
  let place ← headerOperand sp Record.returnAddress
  let returnPc := (← pc) + 2
  emit (.assign (.immediate (BitVec.ofNat 32 returnPc)) place)
  emit (.jump entry.toNat)

/-- Ends the program. -/
def endProgram (token : Token) : Gen Unit := do
  match (← get).symbols.functionName? with
  | some name => throw (.endWhileOpen name)
  | none => pure ()
  match (← get).start with
  | none => throw .endWithoutBegin
  | some start =>
    modify fun g => { g with start := none }
    let stub ← pc
    match ((← get).symbols.find? "main").filter isMain with
    | some main => emitStart main.value
    | none => report token.line .noMain
    fill start (.jump stub)
    let g ← get
    log (.generated g.code.pc g.diagnostics.size g.symbols.dataEnd)

end OnePass.Gen
