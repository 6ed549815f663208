import OnePass.Layout.Scratch
import OnePass.Symbol.Request

/-!
# The state of code generation

Compiling a program performs actions one after the other on a `Generator`. Operations in `Gen`
keep the changes made before a fault. -/

namespace OnePass

/-- What is known of the function whose body is being compiled. -/
structure Body where
  name : String
  /-- The slot that moves the stack pointer past the frame, once its size is known. -/
  prologue : Option Hole := none
  /-- The slots of returns, in order; all jump to the epilogue. -/
  returns : List Hole := []
  deriving DecidableEq, Repr

/-- The state of a compilation. -/
structure Generator where
  layout : Layout
  symbols : SymbolTable
  scratch : ScratchPool
  code : Store := {}
  /-- The operand stack, its top first. -/
  stack : List StackValue := []
  /-- Numbers of arguments of the calls being read, innermost first. -/
  argCounts : List Nat := []
  /-- Slots of breaks of the loops being read, innermost first. -/
  breaks : List (List Hole) := []
  body : Option Body := none
  /-- The slot of the jump that starts the program. -/
  start : Option Hole := none
  frames : Array Frame := #[]
  diagnostics : Array Diagnostic := #[]
  trace : Array Event := #[]
  deriving Repr

/-- The state before a program. -/
def Generator.initial (layout : Layout) : Generator :=
  { layout
    symbols := .initial layout.dataBase
    scratch := .ofLayout layout
    trace := #[.builtinRegistered outputName] }

/-- An operation of the generator; changes made before a fault stay. -/
abbrev Gen := EStateM Fault Generator

namespace Gen

/-- Adds an event to the trace. -/
def log (e : Event) : Gen Unit := modify fun g => { g with trace := g.trace.push e }

/-- Raises a fault. -/
def orFault {α : Type} : Except Fault α → Gen α
  | .ok a => pure a
  | .error fault => throw fault

/-! ### Code -/

/-- The position of the next instruction. -/
def pc : Gen Nat := return (← get).code.pc

/-- Appends an instruction. -/
def emit (i : Instruction) : Gen Unit := do
  log (.emitted (← pc) i)
  modify fun g => { g with code := g.code.emit i }

/-- Appends a slot to be filled later. -/
def reserve : Gen Hole := do
  let (hole, code) := (← get).code.reserve
  modify fun g => { g with code }
  log (.reserved hole.pc)
  return hole

/-- Fills a slot. -/
def fill (hole : Hole) (i : Instruction) : Gen Unit := do
  let code ← orFault ((← get).code.fill hole i)
  log (.filled hole.pc i)
  modify fun g => { g with code }

/-- Takes a scratch cell. -/
def takeScratch : Gen Word := do
  let (cell, scratch) ← orFault (← get).scratch.take
  modify fun g => { g with scratch }
  return cell

/-- Gives all scratch cells back. -/
def clearScratch : Gen Unit := modify fun g => { g with scratch := g.scratch.clear }

/-! ### The operand stack -/

/-- Puts a value on the stack. -/
def push (value : StackValue) : Gen Unit := do
  log (.pushed value)
  modify fun g => { g with stack := value :: g.stack }

/-- Puts a symbol on the stack. -/
def pushSymbol (s : Symbol) : Gen Unit := push (.symbol s)

/-- Takes the top of the stack. -/
def pop : Gen StackValue := do
  match (← get).stack with
  | [] => throw .stackUnderflow
  | value :: stack =>
    modify fun g => { g with stack }
    return value

/-- Takes an operand off the stack; a literal is a constant. -/
def popSymbol : Gen Symbol := do
  match ← pop with
  | .symbol s => return s
  | .literal value => return .constant value
  | other => throw (.unexpectedValue .symbol other.kind)

/-- Takes a name off the stack. -/
def popName : Gen String := do
  match ← pop with
  | .name name => return name
  | other => throw (.unexpectedValue .name other.kind)

/-- Takes a type off the stack. -/
def popType : Gen Ty := do
  match ← pop with
  | .type ty => return ty
  | other => throw (.unexpectedValue .type other.kind)

/-- Takes an operator off the stack. -/
def popOperator : Gen BinaryOp := do
  match ← pop with
  | .operator op => return op
  | other => throw (.unexpectedValue .operator other.kind)

/-- Takes a position off the stack. -/
def popLabel : Gen Nat := do
  match ← pop with
  | .label pc => return pc
  | other => throw (.unexpectedValue .label other.kind)

/-- Takes the slot of a jump off the stack. -/
def popSlot : Gen Hole := do
  match ← pop with
  | .slot hole => return hole
  | other => throw (.unexpectedValue .slot other.kind)

/-- Takes the slot and the condition of a jump off the stack. -/
def popBranch : Gen (Hole × Operand) := do
  match ← pop with
  | .branch hole cond => return (hole, cond)
  | other => throw (.unexpectedValue .branch other.kind)

/-- Takes `count` operands off the stack, in the order in which they were put there. -/
def popSymbols : (count : Nat) → Gen (List Symbol)
  | 0 => return []
  | count + 1 => do
    let last ← popSymbol
    return (← popSymbols count) ++ [last]

/-! ### The symbol table -/

/-- Makes a request that the program may be to blame for. -/
def request {α : Type} (r : Request SymbolError α) : Gen (Except SymbolError α) := do
  let (outcome, symbols, events) := r.run (← get).symbols
  modify fun g => { g with symbols, trace := g.trace ++ events }
  return outcome

/-- Makes a request that only a fault can stop. -/
def demand {α : Type} (r : Request Fault α) : Gen α := do
  let (outcome, symbols, events) := r.run (← get).symbols
  modify fun g => { g with symbols, trace := g.trace ++ events }
  orFault outcome

/-! ### Diagnostics -/

/-- Records a mistake in the program. -/
def report (line : Nat) (cause : Diagnostic.Cause) : Gen Unit := do
  let diagnostic : Diagnostic := ⟨line, cause⟩
  log (.diagnosed diagnostic)
  modify fun g => { g with diagnostics := g.diagnostics.push diagnostic }

/-- Records what the symbol table rejected; a fault in it stops the compilation. -/
def reportRejected (line : Nat) : SymbolError → Gen Unit
  | .duplicate name => report line (.alreadyDefined name)
  | .tooLarge name => report line (.tooLarge name)
  | .fault fault => throw fault

/-- All of some operands are integers; the first that is not is reported. -/
def checkInts (operands : List Symbol) (line : Nat) : Gen Bool := do
  match operands.find? (!·.isInt) with
  | some bad =>
    report line (.operandType bad.category)
    return false
  | none => return true

end Gen

end OnePass
