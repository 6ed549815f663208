import OnePass.Failure
import OnePass.Generator.Declaration
import OnePass.Generator.Expression
import OnePass.Generator.Statement

/-!
# Performing actions

`Gen.perform` is one action at one token. A program is compiled by performing the steps of its
parse in order; the first fault ends it, and a syntax error does after the steps before it. -/

namespace OnePass

namespace Gen

/-- What an action does at a token. -/
def dispatch (action : Action) (token : Token) : Gen Unit :=
  match action with
  | .beginProgram => beginProgram
  | .endProgram => endProgram token
  | .pushType => pushType token
  | .pushName => push (.name token.lexeme)
  | .declareVariable => declareVariable token
  | .declareArray => declareArray token
  | .declareFunction => declareFunction token
  | .addParameter => addParameter token false
  | .addArrayParameter => addParameter token true
  | .scopeUp => demand .openBlock
  | .scopeDown => demand .closeBlock
  | .pushIdentifier => pushIdentifier token
  | .pushNumber => pushNumber token
  | .pushOperator => pushOperator token
  | .computeBinary => computeBinary token
  | .assign => assign token
  | .indexArray => indexArray token
  | .popExpression => do let _ ← pop
  | .reserveJumpSlot => reserveBranch token
  | .emitCondJumpAndReserveNext => startElse
  | .patchJumpToHere => endElse
  | .patchCondJumpToHere => endBranch
  | .labelHere => startLoop
  | .jumpBackIfFalse => repeatLoop token
  | .pushBreakScope => openBreaks
  | .registerBreak => registerBreak token
  | .closeBreakScope => closeBreaks
  | .beginFunction => beginFunction
  | .endFunction => endFunction
  | .storeReturnValue => storeReturnValue token
  | .markReturn => markReturn
  | .pushArgCount => modify fun g => { g with argCounts := 0 :: g.argCounts }
  | .incrementArgCount => incrementArgCount
  | .call => call token

/-- Performs a step. Scratch cells do not outlive it. -/
def perform (step : Step) : Gen Unit := do
  clearScratch
  log (.performed step (← get).stack.length)
  dispatch step.action step.token

end Gen

namespace Generator

/-- Runs an operation: its outcome, and the state after it. -/
def run {α : Type} (g : Generator) (operation : Gen α) : Except Fault α × Generator :=
  match EStateM.run operation g with
  | .ok a g => (.ok a, g)
  | .error fault g => (.error fault, g)

/-- Performs an action that is given by its name. -/
def performNamed (g : Generator) (name : String) (token : Token) :
    Except Failure Unit × Generator :=
  match Action.ofName? name with
  | none => (.error (.unknownAction (Action.bareName name)), g)
  | some action =>
    let (outcome, g) := g.run (Gen.perform ⟨action, token⟩)
    (outcome.mapError .fault, g)

/-- Performs the steps of a parse. -/
def compileParse (g : Generator) (parse : Parse) : Except Failure Unit × Generator :=
  match g.run (parse.steps.forM Gen.perform) with
  | (.error fault, g) => (.error (.fault fault), g)
  | (.ok (), g) =>
    match parse.error with
    | some error => (.error (.syntactic error), g)
    | none => (.ok (), g)

/-- What stands for the listing of a program with mistakes. -/
def noCode : String := "The output code has not been generated."

/-- What stands for the diagnostics of a program without mistakes. -/
def noMistakes : String := "The input program is semantically correct."

/-- The listing of the code, unless the program has mistakes. -/
def listing (g : Generator) : Except Fault String :=
  if g.diagnostics.isEmpty then g.code.instructions.map Instruction.listing else .ok noCode

/-- Diagnostics, one a line. -/
def diagnosticsText (diagnostics : List Diagnostic) : String :=
  if diagnostics.isEmpty then noMistakes ++ "\n"
  else String.join (diagnostics.map (·.text ++ "\n"))

end Generator

end OnePass
