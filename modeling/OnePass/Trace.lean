import OnePass.Diagnostic
import OnePass.Failure
import OnePass.Generator.Value
import OnePass.Grammar.Action
import OnePass.Symbol.Record
import OnePass.Token.Scan

/-!
# Traces

A run of the compiler leaves a trace of what it did, in order. An event is kept as the data it is
about; `Event.text` is the one place with their wording. -/

namespace OnePass

/-- How much an event matters. -/
inductive Level where
  | trace | debug | info
  deriving DecidableEq, Repr

/-- The name of a level. -/
def Level.text : Level → String
  | .trace => "TRACE"
  | .debug => "DEBUG"
  | .info => "INFO"

/-- Something the compiler did. -/
inductive Event where
  | lexicalError (error : LexicalError)
  | scanned (tokens errors : Nat)
  | builtinRegistered (name : String)
  | declared (symbol : Symbol) (words : Nat)
  | functionOpened (name : String) (entry : Nat)
  | parameterAdded (symbol : Symbol)
  | temporaryMade (symbol : Symbol)
  | functionClosed (name : String) (frameSize : Nat)
  | emitted (pc : Nat) (instruction : Instruction)
  | reserved (pc : Nat)
  | filled (pc : Nat) (instruction : Instruction)
  | performed (step : Step) (depth : Nat)
  | pushed (value : StackValue)
  | diagnosed (diagnostic : Diagnostic)
  | branchReserved (pc : Nat) (cond : Operand)
  | breaksClosed (count target : Nat)
  | functionDeclared (ty : Ty) (name : String) (entry : Nat)
  | frameClosed (frame : Frame)
  | called (callee : String) (count returnPc : Nat)
  | resolved (symbol : Symbol) (operand : Operand) (emitted : Nat)
  | referenceResolved (symbol : Symbol) (operand : Operand) (emitted : Nat)
  | generated (instructions diagnostics dataEnd : Nat)
  | compiled (instructions functions diagnostics : Nat)
  deriving Repr

namespace Event

/-- How much an event matters. -/
def level : Event → Level
  | .temporaryMade _ | .pushed _ | .resolved _ _ _ | .referenceResolved _ _ _ => .trace
  | .frameClosed _ | .generated _ _ _ | .compiled _ _ _ => .info
  | _ => .debug

/-- Where a symbol's storage is: global addresses are plain, offsets count from the frame. -/
def placeText (s : Symbol) : String :=
  if s.isGlobal then Word.addressText s.value else s!"CF+{Word.addressText s.value}"

/-- A position in its column. -/
def pcText (pc : Nat) : String := alignRight 4 (toString pc)

/-- What an event says. -/
def text : Event → String
  | .lexicalError error => s!"LEXER: {error.report.text}"
  | .scanned tokens errors => s!"LEXER: produced {tokens} tokens, {errors} lexical errors"
  | .builtinRegistered name => s!"SYMBOLS: registering builtin {name}"
  | .declared s words => s!"SYMBOLS: install {s.ty.text} {s.name} at {placeText s} ({words} words)"
  | .functionOpened name entry => s!"SYMBOLS: open function {name} at pc {entry}"
  | .parameterAdded s => s!"SYMBOLS: parameter {s.ty.text} {s.name} at {placeText s}"
  | .temporaryMade s =>
    s!"SYMBOLS: temporary {s.name} {s.ty.text} at {Word.addressText s.value}"
  | .functionClosed name frameSize => s!"SYMBOLS: close function {name} (frame size {frameSize})"
  | .emitted pc instruction => s!"EMIT {pcText pc}\t{instruction.text}"
  | .reserved pc => s!"RESERVE {pcText pc}"
  | .filled pc instruction => s!"PATCH {pcText pc}\t{instruction.text}"
  | .performed step depth =>
    s!"ACTION {step.action.text} on {step.token.text} (line {step.token.line}), stack depth {depth}"
  | .pushed value => s!"SS push {value.text}"
  | .diagnosed diagnostic => s!"SEMANTIC ERROR {diagnostic.text}"
  | .branchReserved pc cond => s!"BRANCH: reserved slot {pc} for condition {cond.text}"
  | .breaksClosed count target => s!"BRANCH: {count} break(s) exit to {target}"
  | .functionDeclared ty name entry => s!"FUNCTION: {ty.text} {name} at pc {entry}"
  | .frameClosed frame => s!"Frame: {frame.text}"
  | .called callee count returnPc =>
    s!"CALL: {callee} with {count} argument(s), returns to {returnPc}"
  | .resolved s operand count =>
    s!"RESOLVE {s.name} ({s.ty.label}) -> {operand.text} [{count} instr]"
  | .referenceResolved s operand count =>
    s!"RESOLVE_REF {s.name} ({s.ty.label}) -> {operand.text} [{count} instr]"
  | .generated instructions diagnostics dataEnd =>
    s!"Code generation finished: {instructions} instructions, {diagnostics} semantic errors, "
      ++ s!"data segment ends at {dataEnd}"
  | .compiled instructions functions diagnostics =>
    s!"Compiled {instructions} instructions, {functions} function(s), "
      ++ s!"{diagnostics} semantic error(s)"

/-- An event as a line of a trace. -/
def line (e : Event) : String := s!"{e.level.text} {e.text}"

end Event

/-- The trace of a scan: every lexical error, then the counts. -/
def Scan.events (s : Scan) : List Event :=
  s.errors.map .lexicalError ++ [.scanned s.tokens.length s.errors.length]

end OnePass
