import OnePass.Generator.Apply

/-!
# Compiling

From the text of a C-minus program to three-address code in one pass: scan, parse, perform. The
outcome is the code and the diagnostics of the program, or the failure that ended the
compilation. -/

namespace OnePass

/-- What a compilation yields. A program with mistakes has no code. -/
structure Output where
  instructions : List Instruction
  diagnostics : List Diagnostic
  frames : List Frame
  deriving Repr

namespace Output

/-- The program has no mistakes. -/
def correct (o : Output) : Bool := o.diagnostics.isEmpty

/-- The listing of the code, unless the program has mistakes. -/
def listing (o : Output) : String :=
  if o.correct then Instruction.listing o.instructions else Generator.noCode

/-- The diagnostics as they are shown. -/
def diagnosticsText (o : Output) : String := Generator.diagnosticsText o.diagnostics

end Output

/-- What a generator has made of a whole program. -/
def Generator.output (g : Generator) : Except Fault Output := do
  if !g.stack.isEmpty then throw (.valuesLeft g.stack.length)
  let instructions ← if g.diagnostics.isEmpty then g.code.instructions else pure []
  return { instructions, diagnostics := g.diagnostics.toList, frames := g.frames.toList }

/-- A compilation: its outcome and its trace. -/
structure Compilation where
  outcome : Except Failure Output
  trace : List Event

/-- The event of a finished compilation. -/
def Output.event (o : Output) : Event :=
  .compiled o.instructions.length o.frames.length o.diagnostics.length

/-- Compiles a program for a layout, with a trace. -/
def traceCompile (layout : Layout) (source : String) : Compilation :=
  let scan := scan source
  match tokenize scan with
  | .error failure => ⟨.error failure, scan.events⟩
  | .ok tokens =>
    let (outcome, g) := (Generator.initial layout).compileParse (parse tokens)
    let trace := scan.events ++ g.trace.toList
    match outcome with
    | .error failure => ⟨.error failure, trace⟩
    | .ok () =>
      match g.output with
      | .error fault => ⟨.error (.fault fault), trace⟩
      | .ok output => ⟨.ok output, trace ++ [output.event]⟩

/-- Compiles a program for a layout. -/
def compile (layout : Layout) (source : String) : Except Failure Output :=
  (traceCompile layout source).outcome

end OnePass
