import OnePass.Symbol.Basic

/-!
# Diagnostics

A mistake in the program being compiled is recorded with its line, and compilation goes on, so
that one run reports several. `Diagnostic.Cause.message` is the one place with their wording. -/

namespace OnePass

/-- What is wrong with a program. -/
inductive Diagnostic.Cause where
  | alreadyDefined (name : String)
  | notDefined (name : String)
  | tooLarge (name : String)
  | illegalVoid (name : String)
  | literalRange (lexeme : String)
  | operandType (found : Category)
  | notArray (name : String)
  | notFunction (name : String)
  | argumentCount (callee : String)
  | argumentType (position : Nat) (callee : String) (expected found : Category)
  | breakOutsideLoop
  | noMain
  deriving DecidableEq, Repr

/-- What a diagnostic says. -/
def Diagnostic.Cause.message : Diagnostic.Cause → String
  | .alreadyDefined name => s!"'{name}' is already defined in this scope."
  | .notDefined name => s!"'{name}' is not defined."
  | .tooLarge name => s!"Storage for '{name}' is too large."
  | .illegalVoid name => s!"Illegal type of void for '{name}'."
  | .literalRange lexeme => s!"Integer literal '{lexeme}' is out of range."
  | .operandType found => s!"Type mismatch in operands, Got {found.text} instead of int."
  | .notArray name => s!"'{name}' is not an array."
  | .notFunction name => s!"'{name}' is not a function."
  | .argumentCount callee => s!"Mismatch in numbers of arguments of '{callee}'."
  | .argumentType position callee expected found =>
    s!"Mismatch in type of argument {position} of '{callee}'. "
      ++ s!"Expected {expected.text} but got {found.text} instead."
  | .breakOutsideLoop => "No 'repeat ... until' found for 'break'."
  | .noMain => "main function not found."

/-- A mistake in the program, and its line. -/
structure Diagnostic where
  line : Nat
  cause : Diagnostic.Cause
  deriving DecidableEq, Repr

namespace Diagnostic

/-- A message with its line, as it is shown. -/
def render (line : Nat) (message : String) : String := s!"#{line}: Semantic Error! {message}"

/-- A diagnostic as it is shown. -/
def text (d : Diagnostic) : String := render d.line d.cause.message

end Diagnostic

end OnePass
