import OnePass.Fault
import OnePass.Grammar.Parse
import OnePass.Layout.Toml
import OnePass.Token.Scan

/-!
# Failures

A failure ends a compilation, unlike a mistake in a program, which is recorded. A `Report` is a
failure in words, of one of seven kinds; `Report.text` frames the words by the kind. -/

namespace OnePass

/-- A failure in words. -/
inductive Report where
  | lexical (detail : String) (line : Nat)
  /-- Several failures at once. -/
  | several (reports : List Report)
  | syntactic (detail : String) (line : Nat)
  | unknownAction (name : String)
  | fault (detail : String)
  | layout (detail : String)
  | file (detail : String)
  deriving Repr

mutual

/-- A report as it is shown. -/
def Report.text : Report → String
  | .lexical detail line => s!"Lexical error at line {line}: {detail}"
  | .several reports => "\n".intercalate (Report.texts reports)
  | .syntactic detail line => s!"Syntax error at line {line}: {detail}"
  | .unknownAction name => s!"Unknown semantic action '{name}'"
  | .fault detail => s!"Internal compiler error: {detail}"
  | .layout detail => s!"Configuration error: {detail}"
  | .file detail => s!"IO error: {detail}"

/-- Reports as they are shown. -/
def Report.texts : List Report → List String
  | [] => []
  | report :: reports => report.text :: Report.texts reports

end

/-- The report of a lexical error. -/
def LexicalError.report (e : LexicalError) : Report := .lexical e.message e.line

/-- The report of a syntax error. -/
def SyntaxError.report (e : SyntaxError) : Report := .syntactic e.message e.line

/-- The report of a fault. -/
def Fault.report (f : Fault) : Report := .fault f.message

/-- The report of a layout's flaw. -/
def Layout.Flaw.report (f : Layout.Flaw) : Report := .layout f.message

/-- The report of a refused layout file. -/
def Layout.LoadError.report (e : Layout.LoadError) : Report := .layout e.message

/-- What ends a compilation. -/
inductive Failure where
  /-- The text has lexical errors, at least one. -/
  | lexical (first : LexicalError) (more : List LexicalError)
  | syntactic (error : SyntaxError)
  | unknownAction (name : String)
  | fault (fault : Fault)
  deriving DecidableEq, Repr

/-- The report of a failure. A single lexical error is reported as itself. -/
def Failure.report : Failure → Report
  | .lexical first [] => first.report
  | .lexical first more => .several ((first :: more).map LexicalError.report)
  | .syntactic error => error.report
  | .unknownAction name => .unknownAction name
  | .fault cause => cause.report

/-- The tokens of a text, if all of it is part of the language. -/
def tokenize (scan : Scan) : Except Failure (List Token) :=
  match scan.errors with
  | [] => .ok scan.tokens
  | first :: more => .error (.lexical first more)

end OnePass
