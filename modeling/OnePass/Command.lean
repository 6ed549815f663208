import OnePass.Compile
import OnePass.Files

/-!
# The command line

Reads a source file and writes a listing and the diagnostics. `Command.run` works wherever files
can be read and written; what it prints and its exit code are its result. Nothing is written unless
the compilation ends without failure. -/

namespace OnePass.Command

/-- What the command line asks for. -/
structure Options where
  /-- The source file; empty until one is named. -/
  input : String := ""
  output : String := "output.txt"
  errors : String := "semantic_errors.txt"
  layout : Option String := none
  verbose : Bool := false
  deriving DecidableEq, Repr

/-- Why the command line asks for no compilation. -/
inductive Halt where
  | noArguments
  | help
  | missingFilename (option : String)
  | unknownOption (option : String)
  | severalInputs
  | noInput
  deriving DecidableEq, Repr

/-- Reads the arguments one by one. -/
def readArguments (options : Options) : List String → Except Halt Options
  | [] => if options.input == "" then .error .noInput else .ok options
  | "-o" :: rest | "--output" :: rest =>
    match rest with
    | file :: rest => readArguments { options with output := file } rest
    | [] => .error (.missingFilename "-o")
  | "-e" :: rest | "--errors" :: rest =>
    match rest with
    | file :: rest => readArguments { options with errors := file } rest
    | [] => .error (.missingFilename "-e")
  | "--config" :: rest =>
    match rest with
    | file :: rest => readArguments { options with layout := some file } rest
    | [] => .error (.missingFilename "--config")
  | "-v" :: rest | "--verbose" :: rest => readArguments { options with verbose := true } rest
  | "-h" :: _ | "--help" :: _ => .error .help
  | arg :: rest =>
    if arg.startsWith "-" then .error (.unknownOption arg)
    else if options.input == "" then readArguments { options with input := arg } rest
    else .error .severalInputs

/-- What a run prints and the code it exits with. -/
structure Exit where
  code : Nat := 0
  stdout : String := ""
  stderr : String := ""
  deriving DecidableEq, Repr

/-- A run that ends with an error. -/
def fail (message : String) (stdout : String) : Exit :=
  { code := 1, stdout, stderr := message ++ "\n" }

/-- How the program is called. -/
def usage (program : String) : String :=
  "\n".intercalate
    [s!"Usage: {program} [options] <input.c>",
     "",
     "Options:",
     "  -o, --output <file>    Code listing (default: output.txt)",
     "  -e, --errors <file>    Semantic diagnostics (default: semantic_errors.txt)",
     "  --config <file>        Memory layout in TOML",
     "  -v, --verbose          Verbose output, including frame layouts",
     "  -h, --help             Show this help message",
     ""]

/-- What is printed where no compilation is asked for. -/
def Halt.exit (program : String) : Halt → Exit
  | .noArguments => { code := 1, stdout := usage program }
  | .help => { stdout := usage program }
  | .missingFilename option => fail s!"Error: {option} requires a filename" ""
  | .unknownOption option => fail s!"Error: Unknown option '{option}'" (usage program)
  | .severalInputs => fail "Error: Multiple input files specified" ""
  | .noInput => fail "Error: No input file specified" (usage program)

/-- The report of a file that cannot be read. -/
def readReport (name : String) (e : FileError) : Report :=
  .file s!"cannot read '{name}': {e.message}"

section
variable {m : Type → Type} [Monad m] [FileAccess m]

/-- The layout to compile for, or what is printed if its file is refused. -/
def loadLayout : Option String → m (Except String Layout)
  | none => return .ok {}
  | some name => do
    let layout : Except Report Layout := match ← FileAccess.readText name with
      | .error e => .error (readReport name e)
      | .ok text => (Layout.load text).mapError (·.report)
    return layout.mapError fun report => s!"Error loading '{name}': {report.text}"

/-- Writes the listing and the diagnostics of a compilation. -/
def writeOutput (options : Options) (output : Output) : m (Option String) := do
  match ← FileAccess.writeText options.output output.listing with
  | .error e => return some s!"Error writing '{options.output}': {e.message}"
  | .ok () =>
    match ← FileAccess.writeText options.errors output.diagnosticsText with
    | .error e => return some s!"Error writing '{options.errors}': {e.message}"
    | .ok () => return none

/-- What is printed of a compilation that went well. -/
def summary (output : Output) : String :=
  String.join (output.frames.map fun frame => s!"  {frame.text}\n")
    ++ s!"{output.instructions.length} instructions, "
    ++ s!"{output.diagnostics.length} semantic error(s)\n"

/-- Compiles a source file as the options say. -/
def compileFile (options : Options) : m Exit := do
  match ← loadLayout options.layout with
  | .error message => return fail message ""
  | .ok layout =>
    let banner :=
      if options.verbose then
        s!"Compiling {options.input} -> {options.output} (diagnostics: {options.errors})\n"
      else ""
    match ← FileAccess.readText options.input with
    | .error e => return fail s!"Error reading '{options.input}': {e.message}" banner
    | .ok source =>
      match compile layout source with
      | .error failure => return fail s!"Compilation error: {failure.report.text}" banner
      | .ok output =>
        match ← writeOutput options output with
        | some message => return fail message banner
        | none =>
          return { code := if output.correct then 0 else 2
                   stdout := if options.verbose then banner ++ summary output else "" }

/-- Runs the command line. -/
def run (program : String) (args : List String) : m Exit :=
  if args.isEmpty then return Halt.exit program .noArguments
  else match readArguments {} args with
    | .error halt => return halt.exit program
    | .ok options => compileFile options

end

end OnePass.Command
