import OnePass.Command

/-!
# The program

The command line on the files of the system. -/

namespace OnePass

/-- What a refusal of the system says. -/
def FileError.ofSystem : IO.Error → FileError
  | .noFileOrDirectory .. => .notFound
  | .inappropriateType _ code details =>
    if code == 21 then .isDirectory
    else if code == 20 then .notDirectory
    else .refused details
  | e => .refused (toString e)

instance : FileAccess IO where
  readText name := do
    try
      let content ← IO.FS.readBinFile name
      match String.fromUTF8? content with
      | some text => return .ok text
      | none => return .error .notText
    catch e => return .error (.ofSystem e)
  writeText name text := do
    try
      IO.FS.writeFile name text
      return .ok ()
    catch e => return .error (.ofSystem e)

end OnePass

/-- Runs the command line, prints, and exits. -/
def main (args : List String) : IO UInt32 := do
  let program := (← IO.appPath).fileName.getD "onepass"
  let exit ← OnePass.Command.run program args
  IO.print exit.stdout
  IO.eprint exit.stderr
  return exit.code.toUInt32
