import ResourceLang.Command.Run

/-!
The command line program: reads the files it is given, or standard input, and prints their tokens.
-/

set_option autoImplicit false
set_option relaxedAutoImplicit false

namespace ResourceLang.Command

/-- The error that the system reported for a file. -/
def FileError.ofSystem : IO.Error → FileError
  | .noFileOrDirectory .. => .notFound
  | .permissionDenied .. => .permissionDenied
  | .invalidArgument _ 36 _ => .nameTooLong
  | .inappropriateType none .. => .isDirectory
  | .inappropriateType (some _) .. => .notDirectory
  | error => .other error.toString

/-- What reading the file at a path on disk gives. -/
def readFile (path : String) : BaseIO (Except FileError String) := do
  match ← EIO.toBaseIO (IO.FS.readBinFile path) with
  | .ok contents => return decodeText contents
  | .error error => return .error (.ofSystem error)

/-- Reads all that a request needs and runs it. -/
def perform (request : Request) : IO Outcome := do
  if request.paths.isEmpty then
    let input ← (← IO.getStdin).readBinToEnd
    return runInput request (decodeText input)
  let texts ← request.paths.mapM fun path ↦ return (path, ← readFile path)
  return runFiles request fun path ↦ (texts.lookup path).getD (.error .notFound)

end ResourceLang.Command

def main (args : List String) : IO UInt32 := do
  let outcome ← ResourceLang.Command.perform (.ofArgs args)
  IO.print outcome.stdout
  IO.eprint outcome.stderr
  return outcome.exitCode.toUInt32
