import CallThunk.Command.Run

/-!
# The program

Reads the configuration that the command line names, runs the command, writes what it leaves behind
and exits with its status.
-/

namespace CallThunk.Command

/-- The cause of a failure to read a file. Of the failures that concern a kind of file, one with a
path comes from a name below a file, and one without from reading a directory. -/
def causeOf : IO.Error → FileError
  | .noFileOrDirectory .. => .missing
  | .permissionDenied .. => .denied
  | .inappropriateType (some _) .. => .notDirectory
  | .inappropriateType none .. => .isDirectory
  | .invalidArgument .. => .nameTooLong
  | .userError _ => .notText
  | e => .other (toString e)

/-- Finds the configuration at a path. -/
def findConfig : Option String → IO ConfigSource
  | none => return .standard
  | some path => do
    try
      return .text (← IO.FS.readFile path)
    catch e =>
      return .unreadable path (causeOf e)

end CallThunk.Command

open CallThunk.Command

def main (args : List String) : IO UInt32 := do
  let exit ← match Invocation.read args with
    | .ok invocation => invocation.run <$> findConfig invocation.config
    | .error detour => pure detour.exit
  (← IO.getStdout).putStr exit.streams.output
  (← IO.getStderr).putStr exit.streams.errors
  return exit.status
