/-
# The program

The commands run on the files of the system; their messages go to the standard streams.
-/
import ConvFlow.CommandLine.Run

namespace ConvFlow

/-- The cause of a failed access to a file. -/
def FileError.ofSystem : IO.Error → FileError
  | .noFileOrDirectory .. => .notFound
  | .inappropriateType _ 20 _ => .notDirectory
  | .inappropriateType _ 21 _ => .isDirectory
  | .invalidArgument _ 36 _ => .nameTooLong
  | e => .other (toString e)

/-- Reading and writing the files of the system. -/
instance : Storage IO where
  read path := do
    match ← (IO.FS.readFile path).toBaseIO with
    | .ok text => return .ok text
    | .error e => return .error (.ofSystem e)
  write path text := do
    match ← (IO.FS.writeFile path text).toBaseIO with
    | .ok () => return .ok ()
    | .error e => return .error (.ofSystem e)

end ConvFlow

/-- Run the command that the arguments ask for. -/
def main (args : List String) : IO UInt32 := do
  let outcome : ConvFlow.CommandLine.Outcome ← ConvFlow.CommandLine.runArgs args
  IO.print outcome.stdout
  IO.eprint outcome.stderr
  return outcome.code
