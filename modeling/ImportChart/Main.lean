import ImportChart.Cli.Run
import ImportChart.Cli.Snapshot

/-!
# The program

Takes the arguments, the environment and a snapshot of the disk, has the run
planned, and carries the plan out. Of the events the warnings are shown, each on
a line of its own.
-/

namespace ImportChart.Cli

def readVariables : IO (String → Option String) := do
  let names := [Settings.patternVariable, Settings.ignoreVariable,
    Settings.ignorePrefixVariable, Settings.directionVariable]
  let values ← names.mapM fun name => return (name, ← IO.getEnv name)
  return fun name => (List.lookup name values).join

def readTree (arguments : List String) : IO FileTree :=
  match readArguments arguments with
  | .request request => Snapshot.take request.folder
  | .answer _ | .refusal _ => return .bare []

def host : Host where
  read := readArguments
  logLine event :=
    if event.isWarning then "WARN " ++ event.target ++ ": " ++ event.message ++ "\n" else ""

/-- The cause of a failed write, in the words of path errors where it is one. -/
def causeOf : IO.Error → String
  | .noFileOrDirectory .. => PathError.notFound.message
  | .inappropriateType _ 21 _ => PathError.isFolder.message
  | .inappropriateType _ 20 _ => PathError.notFolder.message
  | .invalidArgument _ 40 _ => PathError.tooManyLinks.message
  | error => toString error

/-- Carries a plan out and returns the exit code. -/
def Plan.execute : Plan → IO UInt32
  | print text => do
    IO.print text
    return 0
  | fail exitCode complaint => do
    IO.eprint complaint
    return exitCode.toUInt32
  | save file content => do
    match ← (IO.FS.writeFile file content).toBaseIO with
    | .ok _ =>
      IO.eprint (host.logLine (savedEvent file))
      return 0
    | .error error =>
      IO.eprint (writeReport file (causeOf error))
      return 1

def execute (arguments : List String) : IO UInt32 := do
  let tree ← readTree arguments
  let value? ← readVariables
  IO.eprint (host.log (host.events tree value? arguments))
  (host.plan tree value? arguments).execute

end ImportChart.Cli

def main (arguments : List String) : IO UInt32 := ImportChart.Cli.execute arguments
