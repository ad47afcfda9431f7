import ImportChart.Cli.Arguments
import ImportChart.Text.Blank

/-!
# What the program says

The reports of what went wrong, and the texts that belong to the reader of
arguments. A report gives the context of a failure and then its causes,
outermost first; several causes are numbered. The lines of a cause are indented
alike.

Most refusals end with the shape of a command line. It names the options that
were given, so what is said of one fault depends on the arguments without fault.
-/

namespace ImportChart.Cli

def versionText : String := "modgraph 0.1.0\n"

def helpLines : List String :=
  ["Prints a Mermaid graph of the internal package dependencies of a Go module",
   "",
   "Usage: modgraph [OPTIONS] <DIR>",
   "",
   "Arguments:",
   "  <DIR>  Directory of the Go module",
   "",
   "Options:",
   "      --pattern <PATTERN>              Go package pattern [env: MODGRAPH_PATTERN] [default: ./...]",
   "      --ignore <IGNORE>                Packages to ignore, comma separated [env: MODGRAPH_IGNORE]",
   "      --ignore-prefix <IGNORE_PREFIX>  Prefix to remove from each package name [env: MODGRAPH_IGNORE_PREFIX]",
   "      --direction <DIRECTION>          Flowchart direction: BT, TD, LR, RL [env: MODGRAPH_DIRECTION] [default: BT]",
   "      --json                           JSON output",
   "  -o, --output <OUTPUT>                Output file (stdout if omitted)",
   "  -h, --help                           Print help",
   "  -V, --version                        Print version"]

def helpText : String := String.join (helpLines.map (· ++ "\n"))

/-! ## Reports -/

/-- The first line of a text after `head`, and its further lines after `margin`. -/
def indented (head margin : String) (text : String) : String :=
  head ++ ("\n" ++ margin).intercalate ((Text.lines text.toList).map String.ofList) ++ "\n"

/-- The causes of a failure, numbered from 0 if there are several. -/
def causeText : List String → String
  | [cause] => indented "    " "    " cause
  | causes => String.join (causes.zipIdx.map fun (cause, number) =>
      indented ("    " ++ toString number ++ ": ") "       " cause)

def report (context : String) (causes : List String) : String :=
  "Error: " ++ context ++ "\n\nCaused by:\n" ++ causeText causes

def UsageError.message : UsageError → String
  | unknownOption argument => "unexpected argument '" ++ argument ++ "' found"
  | unexpectedValue option value =>
    "unexpected value '" ++ value ++ "' for '" ++ option ++ "' found; no more were expected"
  | missingValue option | emptyValue option =>
    "a value is required for '" ++ option ++ "' but none was supplied"
  | invalidValue option value =>
    "invalid value '" ++ value ++ "' for '" ++ option ++ "': " ++ Direction.invalidMessage value
  | repeatedOption option => "the argument '" ++ option ++ "' cannot be used multiple times"
  | unexpectedArgument argument => "unexpected argument '" ++ argument ++ "' found"
  | missingFolder => "the following required arguments were not provided:\n  <DIR>"

/-- The shape of a command line with the given options. Only a fault that is a
matter of one value is told without it. -/
def UsageError.usageLine (given : List String) : UsageError → String
  | missingValue _ | emptyValue _ | invalidValue _ _ => ""
  | missingFolder => shape given
  | unknownOption _ | unexpectedValue _ _ | repeatedOption _ | unexpectedArgument _ =>
    shape (if given.isEmpty then ["[OPTIONS]"] else given)
where
  shape (options : List String) : String :=
    "Usage: modgraph " ++ String.join (options.map (· ++ " ")) ++ "<DIR>\n\n"

def UsageError.report (error : UsageError) (given : List String) : String :=
  "error: " ++ error.message ++ "\n\n" ++ error.usageLine given
    ++ "For more information, try '--help'.\n"

/-- The reader of arguments that the program is run with. -/
def readArguments (arguments : List String) : Reading :=
  match Command.ofArguments arguments with
  | .error error => .refusal (error.report (shownOptions arguments))
  | .ok .help => .answer helpText
  | .ok .version => .answer versionText
  | .ok (.chart request) => .request request

end ImportChart.Cli
