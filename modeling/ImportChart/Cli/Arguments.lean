import ImportChart.Settings

/-!
# Arguments

What a command line asks for. The program itself only sees what its reader of
arguments makes of them (`Reading`), and is stated for every reader. The reader
here is the one that the program is run with.

The arguments are read from left to right: help and version are given as soon as
they are asked for, so a fault counts only if it stands before them. That the
folder is missing shows only at the end.

An option's value stands in the same argument, behind `=` or right behind the
letter, or in the next one. A value in an argument of its own may not look
like an option; a lone `-` does not. After `--` nothing is an option.
-/

namespace ImportChart.Cli

/-- What is wrong with the arguments. An option is named with its placeholder,
if it takes a value. -/
inductive UsageError
  | unknownOption (argument : String)
  | unexpectedValue (option value : String)
  | missingValue (option : String)
  | emptyValue (option : String)
  | invalidValue (option value : String)
  | repeatedOption (option : String)
  | unexpectedArgument (argument : String)
  | missingFolder
  deriving DecidableEq, Repr

inductive ValueOption
  | pattern
  | ignore
  | ignorePrefix
  | direction
  | output
  deriving DecidableEq, Repr

/-- A chart that is asked for. What is not said is left to the environment. -/
structure Request where
  folder : String
  pattern : Option String
  ignore : Option String
  ignorePrefix : Option String
  direction : Option Direction
  json : Bool
  output : Option String
  deriving DecidableEq, Repr

/-- What a reader of arguments makes of them. -/
inductive Reading
  | request (request : Request)
  /-- A text to be printed, and nothing to be done. -/
  | answer (text : String)
  /-- A complaint: the arguments are not understood. -/
  | refusal (complaint : String)
  deriving DecidableEq, Repr

inductive Command
  | help
  | version
  | chart (request : Request)
  deriving DecidableEq, Repr

/-! ## One argument -/

/-- What an argument is, seen by itself. -/
inductive Argument
  /-- From here on nothing is an option. -/
  | separator
  | plain (text : String)
  | help
  | version
  | json
  /-- An option, with its value if the argument holds it too. -/
  | option (option : ValueOption) (value : Option String)
  | refused (error : UsageError)
  deriving DecidableEq, Repr

def ValueOption.name : ValueOption → String
  | pattern => "--pattern"
  | ignore => "--ignore"
  | ignorePrefix => "--ignore-prefix"
  | direction => "--direction"
  | output => "--output"

def ValueOption.placeholder : ValueOption → String
  | pattern => "<PATTERN>"
  | ignore => "<IGNORE>"
  | ignorePrefix => "<IGNORE_PREFIX>"
  | direction => "<DIRECTION>"
  | output => "<OUTPUT>"

/-- The option as messages show it. -/
def ValueOption.shown (option : ValueOption) : String :=
  option.name ++ " " ++ option.placeholder

/-- The argument with the given long name and the value behind `=`. -/
def longArgument (name : String) (value : Option String) : Argument :=
  match name with
  | "pattern" => .option .pattern value
  | "ignore" => .option .ignore value
  | "ignore-prefix" => .option .ignorePrefix value
  | "ignorePrefix" => .option .ignorePrefix value
  | "direction" => .option .direction value
  | "output" => .option .output value
  | "json" => bare .json
  | "help" => bare .help
  | "version" => bare .version
  | _ => .refused (.unknownOption ("--" ++ name))
where
  /-- An option without a value. -/
  bare (argument : Argument) : Argument :=
    match value with
    | some value => .refused (.unexpectedValue ("--" ++ name) value)
    | none => argument

/-- The argument with the given letter and what stands behind it. As every
letter but `o` acts by itself, letters behind the first are never reached. -/
def shortArgument (letter : Char) (rest : List Char) : Argument :=
  if letter == 'h' then .help
  else if letter == 'V' then .version
  else if letter == 'o' then
    match rest with
    | [] => .option .output none
    | '=' :: value => .option .output (some (String.ofList value))
    | value => .option .output (some (String.ofList value))
  else .refused (.unknownOption (String.ofList ['-', letter]))

def Argument.ofText (text : String) : Argument :=
  match text.toList with
  | ['-', '-'] => .separator
  | '-' :: '-' :: long =>
    longArgument (String.ofList (long.takeWhile (· != '=')))
      (if long.contains '=' then some (String.ofList ((long.dropWhile (· != '=')).drop 1))
        else none)
  | '-' :: letter :: rest => shortArgument letter rest
  | _ => .plain text

/-- Whether an argument cannot be the value of the option before it. -/
def looksLikeOption (text : String) : Bool :=
  match text.toList with
  | '-' :: _ :: _ => true
  | _ => false

def Argument.option? : Argument → Option ValueOption
  | .option given _ => some given
  | _ => none

/-- The options among the arguments, up to `--`. -/
def givenOptions (arguments : List String) : List ValueOption :=
  (arguments.takeWhile (· != "--")).filterMap fun text =>
    (Argument.ofText text).option?

def Argument.shown? : Argument → Option String
  | .option given _ => some given.shown
  | .json => some "--json"
  | .separator | .plain _ | .help | .version | .refused _ => none

/-- What messages show of the options among the arguments, each once. -/
def shownOptions (arguments : List String) : List String :=
  ((arguments.takeWhile (· != "--")).filterMap fun text =>
    (Argument.ofText text).shown?).eraseDups

/-! ## What has been read -/

/-- A request that may still lack its folder. -/
structure Draft where
  folder : Option String
  pattern : Option String
  ignore : Option String
  ignorePrefix : Option String
  direction : Option Direction
  json : Bool
  output : Option String
  deriving DecidableEq, Repr

namespace Draft

def empty : Draft := ⟨none, none, none, none, none, false, none⟩

def once (option : ValueOption) (before : Bool) : Except UsageError Unit :=
  if before then .error (.repeatedOption option.shown) else .ok ()

/-- The draft with the value of an option. Each option is given once, an
output has a name, and a direction is one. -/
def setOption (draft : Draft) (option : ValueOption) (value : String) :
    Except UsageError Draft :=
  match option with
  | .pattern => do
    once option draft.pattern.isSome
    return { draft with pattern := value }
  | .ignore => do
    once option draft.ignore.isSome
    return { draft with ignore := value }
  | .ignorePrefix => do
    once option draft.ignorePrefix.isSome
    return { draft with ignorePrefix := value }
  | .direction => do
    once option draft.direction.isSome
    match Direction.ofText? value with
    | some direction => return { draft with direction := direction }
    | none => .error (.invalidValue option.shown value)
  | .output => do
    once option draft.output.isSome
    if value == "" then .error (.emptyValue option.shown)
    else return { draft with output := value }

def setJson (draft : Draft) : Except UsageError Draft :=
  if draft.json then .error (.repeatedOption "--json") else .ok { draft with json := true }

/-- There is one folder, and it has a name. -/
def setFolder (draft : Draft) (folder : String) : Except UsageError Draft :=
  if draft.folder.isSome then .error (.unexpectedArgument folder)
  else if folder == "" then .error (.emptyValue "<DIR>")
  else .ok { draft with folder := folder }

def request (draft : Draft) : Except UsageError Request :=
  match draft.folder with
  | none => .error .missingFolder
  | some folder =>
    .ok ⟨folder, draft.pattern, draft.ignore, draft.ignorePrefix, draft.direction, draft.json,
      draft.output⟩

end Draft

/-! ## All arguments -/

/-- Reads the arguments that follow what has been read into a draft. -/
def commandFrom (draft : Draft) : List String → Except UsageError Command
  | [] => draft.request.map .chart
  | text :: texts =>
    match Argument.ofText text with
    | .separator => do (← texts.foldlM Draft.setFolder draft).request.map .chart
    | .plain folder => do commandFrom (← draft.setFolder folder) texts
    | .help => .ok .help
    | .version => .ok .version
    | .json => do commandFrom (← draft.setJson) texts
    | .option option (some value) => do commandFrom (← draft.setOption option value) texts
    | .option option none =>
      match texts with
      | [] => .error (.missingValue option.shown)
      | value :: texts =>
        if looksLikeOption value then .error (.missingValue option.shown)
        else do commandFrom (← draft.setOption option value) texts
    | .refused error => .error error

def Command.ofArguments (texts : List String) : Except UsageError Command :=
  commandFrom .empty texts

/-- The settings of a request: what it says wins over the environment. -/
def Request.settings (request : Request) (environment : Settings) : Settings where
  pattern := request.pattern.getD environment.pattern
  ignore := (request.ignore.map ignoreList).getD environment.ignore
  ignorePrefix := request.ignorePrefix.getD environment.ignorePrefix
  direction := request.direction.getD environment.direction

end ImportChart.Cli
