import ImportChart.Chart.Json
import ImportChart.Chart.Mermaid
import ImportChart.Cli.Text
import ImportChart.Module.LoadEvents

/-!
# A run of the program

From arguments, environment and file tree to what a run leaves behind: what it
prints, its exit code, and the tree with the output file, if one was asked for.

A run has two halves. The plan is made from what is read and touches nothing;
only then, if all went well, something is printed or one file is written. A
failure therefore never leaves half a chart.

Two things come from outside and are taken as they are: how arguments are read,
and which line the log writes of an event, if any. The lines go where complaints
go, in front of the complaint if there is one.
-/

namespace ImportChart.Cli

open ImportChart.Module

inductive Plan
  | print (text : String)
  | save (file content : String)
  | fail (exitCode : Nat) (complaint : String)
  deriving DecidableEq, Repr

structure Outcome where
  exitCode : Nat
  stdout : String
  stderr : String
  deriving DecidableEq, Repr

/-! ## The output -/

/-- The extension of a path's last component: what follows its last dot, if
anything stands before that dot. -/
def extension? (path : String) : Option String :=
  let name := (path.toList.reverse.takeWhile (· != '/'))
  match name.dropWhile (· != '.') with
  | _ :: _ :: _ => some (String.ofList (name.takeWhile (· != '.')).reverse)
  | _ => none

def isMarkdown (path : String) : Bool := extension? path == some "md"

def markdownBlock (text : String) : String := "```mermaid\n" ++ text ++ "```\n"

def chartText (request : Request) (settings : Settings) (loaded : Loaded) : String :=
  let chart := Chart.ofGraph (.ofPackages loaded.path settings.pathRules loaded.packages)
  if request.json then chart.json ++ "\n" else chart.mermaid settings.direction

def fileText (request : Request) (file text : String) : String :=
  if !request.json && isMarkdown file then markdownBlock text else text

/-! ## The plan -/

def planChart (tree : FileTree) (environment : Settings) (request : Request) : Plan :=
  let settings := request.settings environment
  match load tree request.folder settings.pattern with
  | .error error =>
    .fail 1 (report ("failed to load Go module in " ++ request.folder) error.chain)
  | .ok loaded =>
    let text := chartText request settings loaded
    match request.output with
    | none => .print text
    | some file => .save file (fileText request file text)

/-- What is told on the way to the plan of a request. -/
def chartEvents (tree : FileTree) (value? : String → Option String) (request : Request) :
    List Event :=
  let settings := request.settings (.ofVariables value?)
  Settings.events value? ++ loadEvents tree request.folder settings.pattern
    ++ match load tree request.folder settings.pattern with
      | .error _ => []
      | .ok loaded =>
        let graph := Graph.ofPackages loaded.path settings.pathRules loaded.packages
        Graph.events settings.pathRules loaded.packages
          ++ [⟨.info, "modgraph::diagram_cli", "Graph: " ++ toString graph.nodes.toList.length
            ++ " nodes, " ++ toString graph.edgeCount ++ " edges"⟩]

def savedEvent (file : String) : Event :=
  ⟨.info, "modgraph::diagram_cli", "Saved to: " ++ file⟩

/-! ## Runs -/

/-- What a run takes from outside. -/
structure Host where
  read : List String → Reading
  /-- What the log writes of an event. Time and place of a run are in it, and so
  is the choice of the events that are written at all. -/
  logLine : Event → String

namespace Host

variable (host : Host) (tree : FileTree) (value? : String → Option String)
  (arguments : List String)

def log (events : List Event) : String := String.join (events.map host.logLine)

@[simp] theorem log_nil : host.log [] = "" := rfl

@[simp] theorem log_cons (event : Event) (events : List Event) :
    host.log (event :: events) = host.logLine event ++ host.log events := by
  rw [log, List.map_cons, String.join_cons, log]

/-- The plan of a run, from the variables of the environment and the arguments. -/
def plan : Plan :=
  match host.read arguments with
  | .refusal complaint => .fail 2 complaint
  | .answer text => .print text
  | .request request => planChart tree (.ofVariables value?) request

/-- What is told on the way to the plan. -/
def events : List Event :=
  match host.read arguments with
  | .request request => chartEvents tree value? request
  | .refusal _ | .answer _ => []

end Host

def writeReport (file cause : String) : String := report ("failed to write " ++ file) [cause]

/-- Carries a plan out, after the given events. -/
def Plan.outcome (host : Host) (tree : FileTree) (events : List Event) :
    Plan → Outcome × FileTree
  | print text => (⟨0, text, host.log events⟩, tree)
  | fail exitCode complaint => (⟨exitCode, "", host.log events ++ complaint⟩, tree)
  | save file content =>
    match tree.write file content.toUTF8 with
    | .ok written => (⟨0, "", host.log (events ++ [savedEvent file])⟩, written)
    | .error error =>
      (⟨1, "", host.log events ++ writeReport file error.message⟩, tree)

def Host.run (host : Host) (tree : FileTree) (value? : String → Option String)
    (arguments : List String) : Outcome × FileTree :=
  (host.plan tree value? arguments).outcome host tree (host.events tree value? arguments)

/-- A host whose log is off. -/
def Host.silent (read : List String → Reading) : Host := ⟨read, fun _ => ""⟩

/-- A run of the program with its own reader of arguments and the log off. -/
def run (tree : FileTree) (value? : String → Option String) (arguments : List String) :
    Outcome × FileTree :=
  (Host.silent readArguments).run tree value? arguments

end ImportChart.Cli
