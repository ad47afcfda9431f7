import ImportChart.Chart.Direction
import ImportChart.Event
import ImportChart.PathRules
import ImportChart.Text.Blank

/-!
# Settings

What can be asked of a chart, and how the environment asks for it. Each
setting has a variable of its own; one that is unset leaves the default. A
blank pattern leaves it too, and so does a text that names no direction, which
is worth a warning.
-/

namespace ImportChart

open ImportChart.Text

structure Settings where
  pattern : String
  ignore : List String
  ignorePrefix : String
  direction : Direction
  deriving DecidableEq, Repr

/-- The rules of a comma list, trimmed; blank ones are dropped. -/
def ignoreList (text : String) : List String :=
  (((text.toList.splitOn ',').map trim).filter (! ·.isEmpty)).map String.ofList

namespace Settings

/-- Every package under the module. -/
def everyPackage : String := "./..."

protected def default : Settings where
  pattern := everyPackage
  ignore := []
  ignorePrefix := ""
  direction := .default

def pathRules (settings : Settings) : PathRules :=
  .ofTexts settings.ignore settings.ignorePrefix

/-! ## The environment -/

def patternVariable : String := "MODGRAPH_PATTERN"

def ignoreVariable : String := "MODGRAPH_IGNORE"

def ignorePrefixVariable : String := "MODGRAPH_IGNORE_PREFIX"

def directionVariable : String := "MODGRAPH_DIRECTION"

/-- The settings of an environment, given as the value of each variable that is set. -/
def ofVariables (value? : String → Option String) : Settings where
  pattern := ((value? patternVariable).filter fun text => !(trim text.toList).isEmpty).getD
    everyPackage
  ignore := ((value? ignoreVariable).map ignoreList).getD []
  ignorePrefix := (value? ignorePrefixVariable).getD ""
  direction := ((value? directionVariable).bind Direction.ofText?).getD .default

/-- An environment that says nothing leaves every default. -/
theorem ofVariables_none : ofVariables (fun _ => none) = .default := rfl

def warnings (value? : String → Option String) : List String :=
  match value? directionVariable with
  | none => []
  | some text =>
    if (Direction.ofText? text).isSome then []
    else ["Ignoring " ++ directionVariable ++ ": " ++ Direction.invalidMessage text]

/-- What is told while the variables are read. -/
def events (value? : String → Option String) : List Event :=
  (warnings value?).map (⟨.warn, "depgraph::config", ·⟩)

end Settings

end ImportChart
