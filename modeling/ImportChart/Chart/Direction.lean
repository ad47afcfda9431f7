import ImportChart.Text.Blank

/-!
# Directions

Which way a chart grows. Directions are written as two letters in either
case; `TB` is a second spelling of `TD`.
-/

namespace ImportChart

inductive Direction
  | bottomTop
  | topDown
  | leftRight
  | rightLeft
  deriving DecidableEq, Repr

namespace Direction

def code : Direction → String
  | bottomTop => "BT"
  | topDown => "TD"
  | leftRight => "LR"
  | rightLeft => "RL"

/-- The direction that a text names, blanks around it aside. -/
def ofText? (text : String) : Option Direction :=
  match String.ofList ((Text.trim text.toList).map Char.toUpper) with
  | "BT" => some bottomTop
  | "TD" => some topDown
  | "TB" => some topDown
  | "LR" => some leftRight
  | "RL" => some rightLeft
  | _ => none

def invalidMessage (text : String) : String :=
  "invalid direction: " ++ text ++ " (expected BT, TD, TB, LR or RL)"

protected def default : Direction := bottomTop

theorem ofText?_code (direction : Direction) : ofText? direction.code = some direction := by
  cases direction <;> decide

end Direction

end ImportChart
