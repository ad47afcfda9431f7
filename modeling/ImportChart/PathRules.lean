import ImportChart.Text.Search

/-!
# Path rules

Which paths a chart leaves out, and how it shortens the names of the others.
A path is left out when it contains one of the rules anywhere; a name loses
the leftmost occurrence of one text, wherever that stands.
-/

namespace ImportChart

open ImportChart.Text

structure PathRules where
  /-- The texts that a path may not contain. -/
  excluded : List String
  /-- What to remove from each name; nothing if it is empty. -/
  removed : String
  /-- An empty text would leave out every path. -/
  excluded_ne_empty : "" ∉ excluded

namespace PathRules

/-- The rules with those texts that are not empty. -/
def ofTexts (excluded : List String) (removed : String) : PathRules where
  excluded := excluded.filter (· != "")
  removed := removed
  excluded_ne_empty := by simp

def excludes (rules : PathRules) (path : String) : Bool :=
  rules.excluded.any fun text => contains text.toList path.toList

def shorten (rules : PathRules) (path : String) : String :=
  String.ofList (removeFirst rules.removed.toList path.toList)

/-! ## Small facts -/

theorem excludes_iff {rules : PathRules} {path : String} :
    rules.excludes path = true ↔ ∃ text ∈ rules.excluded, text.toList <:+: path.toList := by
  simp [excludes, contains_iff]

/-- With nothing to remove a name is the whole path. -/
theorem shorten_of_removed_eq_empty {rules : PathRules} (h : rules.removed = "")
    (path : String) : rules.shorten path = path := by
  have : removeFirst [] path.toList = path.toList := by
    cases path.toList <;> simp [removeFirst, cutAt?, afterHead?]
  simp [shorten, h, this]

end PathRules

end ImportChart
