import ImportChart.Graph
import ImportChart.Proofs.LeftmostCut

/-!
# What path rules mean

The rules say which paths a chart leaves out and what a name on the chart is.
Here both are said of texts as they stand, without a search: a text is kept
when no excluded text is one of its runs, and a short name is a path from
which the leftmost occurrence of one text is cut out, once. What a graph does
to paths is then these relations (`excludes_eq_false_iff`, `isShort_iff`,
`draws_iff`, `isKey_iff`).
-/

namespace ImportChart

namespace PathRules

/-! ## Paths under the rules -/

/-- No rule leaves the path out. -/
def Keeps (rules : PathRules) (path : String) : Prop :=
  ∀ text ∈ rules.excluded, ¬text.toList <:+: path.toList

/-- `name` is the path without the leftmost occurrence of the removed text. -/
def IsShort (rules : PathRules) (path name : String) : Prop :=
  Text.CutOut rules.removed.toList path.toList name.toList

theorem excludes_eq_false_iff {rules : PathRules} {path : String} :
    rules.excludes path = false ↔ rules.Keeps path := by
  rw [Bool.eq_false_iff, ne_eq, excludes_iff, Keeps]
  simp only [not_exists, not_and]

theorem isShort_iff {rules : PathRules} {path name : String} :
    rules.IsShort path name ↔ name = rules.shorten path := by
  rw [IsShort, Text.cutOut_iff, shorten]
  constructor
  · intro h
    rw [← h, String.ofList_toList]
  · rintro rfl
    exact String.toList_ofList

end PathRules

namespace Graph

/-! ## Packages and imports under the rules -/

/-- An import within the module that no rule leaves out. -/
def IsDrawn (modulePath : String) (rules : PathRules) (path : String) : Prop :=
  rules.Keeps path ∧ modulePath.toList <:+: path.toList

/-- `key` is the name under which a package imports: its short name, marked if
the package is an entry point. -/
def IsKey (rules : PathRules) (package : Package) (key : String) : Prop :=
  ∃ name, rules.IsShort package.path name
    ∧ key = if package.isEntryPoint then name ++ "/MAIN" else name

theorem draws_iff {modulePath : String} {rules : PathRules} {path : String} :
    draws modulePath rules path = true ↔ IsDrawn modulePath rules path := by
  rw [draws, Bool.and_eq_true, Bool.not_eq_true',
    PathRules.excludes_eq_false_iff, Text.contains_iff, IsDrawn]

theorem isKey_iff {rules : PathRules} {package : Package} {key : String} :
    IsKey rules package key ↔ key = nodeName rules package := by
  simp only [IsKey, PathRules.isShort_iff, exists_eq_left, nodeName, entryMark]
  cases package.isEntryPoint <;> simp

end Graph

end ImportChart
