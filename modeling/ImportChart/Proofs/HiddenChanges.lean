import Mathlib.Logic.Relation
import ImportChart.Chart.Json
import ImportChart.Proofs.MermaidText

/-!
# What is left out leaves no trace

A list of packages can be changed in ways that a chart should not show: it can
be reordered, packages can be repeated, and packages and imports can come and go
that the rules leave out or that lie outside the module (`HiddenChange`). Two
lists that such changes lead between have one chart, label for label, and so the
same texts.

What a chart shows of a list is that some package of the list is kept and is so
and so, for facts that rest on the path, the kind and the drawn imports of the
package. No hidden change touches such a fact (`exists_kept_of_hiddenChange`). So
nothing has to be followed through the building of the graph or the giving out
of labels: the nodes and the edges by name are the same, and they determine the
chart.
-/

namespace ImportChart

/-! ## Changes that a chart does not show -/

/-- Two packages that differ at most in imports that are not drawn. -/
structure Package.LooksLike (modulePath : String) (rules : PathRules)
    (package other : Package) : Prop where
  path : package.path = other.path
  isEntryPoint : package.isEntryPoint = other.isEntryPoint
  imports : ∀ path, Graph.IsDrawn modulePath rules path →
    (path ∈ package.imports ↔ path ∈ other.imports)

/-- One change of a list of packages that the chart does not show. -/
inductive HiddenChange (modulePath : String) (rules : PathRules) :
    List Package → List Package → Prop
  | reorder {packages packages' : List Package} : packages.Perm packages' →
      HiddenChange modulePath rules packages packages'
  | again {package : Package} {packages : List Package} : package ∈ packages →
      HiddenChange modulePath rules packages (package :: packages)
  | leftOut {package : Package} {packages : List Package} :
      ¬rules.Keeps package.path →
      HiddenChange modulePath rules packages (package :: packages)
  | imports {package package' : Package} {before after : List Package} :
      package.LooksLike modulePath rules package' →
      HiddenChange modulePath rules (before ++ package :: after)
        (before ++ package' :: after)

/-- The lists are led from one to the other by hidden changes, each made or
undone. -/
def SameShown (modulePath : String) (rules : PathRules) :
    List Package → List Package → Prop :=
  Relation.EqvGen (HiddenChange modulePath rules)

section

variable {modulePath : String} {rules : PathRules}
  {packages packages' : List Package}

theorem Package.LooksLike.symm {package other : Package}
    (h : package.LooksLike modulePath rules other) :
    other.LooksLike modulePath rules package :=
  ⟨h.path.symm, h.isEntryPoint.symm, fun path hpath => (h.imports path hpath).symm⟩

/-- An import that is not drawn can come to any package, or go when the change is
undone. -/
theorem HiddenChange.insert_import (before : List Package) (package : Package)
    (after : List Package) {path : String}
    (h : ¬Graph.IsDrawn modulePath rules path) :
    HiddenChange modulePath rules (before ++ package :: after)
      (before ++ { package with imports := package.imports.insert path }
        :: after) := by
  refine .imports ⟨rfl, rfl, fun drawn hdrawn => ?_⟩
  have hne : drawn ≠ path := fun heq => h (heq ▸ hdrawn)
  simp [hne]

/-! ## What the changes leave alone -/

/-- The step: a fact about some kept package is not touched by a hidden change,
if packages that look alike agree in it. -/
theorem exists_kept_of_hiddenChange {P : Package → Prop}
    (hP : ∀ {package other : Package}, package.LooksLike modulePath rules other →
      P package → P other)
    (h : HiddenChange modulePath rules packages packages') :
    (∃ package ∈ packages, rules.Keeps package.path ∧ P package)
      ↔ ∃ package ∈ packages', rules.Keeps package.path ∧ P package := by
  cases h with
  | reorder hperm => simp only [hperm.mem_iff]
  | again hmem =>
      simp only [List.mem_cons, exists_eq_or_imp]
      exact (or_iff_right_of_imp fun hfirst => ⟨_, hmem, hfirst⟩).symm
  | leftOut hkeeps => simp [hkeeps]
  | @imports package package' before after hlooks =>
      have hsame : (rules.Keeps package.path ∧ P package)
          ↔ rules.Keeps package'.path ∧ P package' := by
        rw [hlooks.path]
        exact and_congr_right fun _ => ⟨hP hlooks, hP hlooks.symm⟩
      simp only [List.mem_append, List.mem_cons, or_and_right, exists_or,
        exists_eq_left, hsame]

/-- The run: hidden changes in any number and order. -/
theorem SameShown.exists_kept {P : Package → Prop}
    (hP : ∀ {package other : Package}, package.LooksLike modulePath rules other →
      P package → P other)
    (h : SameShown modulePath rules packages packages') :
    (∃ package ∈ packages, rules.Keeps package.path ∧ P package)
      ↔ ∃ package ∈ packages', rules.Keeps package.path ∧ P package := by
  induction h with
  | rel _ _ hstep => exact exists_kept_of_hiddenChange hP hstep
  | refl _ => exact Iff.rfl
  | symm _ _ _ ih => exact ih.symm
  | trans _ _ _ _ _ ih ih' => exact ih.trans ih'

theorem Package.LooksLike.isKey {package other : Package} {key : String}
    (h : package.LooksLike modulePath rules other)
    (hkey : Graph.IsKey rules package key) : Graph.IsKey rules other key := by
  rw [Graph.isKey_iff, Graph.nodeName] at hkey ⊢
  rwa [← h.path, ← h.isEntryPoint]

theorem Package.LooksLike.exists_drawn {package other : Package} {name : String}
    (h : package.LooksLike modulePath rules other)
    (himport : ∃ path ∈ package.imports, Graph.IsDrawn modulePath rules path
      ∧ rules.IsShort path name) :
    ∃ path ∈ other.imports, Graph.IsDrawn modulePath rules path
      ∧ rules.IsShort path name := by
  obtain ⟨path, hpath, hdrawn, hshort⟩ := himport
  exact ⟨path, (h.imports path hdrawn).mp hpath, hdrawn, hshort⟩

/-! ## The chart -/

theorem SameShown.hasNode_iff (h : SameShown modulePath rules packages packages')
    (name : String) :
    Chart.HasNode modulePath rules packages name
      ↔ Chart.HasNode modulePath rules packages' name :=
  h.exists_kept fun hlooks => Or.imp hlooks.isKey hlooks.exists_drawn

theorem SameShown.hasEdge_iff (h : SameShown modulePath rules packages packages')
    (source target : String) :
    Chart.HasEdge modulePath rules packages source target
      ↔ Chart.HasEdge modulePath rules packages' source target :=
  h.exists_kept fun hlooks => And.imp hlooks.isKey hlooks.exists_drawn

theorem SameShown.ofGraph_eq (h : SameShown modulePath rules packages packages') :
    Chart.ofGraph (Graph.ofPackages modulePath rules packages)
      = Chart.ofGraph (Graph.ofPackages modulePath rules packages') := by
  refine Chart.ofGraph_eq_iff.mpr ⟨fun ⟨target, source⟩ => ?_, fun name => ?_⟩
  · rw [Chart.mem_edges_ofPackages_iff, Chart.mem_edges_ofPackages_iff,
      h.hasEdge_iff]
  · rw [Chart.mem_nodes_ofPackages_iff, Chart.mem_nodes_ofPackages_iff,
      h.hasNode_iff]

/-- Hidden changes alter no character of either text, and no name gets another
label. -/
theorem texts_eq_of_sameShown (h : SameShown modulePath rules packages packages')
    (direction : Direction) :
    (Chart.ofGraph (.ofPackages modulePath rules packages)).mermaid direction
        = (Chart.ofGraph (.ofPackages modulePath rules packages')).mermaid direction
      ∧ (Chart.ofGraph (.ofPackages modulePath rules packages)).json
        = (Chart.ofGraph (.ofPackages modulePath rules packages')).json
      ∧ ∀ name, (Chart.ofGraph (.ofPackages modulePath rules packages)).node? name
        = (Chart.ofGraph (.ofPackages modulePath rules packages')).node? name := by
  rw [h.ofGraph_eq]
  exact ⟨rfl, rfl, fun _ => rfl⟩

end

def mockRules : PathRules := .ofTexts ["mock"] "x/"

def fewPackages : List Package :=
  [⟨"x/m", true, .ofList ["x/m/a"]⟩, ⟨"x/m/a", false, .empty⟩]

/-- The same packages with an import from outside, a package and its import that
a rule leaves out, one package twice, and all in another order. -/
def crowdedPackages : List Package :=
  [⟨"x/m/mock", false, .ofList ["x/m/a"]⟩, ⟨"x/m", true, .ofList ["x/m/a"]⟩,
    ⟨"x/m/a", false, .ofList ["fmt", "x/m/mock"]⟩,
    ⟨"x/m", true, .ofList ["x/m/a"]⟩]

theorem sameShown_crowdedPackages :
    SameShown "x/m" mockRules fewPackages crowdedPackages := by
  have hhidden : ∀ {path : String}, Graph.draws "x/m" mockRules path = false →
      ¬Graph.IsDrawn "x/m" mockRules path := by
    intro path h hdrawn
    rw [Graph.draws_iff.mpr hdrawn] at h
    cases h
  have hfmt : ¬Graph.IsDrawn "x/m" mockRules "fmt" := hhidden (by decide)
  have hmock : ¬Graph.IsDrawn "x/m" mockRules "x/m/mock" := hhidden (by decide)
  have hleftOut : ¬mockRules.Keeps "x/m/mock" := fun h =>
    absurd (PathRules.excludes_eq_false_iff.mpr h) (by decide)
  refine .trans _ _ _ (.rel _ _ (.reorder (.swap ..))) ?_
  refine .trans _ _ _ (.rel _ _ (.insert_import [] _ _ hfmt)) ?_
  refine .trans _ _ _ (.rel _ _ (.insert_import [] _ _ hmock)) ?_
  refine .trans _ _ _ (.rel _ _ (.again (.tail _ (.head _)))) ?_
  exact .rel _ _ (.leftOut hleftOut)

theorem texts_eq_of_sameShown_crowdedPackages :
    SameShown "x/m" mockRules fewPackages crowdedPackages
      ∧ (Chart.ofGraph (.ofPackages "x/m" mockRules fewPackages)).mermaid .leftRight
        = (Chart.ofGraph (.ofPackages "x/m" mockRules crowdedPackages)).mermaid
          .leftRight
      ∧ (Chart.ofGraph (.ofPackages "x/m" mockRules fewPackages)).json
        = (Chart.ofGraph (.ofPackages "x/m" mockRules crowdedPackages)).json
      ∧ ∀ name, (Chart.ofGraph (.ofPackages "x/m" mockRules fewPackages)).node? name
        = (Chart.ofGraph (.ofPackages "x/m" mockRules crowdedPackages)).node? name :=
  ⟨sameShown_crowdedPackages,
    texts_eq_of_sameShown sameShown_crowdedPackages .leftRight⟩

end ImportChart
