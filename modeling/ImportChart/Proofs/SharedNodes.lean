import ImportChart.Proofs.GraphContents
import ImportChart.Proofs.LoadedModule
import Mathlib.Data.List.Basic
import Mathlib.Data.List.Pairwise

/-!
# Packages that share a node

A package is drawn under its path, an entry point under its path and a mark.
The mark can be the name of a folder too, so an entry point and the package in
its folder `MAIN` may be drawn as one node; nothing else is
(`nodeName_eq_iff`). In the graph of packages with paths of their own each node
that imports stands for one package, or for one such pair
(`length_importers_ofPackages`), and the packages of a loaded module have paths
of their own (`ascending_of_load`).
-/

namespace ImportChart

namespace Graph

/-- The name under which the entry point `entry` is drawn is the path of
`other`, which is drawn under its path. -/
def Overlays (entry other : Package) : Prop :=
  entry.isEntryPoint = true ∧ other.isEntryPoint = false
    ∧ other.path = entry.path ++ entryMark

instance (entry other : Package) : Decidable (Overlays entry other) :=
  inferInstanceAs (Decidable (_ ∧ _))

/-- The packages that no rule leaves out. -/
def keptPackages (rules : PathRules) (packages : List Package) : List Package :=
  packages.filter fun package => !rules.excludes package.path

/-- Some entry point among the packages is drawn under the path of `other`. -/
def isOverlaid (packages : List Package) (other : Package) : Bool :=
  packages.any fun entry => decide (Overlays entry other)

/-- The packages under whose paths entry points among them are drawn. -/
def overlaid (packages : List Package) : List Package :=
  packages.filter (isOverlaid packages)

theorem mem_keptPackages {rules : PathRules} {packages : List Package}
    {package : Package} :
    package ∈ keptPackages rules packages
      ↔ package ∈ packages ∧ rules.excludes package.path = false := by
  rw [keptPackages, List.mem_filter, Bool.not_eq_true']

theorem isOverlaid_iff {packages : List Package} {other : Package} :
    isOverlaid packages other = true
      ↔ ∃ entry ∈ packages, Overlays entry other := by
  simp only [isOverlaid, List.any_eq_true, decide_eq_true_eq]

/-! ## Two packages -/

section

variable {rules : PathRules} {packages : List Package}

theorem nodeName_of_removed_eq_empty (hrules : rules.removed = "")
    (package : Package) :
    nodeName rules package
      = package.path ++ if package.isEntryPoint then entryMark else "" := by
  rw [nodeName, PathRules.shorten_of_removed_eq_empty hrules]

theorem nodeName_eq_of_overlays (hrules : rules.removed = "")
    {entry other : Package} (h : Overlays entry other) :
    nodeName rules entry = nodeName rules other := by
  obtain ⟨hentry, hother, hpath⟩ := h
  simp [nodeName_of_removed_eq_empty hrules, hentry, hother, hpath]

/-- Packages with different paths are drawn as one node only if one overlays
the other. -/
theorem nodeName_eq_iff (hrules : rules.removed = "") {a b : Package}
    (hpaths : a.path ≠ b.path) :
    nodeName rules a = nodeName rules b ↔ Overlays a b ∨ Overlays b a := by
  constructor
  · intro h
    rw [nodeName_of_removed_eq_empty hrules,
      nodeName_of_removed_eq_empty hrules] at h
    cases ha : a.isEntryPoint <;> cases hb : b.isEntryPoint <;>
      rw [ha, hb] at h
    case false.false => simp [hpaths] at h
    case false.true => exact Or.inr ⟨hb, ha, by simpa using h⟩
    case true.false => exact Or.inl ⟨ha, hb, by simpa using h.symm⟩
    case true.true => simp [hpaths] at h
  · rintro (h | h)
    · exact nodeName_eq_of_overlays hrules h
    · exact (nodeName_eq_of_overlays hrules h).symm

/-! ## All packages -/

/-- What overlays another package is not overlaid itself. -/
theorem isOverlaid_eq_false_of_overlays {entry other : Package}
    (h : Overlays entry other) : isOverlaid packages entry = false := by
  refine Bool.eq_false_iff.mpr fun hentry => ?_
  obtain ⟨-, -, -, hnot, -⟩ := isOverlaid_iff.mp hentry
  rw [h.1] at hnot
  cases hnot

/-- The names of packages that are not overlaid are distinct. -/
theorem nodup_nodeNames (hrules : rules.removed = "")
    (hpaths : packages.Pairwise fun a b => a.path ≠ b.path) :
    ((packages.filter (!isOverlaid packages ·)).map (nodeName rules)).Nodup := by
  rw [List.nodup_iff_pairwise_ne, List.pairwise_map]
  refine (hpaths.filter _).imp_of_mem ?_
  intro a b ha hb hne heq
  rw [List.mem_filter, Bool.not_eq_true', Bool.eq_false_iff] at ha hb
  rcases (nodeName_eq_iff hrules hne).mp heq with h | h
  · exact hb.2 (isOverlaid_iff.mpr ⟨a, ha.1, h⟩)
  · exact ha.2 (isOverlaid_iff.mpr ⟨b, hb.1, h⟩)

/-- A package that is overlaid brings no name of its own. -/
theorem mem_nodeNames (hrules : rules.removed = "") {name : String} :
    name ∈ (packages.filter (!isOverlaid packages ·)).map (nodeName rules)
      ↔ ∃ package ∈ packages, name = nodeName rules package := by
  simp only [List.mem_map, List.mem_filter, Bool.not_eq_true']
  constructor
  · rintro ⟨package, ⟨hpackage, -⟩, rfl⟩
    exact ⟨package, hpackage, rfl⟩
  · rintro ⟨package, hpackage, rfl⟩
    cases hover : isOverlaid packages package with
    | false => exact ⟨package, ⟨hpackage, hover⟩, rfl⟩
    | true =>
        obtain ⟨entry, hentry, hoverlays⟩ := isOverlaid_iff.mp hover
        exact ⟨entry, ⟨hentry, isOverlaid_eq_false_of_overlays hoverlays⟩,
          nodeName_eq_of_overlays hrules hoverlays⟩

/-- Each importer of a graph is one package, or an entry point and the package
that it overlays. -/
theorem length_importers_ofPackages (hrules : rules.removed = "")
    (hpaths : packages.Pairwise fun a b => a.path ≠ b.path)
    (modulePath : String) :
    (ofPackages modulePath rules packages).importers.length
        + (overlaid (keptPackages rules packages)).length
      = (keptPackages rules packages).length := by
  let kept := keptPackages rules packages
  have hkept : kept.Pairwise fun a b => a.path ≠ b.path := hpaths.filter _
  have hmem : ∀ name, name ∈ (ofPackages modulePath rules packages).importers
      ↔ ∃ package ∈ kept, name = nodeName rules package := by
    intro name
    simp only [mem_importers_ofPackages, Brings, kept, mem_keptPackages,
      and_assoc]
  have hperm : (ofPackages modulePath rules packages).importers.Perm
      ((kept.filter (!isOverlaid kept ·)).map (nodeName rules)) :=
    (List.perm_ext_iff_of_nodup ((pairwise_importers _).imp Std.ne_of_lt)
      (nodup_nodeNames hrules hkept)).mpr fun name =>
        (hmem name).trans (mem_nodeNames hrules).symm
  have hsplit := List.length_eq_countP_add_countP (isOverlaid kept) (l := kept)
  simp only [Bool.not_eq_true, Bool.decide_eq_false] at hsplit
  rw [hperm.length_eq, List.length_map, overlaid, ← List.countP_eq_length_filter,
    ← List.countP_eq_length_filter, Nat.add_comm]
  exact hsplit.symm

end

end Graph

namespace Module

theorem ascending_of_load {tree : FileTree} {root pattern : String}
    {loaded : Loaded} (hwell : tree.top.WellFormed)
    (h : load tree root pattern = .ok loaded) :
    loaded.packages.Pairwise fun a b => a.path < b.path := by
  cases hroot : tree.entries? root with
  | none =>
      rw [load, hroot] at h
      cases h
  | some entries =>
      obtain ⟨base, links, hleads, hat⟩ := FileTree.exists_leads_of_entries? hroot
      exact (holds_of_leads hwell hleads hat h).ascending

open ImportChart.Graph in
/-- Two packages of a loaded module that no rule leaves out are drawn as one
node if and only if one is an entry point and the other is none and has the path
of the first with the mark. By each such pair, and by nothing else, the nodes
that import are fewer than the packages. -/
theorem nodeName_eq_iff_of_load {tree : FileTree} {root pattern : String}
    {loaded : Loaded} (hwell : tree.top.WellFormed)
    (h : load tree root pattern = .ok loaded) (ignore : List String) :
    let rules := PathRules.ofTexts ignore ""
    let kept := keptPackages rules loaded.packages
    (∀ a ∈ kept, ∀ b ∈ kept, a ≠ b →
        (nodeName rules a = nodeName rules b ↔ Overlays a b ∨ Overlays b a))
      ∧ (ofPackages loaded.path rules loaded.packages).importers.length
          + (overlaid kept).length
        = kept.length := by
  intro rules kept
  have hpaths : loaded.packages.Pairwise fun a b => a.path ≠ b.path :=
    (ascending_of_load hwell h).imp Std.ne_of_lt
  refine ⟨fun a ha b hb hne => ?_,
    length_importers_ofPackages rfl hpaths loaded.path⟩
  have hkept : kept.Pairwise fun a b => a.path ≠ b.path := hpaths.filter _
  have hsymm : Std.Symm fun a b : Package => a.path ≠ b.path :=
    ⟨fun _ _ => Ne.symm⟩
  exact nodeName_eq_iff rfl (hkept.forall ha hb hne)

/-- A module with an entry point and a library in its folder `MAIN`, and with
one more entry point. -/
def markedTree : FileTree where
  top := .folder [
    ("m", .folder [
      ("go.mod", .file "module x/m".toUTF8),
      ("main.go", .file "package main".toUTF8),
      ("MAIN", .folder [("lib.go", .file "package lib".toUTF8)]),
      ("cmd", .folder [("cmd.go", .file "package main".toUTF8)])])]
  working := []

def markedModule : Loaded where
  path := "x/m"
  packages :=
    [⟨"x/m", true, .empty⟩, ⟨"x/m/MAIN", false, .empty⟩,
      ⟨"x/m/cmd", true, .empty⟩]

theorem wellFormed_markedTree : markedTree.top.WellFormed := by
  decide

theorem load_markedTree : load markedTree "m" "./..." = .ok markedModule := by
  decide +kernel

open ImportChart.Graph in
theorem nodeName_eq_iff_of_load_markedTree :
    markedTree.top.WellFormed
      ∧ load markedTree "m" "./..." = .ok markedModule
      ∧ let rules := PathRules.ofTexts ["vendor", "/cmd"] ""
        let kept := keptPackages rules markedModule.packages
        (∀ a ∈ kept, ∀ b ∈ kept, a ≠ b →
            (nodeName rules a = nodeName rules b
              ↔ Overlays a b ∨ Overlays b a))
          ∧ (ofPackages "x/m" rules markedModule.packages).importers.length
              + (overlaid kept).length
            = kept.length :=
  ⟨wellFormed_markedTree, load_markedTree,
    nodeName_eq_iff_of_load wellFormed_markedTree load_markedTree
      ["vendor", "/cmd"]⟩

open ImportChart.Graph in
/-- An entry point and the library in its folder `MAIN` are drawn as one
node. -/
theorem nodeName_eq_of_ne_markedTree :
    load markedTree "m" "./..." = .ok markedModule
      ∧ let rules := PathRules.ofTexts [] ""
        let kept := keptPackages rules markedModule.packages
        (∃ a ∈ kept, ∃ b ∈ kept, a ≠ b ∧ nodeName rules a = nodeName rules b)
          ∧ (ofPackages "x/m" rules markedModule.packages).importers
            = ["x/m/MAIN", "x/m/cmd/MAIN"]
          ∧ kept.length = 3 := by
  exact ⟨load_markedTree, by decide +kernel⟩

end Module

end ImportChart
