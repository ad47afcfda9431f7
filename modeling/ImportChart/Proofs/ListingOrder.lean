import ImportChart.Proofs.AlikeTrees

/-!
# Loads and the order of listings

A file system may list the entries of a folder in any order, and in another one
the next time. Nothing of it is left in what a load of a module returns: the
same module, or the same error with the same path and names
(`load_eq_of_relisted`). The order is forgotten in two places, where the sources
of a folder become a set and where the folders are sorted; from there on both
loads read the same files one after the other.
-/

namespace ImportChart

/-! ## Listings in another order -/

namespace FileNode

variable {same : ByteArray → ByteArray → Prop}

/-- Entries with the same names, in the same order, and nodes that are alike. -/
inductive EntriesAlike (same : ByteArray → ByteArray → Prop) :
    List (String × FileNode) → List (String × FileNode) → Prop
  | nil : EntriesAlike same [] []
  | cons {name : String} {node node' : FileNode}
      {entries entries' : List (String × FileNode)} : Alike same node node' →
      EntriesAlike same entries entries' →
      EntriesAlike same ((name, node) :: entries) ((name, node') :: entries')

theorem EntriesAlike.names_eq {entries entries' : List (String × FileNode)}
    (h : EntriesAlike same entries entries') :
    entries.map (·.1) = entries'.map (·.1) := by
  induction h with
  | nil => rfl
  | cons _ _ ih => rw [List.map_cons, List.map_cons, ih]

theorem EntriesAlike.alike {entries entries' : List (String × FileNode)}
    (h : EntriesAlike same entries entries')
    (hnodup : (entries.map (·.1)).Nodup) {name : String} {node node' : FileNode}
    (hentry : (name, node) ∈ entries) (hentry' : (name, node') ∈ entries') :
    Alike same node node' := by
  induction h with
  | nil => cases hentry
  | cons hfirst hrest ih =>
      rw [List.map_cons, List.nodup_cons] at hnodup
      obtain ⟨hfresh, hnodup⟩ := hnodup
      rcases List.mem_cons.mp hentry with heq | hbelow
      · cases heq
        rcases List.mem_cons.mp hentry' with heq' | hbelow'
        · cases heq'
          exact hfirst
        · have hlisted := List.mem_map_of_mem hbelow' (f := (·.1))
          exact absurd (hrest.names_eq ▸ hlisted) hfresh
      · rcases List.mem_cons.mp hentry' with heq' | hbelow'
        · cases heq'
          exact absurd (List.mem_map_of_mem hbelow (f := (·.1))) hfresh
        · exact ih hnodup hbelow hbelow'

/-- A folder may be listed in any order once the folders below it are. -/
theorem Alike.of_perm {entries between entries' : List (String × FileNode)}
    (hnodup : (entries.map (·.1)).Nodup)
    (hbelow : EntriesAlike same entries between)
    (hperm : between.Perm entries') :
    Alike same (.folder entries) (.folder entries') := by
  refine .folder ?_ fun name node node' hentry hentry' => ?_
  · rw [hbelow.names_eq]
    exact hperm.map _
  · exact hbelow.alike hnodup hentry (hperm.mem_iff.mpr hentry')

end FileNode

namespace FileTree

/-- The second tree is the first with its folders listed in other orders, each
in an order of its own. -/
def Relisted (tree tree' : FileTree) : Prop := Alike (· = ·) tree tree'

variable {tree tree' : FileTree} (h : Relisted tree tree')
  (hwell : tree.top.WellFormed)

include h hwell

theorem Relisted.readText_eq (path : String) :
    tree.readText path = tree'.readText path := by
  refine Alike.readText_eq h hwell fun place content _ hfound => ?_
  rcases eq_none_or_exists_of_rel (h.at? hwell place) with
    ⟨hnone, -⟩ | ⟨node, node', hnode, hnode', halike⟩
  · cases hnone.symm.trans hfound
  · cases hnode.symm.trans hfound
    cases halike with
    | file hcontent => rw [hnode', hcontent]

end FileTree

namespace Module

open FileTree

/-- A load returns the same module or the same error, in whatever order the
folders of the tree are listed. -/
theorem load_eq_of_relisted {tree tree' : FileTree}
    (hwell : tree.top.WellFormed) (h : Relisted tree tree')
    (root pattern : String) :
    load tree root pattern = load tree' root pattern := by
  have hread := h.readText_eq hwell
  refine load_eq_of_readText h hwell (fun _ _ => hread _) ?_
  intros
  exact hread _

/-- A module with more than one fault: the sources of its root name different
packages, and two files below have no package clause. -/
def faultyTree : FileTree where
  top := .folder [
    ("m", .folder [
      ("b.go", .file "package b".toUTF8),
      ("sub", .folder [("d.go", .file "".toUTF8), ("c.go", .link "d.go")]),
      ("go.mod", .file "module x/m".toUTF8),
      ("a.go", .file "package a".toUTF8)])]
  working := []

/-- The same tree as it may be listed another time. -/
def relistedFaultyTree : FileTree where
  top := .folder [
    ("m", .folder [
      ("sub", .folder [("c.go", .link "d.go"), ("d.go", .file "".toUTF8)]),
      ("go.mod", .file "module x/m".toUTF8),
      ("a.go", .file "package a".toUTF8),
      ("b.go", .file "package b".toUTF8)])]
  working := []

theorem wellFormed_faultyTree : faultyTree.top.WellFormed := by
  decide

theorem relisted_faultyTree : Relisted faultyTree relistedFaultyTree := by
  have hsub : FileNode.Alike (· = ·)
      (.folder [("d.go", .file "".toUTF8), ("c.go", .link "d.go")])
      (.folder [("c.go", .link "d.go"), ("d.go", .file "".toUTF8)]) :=
    .of_perm (by decide) (.cons (.file rfl) (.cons (.link _) .nil))
      (.swap _ _ _)
  refine ⟨rfl, .of_perm (by decide) ?_ (.refl _)⟩
  refine .cons (.of_perm (by decide) (.cons (.file rfl) (.cons hsub
    (.cons (.file rfl) (.cons (.file rfl) .nil)))) ?_) .nil
  exact (List.perm_append_singleton _ _).symm

theorem load_faultyTree :
    load faultyTree "m" "./..." = .error (.mixedPackages "m" "a" "b") := by
  decide +kernel

theorem load_eq_of_relisted_faultyTree :
    faultyTree.top.WellFormed ∧ Relisted faultyTree relistedFaultyTree
      ∧ load faultyTree "m" "./..." = load relistedFaultyTree "m" "./..."
      ∧ load relistedFaultyTree "m" "./..."
        = .error (.mixedPackages "m" "a" "b") := by
  have hsame := load_eq_of_relisted wellFormed_faultyTree relisted_faultyTree
    "m" "./..."
  exact ⟨wellFormed_faultyTree, relisted_faultyTree, hsame,
    hsame ▸ load_faultyTree⟩

end Module

end ImportChart
