import ImportChart.Proofs.LoadedModule
import ImportChart.Proofs.PatternLiterals

/-!
# Narrowed patterns

A pattern decides which folders of a module are read, and about nothing else. So
if one pattern selects no folder that another does not select, and the module
loads with the wider one, it loads with the narrower one too, and holds those of
the packages that the narrower one selects, each as it was and in the same order
(`load_of_narrower`). Each of the stages commutes with leaving folders out: the
folders are filtered before they are read, the runs on the folders that are kept
are the same runs (`filterMapM_filter`), and so is the order in the end
(`Sorting.filter_sort`).
-/

namespace ImportChart.Module

open FileTree

/-- `path` is the import path of a folder of the module at `root`, and the
folder has sources. -/
inductive Collects (tree : FileTree) (root modulePath : String) : String → Prop
  | mk {links : Nat} {base names : List String}
      {entries found : List (String × FileNode)} {name : String} :
      Leads tree root links base →
      tree.top.at? base = some (.folder entries) →
      ModuleFolder tree links base entries names found →
      IsSource tree links (base ++ names) found name →
      Collects tree root modulePath (importPath modulePath names)

theorem collects_of_mem_sourceFolders {tree : FileTree}
    {root modulePath : String} {entries : List (String × FileNode)}
    (hwell : tree.top.WellFormed) (hroot : tree.entries? root = some entries)
    {folder : SourceFolder} (h : folder ∈ sourceFolders tree root entries) :
    Collects tree root modulePath (folder.importPath modulePath) := by
  obtain ⟨base, links, hleads, hat⟩ := exists_leads_of_entries? hroot
  have hbase := hwell.at? hat
  obtain ⟨names, found, hmodule, hsome, rfl⟩ :=
    (mem_sourceFolders hleads hat hbase).mp h
  obtain ⟨hfound, hfoundWell⟩ := hmodule.at? hat hbase
  obtain ⟨name, hname⟩ := List.exists_mem_of_ne_nil _ hsome
  have hsource :=
    (mem_sourcesOf (hmodule.leads hat hbase hleads) hfound hfoundWell).mp hname
  exact Collects.mk hleads hat hmodule hsource

/-- What is loaded of the folders with a narrower pattern. -/
theorem loadFolders_of_narrower {tree : FileTree} {modulePath : String}
    {narrow wide : Pattern} {folders : List SourceFolder}
    {packages : List Package}
    (h : loadFolders tree modulePath wide folders = .ok packages)
    (hnarrow : ∀ folder ∈ folders,
      narrow.selects (folder.importPath modulePath) = true →
      wide.selects (folder.importPath modulePath) = true) :
    loadFolders tree modulePath narrow folders
      = .ok (packages.filter fun package => narrow.selects package.path) := by
  have hfolders :
      (folders.filter fun folder =>
        narrow.selects (folder.importPath modulePath))
      = (folders.filter fun folder =>
          wide.selects (folder.importPath modulePath)).filter fun folder =>
            narrow.selects (folder.importPath modulePath) := by
    rw [List.filter_filter]
    refine List.filter_congr fun folder hfolder => ?_
    rw [Bool.eq_iff_iff, Bool.and_eq_true]
    exact ⟨fun hselects => ⟨hselects, hnarrow folder hfolder hselects⟩,
      And.left⟩
  rw [loadFolders, hfolders]
  refine filterMapM_filter h fun folder _ package hload => ?_
  rw [path_of_loadFolder hload]

/-- A pattern that selects less loads less and nothing else: no package changes
or moves, none is added, and no error comes up. -/
theorem load_of_narrower {tree : FileTree} {root narrow wide : String}
    {loaded : Loaded} (hwell : tree.top.WellFormed)
    (h : load tree root wide = .ok loaded)
    (hnarrow : ∀ path, Collects tree root loaded.path path →
      (Pattern.ofText loaded.path narrow).selects path = true →
      (Pattern.ofText loaded.path wide).selects path = true) :
    load tree root narrow = .ok
      { path := loaded.path
        packages := loaded.packages.filter fun package =>
          (Pattern.ofText loaded.path narrow).selects package.path } := by
  unfold load at h ⊢
  cases hroot : tree.entries? root with
  | none =>
      rw [hroot] at h
      cases h
  | some entries =>
      rw [hroot] at h
      obtain ⟨modulePath, hpath, hrest⟩ := bind_eq_ok_iff.mp h
      obtain ⟨packages, hpackages, hloaded⟩ := bind_eq_ok_iff.mp hrest
      cases hloaded
      have hnarrowed := loadFolders_of_narrower hpackages fun folder hfolder =>
        hnarrow _ (collects_of_mem_sourceFolders hwell hroot hfolder)
      refine bind_eq_ok_iff.mpr ⟨modulePath, hpath, ?_⟩
      refine bind_eq_ok_iff.mpr ⟨_, hnarrowed, ?_⟩
      rw [Sorting.filter_sort path_le_total path_le_trans]
      rfl

/-- A module with a fault in `b`, so that it cannot be loaded as a whole. -/
def partlyFaultyTree : FileTree where
  top := .folder [
    ("m", .folder [
      ("b", .folder [("b.go", .file "".toUTF8)]),
      ("a", .folder [
        ("c", .folder [("c.go", .file "package main".toUTF8)]),
        ("a.go", .file "package a\nimport \"x/m/a/c\"".toUTF8)]),
      ("go.mod", .file "module x/m".toUTF8)])]
  working := []

theorem wellFormed_partlyFaultyTree : partlyFaultyTree.top.WellFormed := by
  decide

/-- What its folder `a` holds, with everything below it. -/
def soundPart : Loaded where
  path := "x/m"
  packages :=
    [⟨"x/m/a", false, .ofList ["x/m/a/c"]⟩, ⟨"x/m/a/c", true, .ofList []⟩]

theorem load_partlyFaultyTree :
    load partlyFaultyTree "m" "./a/..." = .ok soundPart := by
  decide +kernel

/-- The pattern `./a/c` selects the one path. -/
theorem eq_of_selects_single {path : String}
    (h : (Pattern.ofText "x/m" "./a/c").selects path = true) :
    path = "x/m/a/c" := by
  have hpieces : (Pattern.ofText "x/m" "./a/c").pieces
      = "x/m/a/c".toList.map Piece.letter := by decide
  rw [Pattern.selects_iff_matches, hpieces, Pattern.matches_letters_iff] at h
  exact String.toList_inj.mp h

theorem load_of_narrower_partlyFaultyTree :
    partlyFaultyTree.top.WellFormed
      ∧ load partlyFaultyTree "m" "./a/..." = .ok soundPart
      ∧ load partlyFaultyTree "m" "./a/c"
        = .ok ⟨"x/m", [⟨"x/m/a/c", true, .ofList []⟩]⟩ := by
  have hselects : ∀ path, Collects partlyFaultyTree "m" "x/m" path →
      (Pattern.ofText "x/m" "./a/c").selects path = true →
      (Pattern.ofText "x/m" "./a/...").selects path = true := by
    intro path _ hpath
    rw [eq_of_selects_single hpath]
    decide
  have hnarrow := load_of_narrower wellFormed_partlyFaultyTree
    load_partlyFaultyTree hselects
  refine ⟨wellFormed_partlyFaultyTree, load_partlyFaultyTree, hnarrow.trans ?_⟩
  decide +kernel

end ImportChart.Module
