import ImportChart.Proofs.FirstFault
import ImportChart.Proofs.ListingOrder

/-!
# Files that a load does not read

A load comes upon many files and reads few of them: the one to which `go.mod`
leads in the root, and those to which the sources of the selected folders lead
(`ReadFrom`). All that it does with others is to see that they are there. So of
two trees with the same names, kinds of entries and links the same module is
loaded, or the same error comes up, as soon as these few files have the same
content (`load_eq_of_sameShape`). What tests hold, or folders that are passed
over, or modules within the module, or packages that the pattern does not
select, need not even be text.
-/

namespace ImportChart

/-- In both trees the same names, kinds of entries and links stand in the same
places. -/
def FileTree.SameShape (tree tree' : FileTree) : Prop :=
  Alike (fun _ _ => True) tree tree'

namespace Module

open FileTree

/-- `ReadFrom tree root pattern place`: a load of the module at `root` reads the
file at the location `place`, to which `go.mod` or a source of a selected folder
leads. -/
inductive ReadFrom (tree : FileTree) (root pattern : String) :
    List String → Prop
  | moduleFile {place : List String} (folder : RootFolder tree root) :
      tree.walk .reading folder.links folder.base ["go.mod"]
        = .ok (.file place) →
      ReadFrom tree root pattern place
  | source {text modulePath file : String} {names place : List String}
      (folder : RootFolder tree root) :
      tree.readText (join root "go.mod") = .ok text →
      pathOfText? text = some modulePath →
      Selected folder modulePath (.ofText modulePath pattern) names file →
      tree.walk .reading folder.links (folder.base ++ names) [file]
        = .ok (.file place) →
      ReadFrom tree root pattern place

section

variable {tree : FileTree} {root pattern : String} {place : List String}

/-! ## Files by path -/

theorem Selected.slash_not_mem {folder : RootFolder tree root}
    {modulePath file : String} {selecting : Pattern} {names : List String}
    (hwell : tree.top.WellFormed)
    (h : Selected folder modulePath selecting names file) :
    '/' ∉ file.toList := by
  obtain ⟨hmodule, -, hsource⟩ := h
  obtain ⟨entry, hentry, rfl⟩ := List.mem_map.mp hsource.listed
  have hfound := (hmodule.at? folder.atBase (hwell.at? folder.atBase)).2
  exact (hfound.isEntryName hentry).2.2.2

/-- A load reads the file to which the path of `go.mod` leads. -/
theorem readFrom_of_moduleFile (folder : RootFolder tree root)
    (h : tree.place .reading (join root "go.mod") = .ok (.file place)) :
    ReadFrom tree root pattern place := by
  rw [folder.leads.place_join (by decide)] at h
  exact .moduleFile folder h

/-- A load reads the files to which the paths of the selected sources lead. -/
theorem readFrom_of_source (hwell : tree.top.WellFormed)
    (folder : RootFolder tree root) {modulePath file : String}
    {source : SourceFolder} (hpath : readPath tree root = .ok modulePath)
    (hsource : source
      ∈ selectedFolders folder modulePath (.ofText modulePath pattern))
    (hfile : file ∈ source.files)
    (h : tree.place .reading (join source.path file) = .ok (.file place)) :
    ReadFrom tree root pattern place := by
  obtain ⟨text, hread, htext⟩ := readPath_eq_ok_iff.mp hpath
  have hselected := (selected_iff_mem_files hwell hsource).mpr hfile
  have hleads := (leads_of_mem_selectedFolders hwell hsource).2
  rw [hleads.place_join (hselected.slash_not_mem hwell)] at h
  exact .source folder hread htext hselected h

/-- Every file that a load reads is one to which such a path leads. -/
theorem ReadFrom.place_eq (hwell : tree.top.WellFormed)
    (h : ReadFrom tree root pattern place) :
    tree.place .reading (join root "go.mod") = .ok (.file place)
      ∨ ∃ modulePath entries source file,
        readPath tree root = .ok modulePath
        ∧ tree.entries? root = some entries
        ∧ source ∈ (sourceFolders tree root entries).filter (fun source =>
          (Pattern.ofText modulePath pattern).selects
            (source.importPath modulePath))
        ∧ file ∈ source.files
        ∧ tree.place .reading (join source.path file) = .ok (.file place) := by
  cases h with
  | moduleFile folder hwalk =>
      refine Or.inl ?_
      rw [folder.leads.place_join (by decide), hwalk]
  | @source _ modulePath file _ _ folder hread htext hselected hwalk =>
      obtain ⟨source, hsource, rfl⟩ := exists_of_selected hwell hselected
      have hleads := (leads_of_mem_selectedFolders hwell hsource).2
      refine Or.inr ⟨modulePath, folder.entries, source, file,
        readPath_eq_ok_iff.mpr ⟨_, hread, htext⟩,
        folder.leads.entries? folder.atBase, hsource,
        (selected_iff_mem_files hwell hsource).mp hselected, ?_⟩
      rw [hleads.place_join (hselected.slash_not_mem hwell), hwalk]

end

/-! ## Two trees -/

/-- Trees of the same shape are loaded alike if the files that a load reads have
the same content in both. -/
theorem load_eq_of_sameShape {tree tree' : FileTree} {root pattern : String}
    (hwell : tree.top.WellFormed) (h : SameShape tree tree')
    (hcontent : ∀ place content, ReadFrom tree root pattern place →
      tree.top.at? place = some (.file content) →
      tree'.top.at? place = some (.file content)) :
    load tree root pattern = load tree' root pattern := by
  have hroot : ∀ entries, tree.entries? root = some entries →
      ∃ folder : RootFolder tree root, folder.entries = entries := by
    intro entries hentries
    obtain ⟨base, links, hleads, hat⟩ := exists_leads_of_entries? hentries
    exact ⟨⟨links, base, entries, hleads, hat⟩, rfl⟩
  refine load_eq_of_readText h hwell ?_ ?_
  · intro entries hentries
    obtain ⟨folder, -⟩ := hroot entries hentries
    refine Alike.readText_eq h hwell fun place content hplace => ?_
    exact hcontent place content (readFrom_of_moduleFile folder hplace)
  · intro entries modulePath hentries hpath source hsource hselects file hfile
    obtain ⟨folder, rfl⟩ := hroot entries hentries
    have hselected : source
        ∈ selectedFolders folder modulePath (.ofText modulePath pattern) :=
      List.mem_filter.mpr ⟨hsource, hselects⟩
    refine Alike.readText_eq h hwell fun place content hplace => ?_
    exact hcontent place content
      (readFrom_of_source hwell folder hpath hselected hfile hplace)

/-- A module with `rest` in each file that a load of its folder `a` does not
read: in those of other folders, some of them passed over in every load, and in
those of `a` that are no sources. The source of `a` is a link. -/
def scatteredTree (rest : ByteArray) : FileTree where
  top := .folder [
    ("lib.txt", .file "package a\nimport \"x/m/b\"".toUTF8),
    ("m", .folder [
      ("go.mod", .file "module x/m".toUTF8),
      ("main.go", .file rest),
      ("vendor", .folder [("v.go", .file rest)]),
      (".git", .folder [("g.go", .file rest)]),
      ("b", .folder [("b.go", .file rest)]),
      ("a", .folder [
        ("a.go", .link "../../lib.txt"),
        ("a_test.go", .file rest),
        ("_old.go", .file rest),
        ("notes.md", .file rest),
        ("testdata", .folder [("t.go", .file rest)]),
        ("sub", .folder [("go.mod", .file rest), ("s.go", .file rest)])])])]
  working := []

/-- Bytes that are not text. -/
def noText : ByteArray := ⟨#[0xFF, 0xFE]⟩

/-- A package that would be part of the chart. -/
def someText : ByteArray := "package main\nimport \"x/m/a\"".toUTF8

theorem wellFormed_scatteredTree : (scatteredTree noText).top.WellFormed := by
  decide

theorem sameShape_scatteredTree :
    SameShape (scatteredTree noText) (scatteredTree someText) := by
  have hrest : FileNode.Alike (fun _ _ => True) (.file noText)
      (.file someText) := .file trivial
  have hsame : ∀ content : ByteArray,
      FileNode.Alike (fun _ _ => True) (.file content) (.file content) :=
    fun _ => .file trivial
  have hsingle : ∀ name : String, FileNode.Alike (fun _ _ => True)
      (.folder [(name, .file noText)]) (.folder [(name, .file someText)]) :=
    fun name => .of_perm (by simp) (.cons hrest .nil) (.refl _)
  have hsub : FileNode.Alike (fun _ _ => True)
      (.folder [("go.mod", .file noText), ("s.go", .file noText)])
      (.folder [("go.mod", .file someText), ("s.go", .file someText)]) :=
    .of_perm (by decide) (.cons hrest (.cons hrest .nil)) (.refl _)
  refine ⟨rfl, .of_perm (by decide) ?_ (.refl _)⟩
  refine .cons (hsame _) (.cons (.of_perm (by decide) ?_ (.refl _)) .nil)
  refine .cons (hsame _) (.cons hrest (.cons (hsingle _) (.cons (hsingle _)
    (.cons (hsingle _) (.cons (.of_perm (by decide) ?_ (.refl _)) .nil)))))
  exact .cons (.link _) (.cons hrest (.cons hrest (.cons hrest
    (.cons (hsingle _) (.cons hsub .nil)))))

/-- Of the tree `go.mod` is read and the file that stands for the source of
`a`. -/
theorem place_eq_of_readFrom_scatteredTree {place : List String}
    (h : ReadFrom (scatteredTree noText) "m" "./a/..." place) :
    place = ["m", "go.mod"] ∨ place = ["lib.txt"] := by
  rcases h.place_eq wellFormed_scatteredTree with
    hplace | ⟨modulePath, entries, source, file, hpath, hentries, hsource,
      hfile, hplace⟩
  · have hmodule : (scatteredTree noText).place .reading (join "m" "go.mod")
        = .ok (.file ["m", "go.mod"]) := by decide +kernel
    rw [hmodule] at hplace
    cases hplace
    exact Or.inl rfl
  · have hmodule : readPath (scatteredTree noText) "m" = .ok "x/m" := by
      decide +kernel
    rw [hmodule] at hpath
    cases hpath
    have hfolders : ((scatteredTree noText).entries? "m").map (fun entries =>
          (sourceFolders (scatteredTree noText) "m" entries).filter
            fun source => (Pattern.ofText "x/m" "./a/...").selects
              (source.importPath "x/m"))
        = some [⟨["a"], "m/a", ["a.go"]⟩] := by decide +kernel
    rw [hentries, Option.map_some, Option.some.injEq] at hfolders
    rw [hfolders, List.mem_singleton] at hsource
    subst hsource
    have hlink : (scatteredTree noText).place .reading (join "m/a" "a.go")
        = .ok (.file ["lib.txt"]) := by decide +kernel
    rw [List.mem_singleton.mp hfile, hlink] at hplace
    cases hplace
    exact Or.inr rfl

theorem load_eq_of_sameShape_scatteredTree :
    (scatteredTree noText).top.WellFormed
      ∧ SameShape (scatteredTree noText) (scatteredTree someText)
      ∧ (∀ place content,
        ReadFrom (scatteredTree noText) "m" "./a/..." place →
        (scatteredTree noText).top.at? place = some (.file content) →
        (scatteredTree someText).top.at? place = some (.file content))
      ∧ load (scatteredTree noText) "m" "./a/..."
        = load (scatteredTree someText) "m" "./a/..."
      ∧ load (scatteredTree noText) "m" "./a/..."
        = .ok ⟨"x/m", [⟨"x/m/a", false, .ofList ["x/m/b"]⟩]⟩ := by
  have hcontent : ∀ place content,
      ReadFrom (scatteredTree noText) "m" "./a/..." place →
      (scatteredTree noText).top.at? place = some (.file content) →
      (scatteredTree someText).top.at? place = some (.file content) := by
    intro place content hread hfound
    rcases place_eq_of_readFrom_scatteredTree hread with rfl | rfl
    · exact hfound
    · exact hfound
  refine ⟨wellFormed_scatteredTree, sameShape_scatteredTree, hcontent,
    load_eq_of_sameShape wellFormed_scatteredTree sameShape_scatteredTree
      hcontent, ?_⟩
  decide +kernel

end Module

end ImportChart
