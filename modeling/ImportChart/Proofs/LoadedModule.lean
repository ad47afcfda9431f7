import ImportChart.Proofs.FolderPackage

/-!
# The packages of a loaded module

A module that loads holds one package for each of its folders that the pattern
selects and in which some source counts, and nothing else (`holds_of_load`).
What is held depends on the location to which the root leads and not on how the
root is spelled: no two modules hold the same (`Holds.unique`), and two
spellings of one root load the same module (`eq_of_load_of_load`).
-/

namespace ImportChart.Module

open FileTree Source

/-! ## Import paths -/

/-- The import path of the folder at `names` below the root of a module. -/
def importPath (modulePath : String) (names : List String) : String :=
  "/".intercalate (modulePath :: names)

theorem toList_importPath (modulePath : String) {names : List String}
    (h : names ≠ []) :
    (importPath modulePath names).toList = modulePath.toList
      ++ '/' :: ['/'].intercalate (names.map String.toList) := by
  rw [importPath, String.intercalate_cons_of_ne_nil h]
  simp

/-- No two folders of a module have the same import path. -/
theorem importPath_inj {modulePath : String} {names names' : List String}
    (hnames : ∀ name ∈ names, '/' ∉ name.toList)
    (hnames' : ∀ name ∈ names', '/' ∉ name.toList)
    (h : importPath modulePath names = importPath modulePath names') :
    names = names' := by
  have hroot : importPath modulePath [] = modulePath :=
    String.intercalate_singleton
  have hlong : ∀ {below : List String}, below ≠ [] →
      importPath modulePath below ≠ modulePath := by
    intro below hne heq
    have htext := congrArg String.toList heq
    rw [toList_importPath modulePath hne] at htext
    have hlength := congrArg List.length htext
    simp at hlength
  by_cases hne : names = []
  · by_cases hne' : names' = []
    · rw [hne, hne']
    · rw [hne, hroot] at h
      exact absurd h.symm (hlong hne')
  · by_cases hne' : names' = []
    · rw [hne', hroot] at h
      exact absurd h (hlong hne)
    · have htext := congrArg String.toList h
      rw [toList_importPath _ hne, toList_importPath _ hne'] at htext
      have hpieces := (List.cons.inj (List.append_cancel_left htext)).2
      have hsplit : ∀ {below : List String},
          (∀ name ∈ below, '/' ∉ name.toList) → below ≠ [] →
          (['/'].intercalate (below.map String.toList)).splitOn '/'
            = below.map String.toList := by
        intro below hbelow hsome
        refine List.splitOn_intercalate '/' ?_ (by simp [hsome])
        intro text htext
        obtain ⟨name, hname, rfl⟩ := List.mem_map.mp htext
        exact hbelow name hname
      have hmap : names.map String.toList = names'.map String.toList := by
        rw [← hsplit hnames hne, hpieces, hsplit hnames' hne']
      have hback := congrArg (List.map String.ofList) hmap
      simpa [Function.comp_def] using hback

/-! ## What a module holds -/

/-- `Holds tree links base entries pattern loaded`: the module in the folder at
`base` with the given entries is `loaded`, as far as the pattern selects it.
There is one package for each selected folder in which some source counts: no
package is without such a folder, none stands for two, and none is missing. -/
structure Holds (tree : FileTree) (links : Nat) (base : List String)
    (entries : List (String × FileNode)) (pattern : String) (loaded : Loaded) :
    Prop where
  path : ∃ text, HasText tree links base "go.mod" text
    ∧ pathOfText? text = some loaded.path
  ascending : loaded.packages.Pairwise fun a b => a.path < b.path
  sound : ∀ package ∈ loaded.packages, ∃ names found,
    ModuleFolder tree links base entries names found
      ∧ package.path = importPath loaded.path names
      ∧ (Pattern.ofText loaded.path pattern).selects package.path = true
      ∧ Describes tree links (base ++ names) found package
  once : ∀ names names' found found',
    ModuleFolder tree links base entries names found →
    ModuleFolder tree links base entries names' found' →
    importPath loaded.path names = importPath loaded.path names' →
    names = names' ∧ found = found'
  complete : ∀ names found, ModuleFolder tree links base entries names found →
    (Pattern.ofText loaded.path pattern).selects
      (importPath loaded.path names) = true →
    (∃ header, Counts tree links (base ++ names) found header) →
    ∃ package ∈ loaded.packages, package.path = importPath loaded.path names
      ∧ Describes tree links (base ++ names) found package

theorem exists_text_of_readPath {tree : FileTree} {links : Nat}
    {root path : String} {base : List String}
    (hleads : Leads tree root links base) (h : readPath tree root = .ok path) :
    ∃ text, HasText tree links base "go.mod" text
      ∧ pathOfText? text = some path := by
  unfold readPath at h
  simp only at h
  split at h
  · cases h
  · cases h
  · next text htext =>
      split at h
      · next path' hpath =>
          cases h
          exact ⟨text, (readText_join_iff hleads (by decide)).mp htext, hpath⟩
      · cases h

section

variable {tree : FileTree} {links : Nat} {root : String} {base : List String}
  {entries : List (String × FileNode)}

theorem moduleFolder_unique (hat : tree.top.at? base = some (.folder entries))
    (hwell : FileNode.WellFormed (.folder entries)) {names : List String}
    {found found' : List (String × FileNode)}
    (h : ModuleFolder tree links base entries names found)
    (h' : ModuleFolder tree links base entries names found') :
    found = found' := by
  have hsame := (h.at? hat hwell).1.symm.trans (h'.at? hat hwell).1
  cases hsame
  rfl

/-- What loading the folders gives, package by package. -/
theorem mem_of_loadFolders {modulePath : String} {pattern : Pattern}
    {packages : List Package} (hleads : Leads tree root links base)
    (hat : tree.top.at? base = some (.folder entries))
    (hwell : FileNode.WellFormed (.folder entries))
    (h : loadFolders tree modulePath pattern (sourceFolders tree root entries)
      = .ok packages) :
    (∀ package ∈ packages, ∃ names found,
      ModuleFolder tree links base entries names found
        ∧ package.path = importPath modulePath names
        ∧ pattern.selects package.path = true
        ∧ Describes tree links (base ++ names) found package)
      ∧ ∀ names found, ModuleFolder tree links base entries names found →
        pattern.selects (importPath modulePath names) = true →
        (∃ header, Counts tree links (base ++ names) found header) →
        ∃ package ∈ packages, package.path = importPath modulePath names
          ∧ Describes tree links (base ++ names) found package := by
  obtain ⟨results, hresults, rfl⟩ := filterMapM_eq_ok h
  have hmem := @mem_of_map_eq_map_ok _ _ _ _ _ _ hresults
  refine ⟨?_, ?_⟩
  · intro package hpackage
    obtain ⟨_, hresult, rfl⟩ := List.mem_filterMap.mp hpackage
    obtain ⟨folder, hfolder, hload⟩ := hmem.mp hresult
    obtain ⟨hfolder, hselects⟩ := List.mem_filter.mp hfolder
    obtain ⟨names, found, hmodule, -, rfl⟩ :=
      (mem_sourceFolders hleads hat hwell).mp hfolder
    obtain ⟨hfound, hfoundWell⟩ := hmodule.at? hat hwell
    obtain ⟨hpackage, -⟩ :=
      describes_of_loadFolder (hmodule.leads hat hwell hleads) hfound
        hfoundWell hload
    have hpath := path_of_loadFolder hload
    exact ⟨names, found, hmodule, hpath, hpath ▸ hselects, hpackage package rfl⟩
  · intro names found hmodule hselects hcounts
    obtain ⟨hfound, hfoundWell⟩ := hmodule.at? hat hwell
    have hfoundLeads := hmodule.leads hat hwell hleads
    have hsome : sourcesOf tree (pathBelow root names) found ≠ [] := by
      obtain ⟨_, hsource, -, -, -⟩ := hcounts
      exact List.ne_nil_of_mem
        ((mem_sourcesOf hfoundLeads hfound hfoundWell).mpr hsource)
    have hfolder := (mem_sourceFolders hleads hat hwell).mpr
      ⟨names, found, hmodule, hsome, rfl⟩
    obtain ⟨result, hresult, hload⟩ :=
      exists_of_map_eq_map_ok hresults
        (List.mem_filter.mpr ⟨hfolder, hselects⟩)
    obtain ⟨hpackage, hnone⟩ :=
      describes_of_loadFolder hfoundLeads hfound hfoundWell hload
    cases result with
    | none =>
        obtain ⟨header, hheader⟩ := hcounts
        exact absurd hheader (hnone rfl header)
    | some package =>
        exact ⟨package, List.mem_filterMap.mpr ⟨some package, hresult, rfl⟩,
          path_of_loadFolder hload, hpackage package rfl⟩

theorem pairwise_of_loadFolders {modulePath : String} {pattern : Pattern}
    {packages : List Package} (hleads : Leads tree root links base)
    (hat : tree.top.at? base = some (.folder entries))
    (hwell : FileNode.WellFormed (.folder entries))
    (h : loadFolders tree modulePath pattern (sourceFolders tree root entries)
      = .ok packages) :
    packages.Pairwise fun a b => a.path ≠ b.path := by
  obtain ⟨results, hresults, rfl⟩ := filterMapM_eq_ok h
  refine pairwise_filterMap_of_map_eq hresults ?_
  refine ((pairwise_sourceFolders hwell).filter _).imp_of_mem ?_
  intro folder folder' hfolder hfolder' hne package package' hload hload' heq
  have hslash : ∀ {folder : SourceFolder},
      folder ∈ sourceFolders tree root entries →
      ∀ name ∈ folder.names, '/' ∉ name.toList := by
    intro folder hmem name hname
    obtain ⟨names, found, hmodule, -, rfl⟩ :=
      (mem_sourceFolders hleads hat hwell).mp hmem
    exact (hmodule.isEntryName hwell name hname).2.2.2
  rw [path_of_loadFolder hload, path_of_loadFolder hload'] at heq
  exact hne (importPath_inj (hslash (List.mem_filter.mp hfolder).1)
    (hslash (List.mem_filter.mp hfolder').1) heq)

end

theorem path_le_total (a b : Package) :
    decide (a.path ≤ b.path) || decide (b.path ≤ a.path) := by
  simpa using String.le_total a.path b.path

theorem path_le_trans (a b c : Package) (hab : decide (a.path ≤ b.path))
    (hbc : decide (b.path ≤ c.path)) : decide (a.path ≤ c.path) :=
  decide_eq_true
    (String.le_trans (of_decide_eq_true hab) (of_decide_eq_true hbc))

theorem pairwise_sort_path {packages : List Package}
    (h : packages.Pairwise fun a b => a.path ≠ b.path) :
    (Sorting.sort (fun a b => decide (a.path ≤ b.path)) packages).Pairwise
      fun a b => a.path < b.path := by
  have hle := Sorting.pairwise_sort path_le_total path_le_trans packages
  have hperm :=
    Sorting.sort_perm (fun a b => decide (a.path ≤ b.path)) packages
  have hne := (hperm.pairwise_iff fun h => h.symm).mpr h
  refine (hle.and hne).imp ?_
  rintro a b ⟨hab, hdistinct⟩
  exact Std.lt_of_le_of_ne (of_decide_eq_true hab) hdistinct

/-- The module in the folder to which the root leads. -/
theorem holds_of_leads {tree : FileTree} {links : Nat} {root pattern : String}
    {base : List String} {entries : List (String × FileNode)} {loaded : Loaded}
    (hwell : tree.top.WellFormed) (hleads : Leads tree root links base)
    (hat : tree.top.at? base = some (.folder entries))
    (h : load tree root pattern = .ok loaded) :
    Holds tree links base entries pattern loaded := by
  have hbase := hwell.at? hat
  unfold load at h
  rw [hleads.entries? hat] at h
  obtain ⟨modulePath, hpath, hrest⟩ := bind_eq_ok_iff.mp h
  obtain ⟨packages, hpackages, hloaded⟩ := bind_eq_ok_iff.mp hrest
  cases hloaded
  obtain ⟨hsound, hcomplete⟩ := mem_of_loadFolders hleads hat hbase hpackages
  refine ⟨?_, ?_, ?_, ?_, ?_⟩
  · exact exists_text_of_readPath hleads hpath
  · exact pairwise_sort_path
      (pairwise_of_loadFolders hleads hat hbase hpackages)
  · exact fun package hpackage => hsound package (Sorting.mem_sort.mp hpackage)
  · intro names names' found found' hmodule hmodule' heq
    have hnames := importPath_inj
      (fun name hname => (hmodule.isEntryName hbase name hname).2.2.2)
      (fun name hname => (hmodule'.isEntryName hbase name hname).2.2.2) heq
    subst hnames
    exact ⟨rfl, moduleFolder_unique hat hbase hmodule hmodule'⟩
  · intro names found hmodule hselects hcounts
    obtain ⟨package, hpackage, hdescribed⟩ :=
      hcomplete names found hmodule hselects hcounts
    exact ⟨package, Sorting.mem_sort.mpr hpackage, hdescribed⟩

/-- A module that loads holds exactly what its folders say, whatever the tree is
and however its root is spelled. -/
theorem holds_of_load {tree : FileTree} {root pattern : String}
    {loaded : Loaded} (hwell : tree.top.WellFormed)
    (h : load tree root pattern = .ok loaded) :
    ∃ base links entries, Leads tree root links base
      ∧ tree.top.at? base = some (.folder entries)
      ∧ Holds tree links base entries pattern loaded := by
  have hroot : ∃ entries, tree.entries? root = some entries := by
    refine Option.ne_none_iff_exists'.mp fun hnone => ?_
    rw [load, hnone] at h
    cases h
  obtain ⟨entries, hentries⟩ := hroot
  obtain ⟨base, links, hleads, hat⟩ := exists_leads_of_entries? hentries
  exact ⟨base, links, entries, hleads, hat, holds_of_leads hwell hleads hat h⟩

/-- A module whose root is the folder `m`. The source of `a` is a link to a file
elsewhere; a link to a folder is no source although it has the name of one; and
`b` is a module of its own by a link. -/
def linkedTree : FileTree where
  top := .folder [
    ("lib.txt", .file "package a\nimport \"fmt\"".toUTF8),
    ("m", .folder [
      ("go.mod", .file "module x/m".toUTF8),
      ("main.go", .file "package main\nimport \"x/m/a\"".toUTF8),
      ("a", .folder [("a.go", .link "../../lib.txt"), ("up.go", .link "..")]),
      ("b", .folder
        [("go.mod", .link "../go.mod"), ("b.go", .file "package b".toUTF8)])])]
  working := []

def linkedModule : Loaded where
  path := "x/m"
  packages :=
    [⟨"x/m", true, .ofList ["x/m/a"]⟩, ⟨"x/m/a", false, .ofList ["fmt"]⟩]

theorem wellFormed_linkedTree : linkedTree.top.WellFormed := by
  decide

theorem load_linkedTree :
    load linkedTree "./m/" "./..." = .ok linkedModule := by
  have hloaded :
      (load linkedTree "./m/" "./...").toOption = some linkedModule := by
    decide +kernel
  cases hload : load linkedTree "./m/" "./..." with
  | error cause =>
      rw [hload] at hloaded
      cases hloaded
  | ok loaded =>
      rw [hload] at hloaded
      rw [Option.some.inj hloaded]

theorem holds_of_load_linkedTree :
    linkedTree.top.WellFormed
      ∧ load linkedTree "./m/" "./..." = .ok linkedModule
      ∧ ∃ base links entries, Leads linkedTree "./m/" links base
        ∧ linkedTree.top.at? base = some (.folder entries)
        ∧ Holds linkedTree links base entries "./..." linkedModule :=
  ⟨wellFormed_linkedTree, load_linkedTree,
    holds_of_load wellFormed_linkedTree load_linkedTree⟩

/-! ## The location decides -/

theorem HasText.unique {tree : FileTree} {links : Nat} {location : List String}
    {name text text' : String} (h : HasText tree links location name text)
    (h' : HasText tree links location name text') : text = text' := by
  obtain ⟨place, content, hplace, hcontent, htext⟩ := h
  obtain ⟨place', content', hplace', hcontent', htext'⟩ := h'
  cases hplace.symm.trans hplace'
  cases hcontent.symm.trans hcontent'
  exact Option.some.inj (htext.symm.trans htext')

theorem Describes.unique {tree : FileTree} {links : Nat}
    {location : List String} {entries : List (String × FileNode)}
    {package package' : Package}
    (h : Describes tree links location entries package)
    (h' : Describes tree links location entries package')
    (hpath : package.path = package'.path) :
    package = package' := by
  obtain ⟨header, hheader⟩ := h.counts
  have hentry : package.isEntryPoint = package'.isEntryPoint :=
    Bool.eq_iff_iff.mpr
      ((h.entryPoint header hheader).trans (h'.entryPoint header hheader).symm)
  have himports : package.imports = package'.imports :=
    NameSet.eq_of_mem_iff fun path =>
      (h.imports path).trans (h'.imports path).symm
  exact Package.ext hpath hentry himports

/-- What a module holds leaves nothing open. -/
theorem Holds.unique {tree : FileTree} {links : Nat} {base : List String}
    {entries : List (String × FileNode)} {pattern : String}
    {loaded loaded' : Loaded} (h : Holds tree links base entries pattern loaded)
    (h' : Holds tree links base entries pattern loaded') :
    loaded = loaded' := by
  have hpath : loaded.path = loaded'.path := by
    obtain ⟨text, htext, hdirective⟩ := h.path
    obtain ⟨text', htext', hdirective'⟩ := h'.path
    rw [htext.unique htext'] at hdirective
    exact Option.some.inj (hdirective.symm.trans hdirective')
  have hsub : ∀ {one other : Loaded},
      Holds tree links base entries pattern one →
      Holds tree links base entries pattern other → one.path = other.path →
      ∀ package ∈ one.packages, package ∈ other.packages := by
    intro one other hone hother heq package hpackage
    obtain ⟨names, found, hmodule, hname, hselects, hdescribes⟩ :=
      hone.sound package hpackage
    rw [hname, heq] at hselects
    obtain ⟨package', hpackage', hname', hdescribes'⟩ :=
      hother.complete names found hmodule hselects hdescribes.counts
    rw [heq] at hname
    rwa [hdescribes.unique hdescribes' (hname.trans hname'.symm)]
  have hnodup : ∀ {one : Loaded}, Holds tree links base entries pattern one →
      one.packages.Nodup := by
    intro one hone
    refine hone.ascending.imp ?_
    rintro package _ hlt rfl
    exact String.lt_irrefl package.path hlt
  have hperm : loaded.packages.Perm loaded'.packages :=
    (List.perm_ext_iff_of_nodup (hnodup h) (hnodup h')).mpr fun package =>
      ⟨hsub h h' hpath package, hsub h' h hpath.symm package⟩
  have hpackages : loaded.packages = loaded'.packages :=
    hperm.eq_of_pairwise
      (fun _ _ _ _ hlt hgt => absurd hgt (String.lt_asymm hlt))
      h.ascending h'.ascending
  exact Loaded.ext hpath hpackages

/-- Two spellings of one root load the same module. -/
theorem eq_of_load_of_load {tree : FileTree} {links : Nat}
    {root root' pattern : String} {base : List String}
    {entries : List (String × FileNode)} {loaded loaded' : Loaded}
    (hwell : tree.top.WellFormed)
    (hat : tree.top.at? base = some (.folder entries))
    (hleads : Leads tree root links base)
    (hleads' : Leads tree root' links base)
    (h : load tree root pattern = .ok loaded)
    (h' : load tree root' pattern = .ok loaded') :
    loaded = loaded' :=
  (holds_of_leads hwell hleads hat h).unique
    (holds_of_leads hwell hleads' hat h')

/-- Slashes and dots about the root make no difference to what is loaded. -/
theorem eq_of_load_of_respelled {tree : FileTree} {root root' pattern : String}
    {loaded loaded' : Loaded} (hwell : tree.top.WellFormed)
    (hrespelled : Respelled root root') (h : load tree root pattern = .ok loaded)
    (h' : load tree root' pattern = .ok loaded') : loaded = loaded' := by
  obtain ⟨base, links, entries, hleads, hat, -⟩ := holds_of_load hwell h
  exact eq_of_load_of_load hwell hat hleads (hleads.respelled hrespelled) h h'

end ImportChart.Module
