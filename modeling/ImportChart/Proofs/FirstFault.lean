import ImportChart.Proofs.LoadedModule
import Mathlib.Data.List.Basic

/-!
# The first fault of a module

A load fails with the first fault that it meets, and with nothing else
(`load_eq_error_iff`). What may be wrong is said of the tree and not of the load:
of the root, of its `go.mod` file, and of the sources of the selected folders
(`Fault`), which stand in the order of the names of their folders, component by
component, and in each folder in the order of their own names (`Earlier`).

The proof goes level by level, over the files of a folder and over the folders of
a module, and on each level in two halves: an error is the one of the first
fault, and where there is no error there is no fault. There is only one first
fault (`First.unique`), so these halves determine the result.
-/

namespace ImportChart.Module

open FileTree Source

/-! ## First elements -/

/-- The element has the property, and no earlier one has it. -/
structure First {α : Type} (before : α → α → Prop) (p : α → Prop) (a : α) :
    Prop where
  holds : p a
  earliest : ∀ b, before b a → ¬p b

theorem First.unique {α : Type} {before : α → α → Prop} {p : α → Prop} {a b : α}
    (ha : First before p a) (hb : First before p b)
    (hcompare : before a b ∨ a = b ∨ before b a) : a = b := by
  rcases hcompare with hab | heq | hba
  · exact absurd ha.holds (hb.earliest a hab)
  · exact heq
  · exact absurd hb.holds (ha.earliest b hba)

/-- Of the elements of an ordered list that have a property one is the first. -/
theorem exists_first {α : Type} {before : α → α → Prop} {p : α → Prop}
    (hasymm : ∀ a b, before a b → ¬before b a) :
    ∀ {as : List α}, as.Pairwise before → ∀ {a : α}, a ∈ as → p a →
      ∃ b, First before (fun c => c ∈ as ∧ p c) b
  | [], _, a, hmem, _ => absurd hmem List.not_mem_nil
  | c :: cs, hsorted, a, hmem, ha => by
      obtain ⟨hc, hcs⟩ := List.pairwise_cons.mp hsorted
      by_cases hpc : p c
      · refine ⟨c, ⟨List.mem_cons_self .., hpc⟩, ?_⟩
        rintro d hdc ⟨hd, -⟩
        rcases List.mem_cons.mp hd with rfl | hd
        · exact hasymm d d hdc hdc
        · exact hasymm c d (hc d hd) hdc
      · have hbelow : a ∈ cs := by
          rcases List.mem_cons.mp hmem with rfl | hbelow
          · exact absurd ha hpc
          · exact hbelow
        obtain ⟨b, ⟨hb, hpb⟩, hfirst⟩ := exists_first hasymm hcs hbelow ha
        refine ⟨b, ⟨List.mem_cons_of_mem c hb, hpb⟩, ?_⟩
        rintro d hdb ⟨hd, hpd⟩
        rcases List.mem_cons.mp hd with rfl | hd
        · exact hpc hpd
        · exact hfirst d hdb ⟨hd, hpd⟩

/-- What comes before an element of an ordered list stands in front of it. -/
theorem mem_front {α : Type} {before : α → α → Prop}
    (hasymm : ∀ a b, before a b → ¬before b a) {front back : List α} {a b : α}
    (hsorted : (front ++ a :: back).Pairwise before)
    (hmem : b ∈ front ++ a :: back) (hba : before b a) : b ∈ front := by
  obtain ⟨-, hback, -⟩ := List.pairwise_append.mp hsorted
  rcases List.mem_append.mp hmem with hfront | hrest
  · exact hfront
  · rcases List.mem_cons.mp hrest with rfl | hrest
    · exact absurd hba (hasymm b b hba)
    · exact absurd hba (hasymm a b ((List.pairwise_cons.mp hback).1 b hrest))

/-! ## What may be wrong -/

/-- The file at a path has this header. -/
def HasHeader (tree : FileTree) (path : String) (header : FileHeader) : Prop :=
  ∃ text, tree.readText path = .ok text
    ∧ FileHeader.ofText? text = some header

/-- The file at a path counts for a package: it has this header and is not set
aside. -/
def CountsWith (tree : FileTree) (path : String) (header : FileHeader) : Prop :=
  HasHeader tree path header ∧ header.isSetAside = false

/-- What is wrong with a file of the folder at `folder`, whose sources are given.
A file without a package clause is at fault whatever else its header says; a file
that is set aside may declare any package. -/
inductive Fault (tree : FileTree) (folder : String) (source : String → Prop)
    (file : String) : LoadError → Prop
  | unreadable {cause : ReadError} :
      tree.readText (join folder file) = .error cause →
      Fault tree folder source file (.unreadable (join folder file) cause)
  | noPackageClause {text : String} :
      tree.readText (join folder file) = .ok text →
      FileHeader.ofText? text = none →
      Fault tree folder source file (.noPackageClause (join folder file))
  | mixedPackages {first : String} {header header' : FileHeader} :
      First (· < ·) (fun other => source other
        ∧ ∃ found, CountsWith tree (join folder other) found) first →
      HasHeader tree (join folder first) header →
      CountsWith tree (join folder file) header' →
      header.package ≠ header'.package →
      Fault tree folder source file
        (.mixedPackages folder header.package header'.package)

/-- The folder to which the root leads, links followed. -/
structure RootFolder (tree : FileTree) (root : String) where
  links : Nat
  base : List String
  entries : List (String × FileNode)
  leads : Leads tree root links base
  atBase : tree.top.at? base = some (.folder entries)

/-- `file` is a source of the folder at `names` below the root, and the pattern
selects the folder. -/
inductive Selected {tree : FileTree} {root : String}
    (folder : RootFolder tree root) (modulePath : String) (pattern : Pattern)
    (names : List String) (file : String) : Prop
  | mk {found : List (String × FileNode)} :
      ModuleFolder tree folder.links folder.base folder.entries names found →
      pattern.selects (importPath modulePath names) = true →
      IsSource tree folder.links (folder.base ++ names) found file →
      Selected folder modulePath pattern names file

/-- The order in which files are read, given by the names of their folders and
their own. -/
def Earlier (place place' : List String × String) : Prop :=
  place.1 < place'.1 ∨ place.1 = place'.1 ∧ place.2 < place'.2

/-- What is wrong with a selected file. -/
def FaultAt {tree : FileTree} {root : String} (folder : RootFolder tree root)
    (modulePath : String) (pattern : Pattern) (place : List String × String)
    (error : LoadError) : Prop :=
  Selected folder modulePath pattern place.1 place.2
    ∧ Fault tree (pathBelow root place.1)
      (Selected folder modulePath pattern place.1) place.2 error

/-- What is wrong with the `go.mod` file of the module at `root`. -/
inductive ModuleFileFault (tree : FileTree) (root : String) : LoadError → Prop
  | noModuleFile :
      tree.readText (join root "go.mod") = .error (.path .notFound) →
      ModuleFileFault tree root (.noModuleFile root)
  | unreadable {cause : ReadError} :
      tree.readText (join root "go.mod") = .error cause →
      cause ≠ .path .notFound →
      ModuleFileFault tree root (.unreadable (join root "go.mod") cause)
  | noDirective {text : String} :
      tree.readText (join root "go.mod") = .ok text →
      pathOfText? text = none →
      ModuleFileFault tree root (.noDirective (join root "go.mod"))

/-- The first thing that is wrong with the module at `root`, in the order root,
`go.mod`, sources. -/
inductive FirstFault (tree : FileTree) (root pattern : String) :
    LoadError → Prop
  | notAFolder : ¬Nonempty (RootFolder tree root) →
      FirstFault tree root pattern (.notAFolder root)
  | moduleFile {error : LoadError} : Nonempty (RootFolder tree root) →
      ModuleFileFault tree root error → FirstFault tree root pattern error
  | source {text modulePath : String} {place : List String × String}
      {error : LoadError} (folder : RootFolder tree root) :
      tree.readText (join root "go.mod") = .ok text →
      pathOfText? text = some modulePath →
      FaultAt folder modulePath (.ofText modulePath pattern) place error →
      First Earlier (fun place => ∃ error,
        FaultAt folder modulePath (.ofText modulePath pattern) place error)
        place →
      FirstFault tree root pattern error

/-! ## The files of a folder -/

section

variable {tree : FileTree} {folder : String}

theorem readHeader_eq_ok_iff {path : String} {header : FileHeader} :
    readHeader tree path = .ok header ↔ HasHeader tree path header := by
  unfold readHeader HasHeader
  cases tree.readText path with
  | error cause => simp
  | ok text => cases hheader : FileHeader.ofText? text <;> simp [hheader]

theorem HasHeader.unique {path : String} {header header' : FileHeader}
    (h : HasHeader tree path header) (h' : HasHeader tree path header') :
    header = header' := by
  have hread := readHeader_eq_ok_iff.mpr h
  rw [readHeader_eq_ok_iff.mpr h'] at hread
  exact (Except.ok.inj hread).symm

theorem fault_of_readHeader_eq_error {source : String → Prop} {file : String}
    {error : LoadError} (h : readHeader tree (join folder file) = .error error) :
    Fault tree folder source file error := by
  unfold readHeader at h
  split at h
  · next hread =>
      cases h
      exact .unreadable hread
  · next hread =>
      split at h
      · cases h
      · next hnone =>
          cases h
          exact .noPackageClause hread hnone

/-- A file at fault has no header, or one that counts and does not go with the
first that does. -/
theorem Fault.header_cases {source : String → Prop} {file : String}
    {error : LoadError} (h : Fault tree folder source file error) :
    readHeader tree (join folder file) = .error error
      ∨ ∃ first header header', First (· < ·) (fun other => source other
          ∧ ∃ found, CountsWith tree (join folder other) found) first
        ∧ HasHeader tree (join folder first) header
        ∧ CountsWith tree (join folder file) header'
        ∧ header.package ≠ header'.package
        ∧ error = .mixedPackages folder header.package header'.package := by
  cases h with
  | unreadable hread => exact Or.inl (by rw [readHeader, hread])
  | noPackageClause hread hnone =>
      refine Or.inl ?_
      rw [readHeader, hread]
      simp only [hnone]
  | mixedPackages hfirst hheader hcounts hne =>
      exact Or.inr ⟨_, _, _, hfirst, hheader, hcounts, hne, rfl⟩

/-- Only a header that counts ends the load, and only behind another package. -/
theorem declare_eq_error {declared : Option Declared} {header : FileHeader}
    {error : LoadError} (h : declare folder declared header = .error error) :
    header.isSetAside = false ∧ ∃ name imports, declared = some ⟨name, imports⟩
      ∧ name ≠ header.package
      ∧ error = .mixedPackages folder name header.package := by
  unfold declare at h
  split at h
  · cases h
  · next haside =>
      refine ⟨Bool.eq_false_iff.mpr haside, ?_⟩
      split at h
      · cases h
      · next name imports =>
          split at h
          · cases h
          · next hname =>
              cases h
              exact ⟨name, imports, rfl, fun heq => hname (beq_iff_eq.mpr heq),
                rfl⟩

/-- One more file of the folder. -/
def addFile (tree : FileTree) (folder : String) (declared : Option Declared)
    (file : String) : Except LoadError (Option Declared) := do
  declare folder declared (← readHeader tree (join folder file))

/-- The files that have been read all have headers, and what they have declared
is the package of each of them that counts. -/
theorem declared_of_foldlM {files : List String} {declared : Option Declared}
    (h : files.foldlM (addFile tree folder) none = .ok declared) :
    (∀ file ∈ files, ∃ header, HasHeader tree (join folder file) header)
      ∧ (∀ name imports, declared = some ⟨name, imports⟩ →
        ∃ file ∈ files, ∃ header, CountsWith tree (join folder file) header)
      ∧ ∀ file ∈ files, ∀ header, CountsWith tree (join folder file) header →
        ∃ imports, declared = some ⟨header.package, imports⟩ := by
  obtain ⟨headers, hheaders, hsums⟩ := sums_foldlM Sums.none h
  rw [List.nil_append] at hsums
  refine ⟨?_, ?_, ?_⟩
  · intro file hfile
    obtain ⟨header, -, hread⟩ := exists_of_map_eq_map_ok hheaders hfile
    exact ⟨header, readHeader_eq_ok_iff.mp hread⟩
  · rintro name imports rfl
    generalize hkept : counted headers = kept at hsums
    cases hsums with
    | some hne hall =>
        obtain ⟨header, hheader⟩ := List.exists_mem_of_ne_nil _ hne
        obtain ⟨hmem, haside⟩ := mem_counted.mp (hkept ▸ hheader)
        obtain ⟨file, hfile, hread⟩ := (mem_of_map_eq_map_ok hheaders).mp hmem
        exact ⟨file, hfile, header, readHeader_eq_ok_iff.mp hread, haside⟩
  · rintro file hfile header ⟨hheader, haside⟩
    have hmem : header ∈ counted headers :=
      mem_counted.mpr ⟨(mem_of_map_eq_map_ok hheaders).mpr
        ⟨file, hfile, readHeader_eq_ok_iff.mpr hheader⟩, haside⟩
    generalize counted headers = kept at hsums hmem
    cases hsums with
    | none => exact absurd hmem List.not_mem_nil
    | some hne hall => exact ⟨_, by rw [hall header hmem]⟩

/-- The first of all files that counts is among those that have been read, if any
of these counts. -/
theorem mem_of_first {p : String → Prop} {front back : List String}
    {file first : String} (hsorted : (front ++ back).Pairwise (· < ·))
    (hfirst : First (· < ·) (fun other => other ∈ front ++ back ∧ p other) first)
    (hfile : file ∈ front) (hp : p file) : first ∈ front := by
  rcases List.mem_append.mp hfirst.holds.1 with hmem | hmem
  · exact hmem
  · have hlt := (List.pairwise_append.mp hsorted).2.2 file hfile first hmem
    exact absurd ⟨List.mem_append_left back hfile, hp⟩
      (hfirst.earliest file hlt)

/-- Nothing is wrong with files that have been read. -/
theorem no_fault_of_foldlM {front back : List String}
    {declared : Option Declared} (hsorted : (front ++ back).Pairwise (· < ·))
    (h : front.foldlM (addFile tree folder) none = .ok declared)
    {file : String} (hfile : file ∈ front) (error : LoadError) :
    ¬Fault tree folder (· ∈ front ++ back) file error := by
  obtain ⟨hheaders, -, hdeclared⟩ := declared_of_foldlM h
  obtain ⟨header, hheader⟩ := hheaders file hfile
  intro hfault
  rcases hfault.header_cases with
    hnone | ⟨first, header, header', hfirst, hname, hcounts, hne, -⟩
  · cases hnone.symm.trans (readHeader_eq_ok_iff.mpr hheader)
  · have hmem := mem_of_first hsorted hfirst hfile ⟨_, hcounts⟩
    obtain ⟨-, found, hfound⟩ := hfirst.holds
    cases hname.unique hfound.1
    obtain ⟨imports, heq⟩ := hdeclared _ hmem _ hfound
    obtain ⟨imports', heq'⟩ := hdeclared file hfile _ hcounts
    have hsame := Option.some.inj (heq.symm.trans heq')
    exact hne (congrArg Declared.name hsame)

theorem foldlM_eq_error {ε σ α : Type} {f : σ → α → Except ε σ} {e : ε} :
    ∀ {as : List α} {s : σ}, as.foldlM f s = .error e →
      ∃ front a back s', as = front ++ a :: back
        ∧ front.foldlM f s = .ok s' ∧ f s' a = .error e
  | [], s, h => by cases h
  | a :: as, s, h => by
      rw [List.foldlM_cons, bind_eq_error_iff] at h
      rcases h with hstep | ⟨s', hstep, hrest⟩
      · exact ⟨[], a, as, s, rfl, rfl, hstep⟩
      · obtain ⟨front, b, back, last, rfl, hfront, hb⟩ := foldlM_eq_error hrest
        refine ⟨a :: front, b, back, last, rfl, ?_, hb⟩
        rw [List.foldlM_cons]
        exact bind_eq_ok_iff.mpr ⟨s', hstep, hfront⟩

/-- What ends the reading of a folder is the first fault among its files. -/
theorem first_fault_of_foldlM {files : List String} {error : LoadError}
    (hsorted : files.Pairwise (· < ·))
    (h : files.foldlM (addFile tree folder) none = .error error) :
    ∃ file, Fault tree folder (· ∈ files) file error
      ∧ First (· < ·) (fun other => other ∈ files
        ∧ ∃ error, Fault tree folder (· ∈ files) other error) file := by
  obtain ⟨front, file, back, declared, rfl, hfront, hfile⟩ := foldlM_eq_error h
  have hmem : file ∈ front ++ file :: back := by simp
  have hfault :
      Fault tree folder (· ∈ front ++ file :: back) file error := by
    rcases hheader : readHeader tree (join folder file) with error' | header
    · rw [addFile, hheader] at hfile
      cases hfile
      exact fault_of_readHeader_eq_error hheader
    · rw [addFile, hheader] at hfile
      obtain ⟨haside, name, imports, rfl, hne, rfl⟩ := declare_eq_error hfile
      obtain ⟨-, hsome, hdeclared⟩ := declared_of_foldlM hfront
      obtain ⟨other, hother, hcounts⟩ := hsome name imports rfl
      obtain ⟨first, hfirst⟩ := exists_first
        (p := fun other => ∃ found, CountsWith tree (join folder other) found)
        (fun _ _ => String.lt_asymm) hsorted (List.mem_append_left _ hother)
        hcounts
      have hfirstFront := mem_of_first hsorted hfirst hother hcounts
      obtain ⟨-, found, hfound⟩ := hfirst.holds
      obtain ⟨_, heq⟩ := hdeclared first hfirstFront found hfound
      cases heq
      exact .mixedPackages hfirst hfound.1
        ⟨readHeader_eq_ok_iff.mp hheader, haside⟩ hne
  refine ⟨file, hfault, ⟨hmem, error, hfault⟩, ?_⟩
  rintro other hlt ⟨hother, error', hfault'⟩
  have hread := mem_front (fun _ _ => String.lt_asymm) hsorted hother hlt
  exact no_fault_of_foldlM hsorted hfront hread error' hfault'

end

/-! ## The folders of a module -/

theorem filterMapM_eq_error {ε α β : Type} {f : α → Except ε (Option β)}
    {e : ε} : ∀ {as : List α}, as.filterMapM f = .error e →
      ∃ front a back, as = front ++ a :: back ∧ f a = .error e
        ∧ ∀ a' ∈ front, ∃ b, f a' = .ok b
  | [], h => by cases h
  | a :: as, h => by
      rw [List.filterMapM_cons, bind_eq_error_iff] at h
      rcases h with ha | ⟨result, ha, hrest⟩
      · exact ⟨[], a, as, rfl, ha, by simp⟩
      · have has : as.filterMapM f = .error e := by
          cases result with
          | none => exact hrest
          | some b =>
              rcases bind_eq_error_iff.mp hrest with has | ⟨bs, -, hdone⟩
              · exact has
              · cases hdone
        obtain ⟨front, b, back, rfl, hb, hfront⟩ := filterMapM_eq_error has
        exact ⟨a :: front, b, back, rfl, hb,
          List.forall_mem_cons.mpr ⟨⟨result, ha⟩, hfront⟩⟩

section

variable {tree : FileTree} {root : String} (folder : RootFolder tree root)
  (modulePath : String) (pattern : Pattern)

/-- The folders that a load reads. -/
def selectedFolders : List SourceFolder :=
  (sourceFolders tree root folder.entries).filter fun source =>
    pattern.selects (source.importPath modulePath)

variable {folder modulePath pattern} (hwell : tree.top.WellFormed)

include hwell

/-- A selected file is one of a folder that a load reads. -/
theorem exists_of_selected {names : List String} {file : String}
    (h : Selected folder modulePath pattern names file) :
    ∃ source ∈ selectedFolders folder modulePath pattern,
      source.names = names := by
  obtain ⟨hmodule, hselects, hsource⟩ := h
  have hentries := hwell.at? folder.atBase
  obtain ⟨hfound, hfoundWell⟩ := hmodule.at? folder.atBase hentries
  have hfoundLeads := hmodule.leads folder.atBase hentries folder.leads
  have hfile := (mem_sourcesOf hfoundLeads hfound hfoundWell).mpr hsource
  have hmem := (mem_sourceFolders folder.leads folder.atBase hentries).mpr
    ⟨names, _, hmodule, List.ne_nil_of_mem hfile, rfl⟩
  exact ⟨_, List.mem_filter.mpr ⟨hmem, hselects⟩, rfl⟩

/-- The path of a folder that a load reads is the one that the search makes up,
and leads to the folder. -/
theorem leads_of_mem_selectedFolders {source : SourceFolder}
    (h : source ∈ selectedFolders folder modulePath pattern) :
    source.path = pathBelow root source.names
      ∧ Leads tree source.path folder.links (folder.base ++ source.names) := by
  have hentries := hwell.at? folder.atBase
  obtain ⟨names, found, hmodule, -, rfl⟩ :=
    (mem_sourceFolders folder.leads folder.atBase hentries).mp
      (List.mem_filter.mp h).1
  exact ⟨rfl, hmodule.leads folder.atBase hentries folder.leads⟩

/-- The selected files of a folder that a load reads are those it is read by. -/
theorem selected_iff_mem_files {source : SourceFolder}
    (h : source ∈ selectedFolders folder modulePath pattern) {file : String} :
    Selected folder modulePath pattern source.names file
      ↔ file ∈ source.files := by
  have hentries := hwell.at? folder.atBase
  obtain ⟨hmem, hselects⟩ := List.mem_filter.mp h
  obtain ⟨names, found, hmodule, -, rfl⟩ :=
    (mem_sourceFolders folder.leads folder.atBase hentries).mp hmem
  obtain ⟨hfound, hfoundWell⟩ := hmodule.at? folder.atBase hentries
  have hfoundLeads := hmodule.leads folder.atBase hentries folder.leads
  rw [mem_sourcesOf hfoundLeads hfound hfoundWell]
  constructor
  · rintro ⟨hmodule', -, hsource⟩
    rwa [moduleFolder_unique folder.atBase hentries hmodule hmodule']
  · exact fun hsource => ⟨hmodule, hselects, hsource⟩

/-- What is wrong with a file of a folder that a load reads. -/
theorem faultAt_iff {source : SourceFolder}
    (h : source ∈ selectedFolders folder modulePath pattern) {file : String}
    {error : LoadError} :
    FaultAt folder modulePath pattern (source.names, file) error
      ↔ file ∈ source.files
        ∧ Fault tree source.path (· ∈ source.files) file error := by
  have hsources : Selected folder modulePath pattern source.names
      = (· ∈ source.files) :=
    funext fun file => propext (selected_iff_mem_files hwell h)
  unfold FaultAt
  rw [(leads_of_mem_selectedFolders hwell h).1, hsources]

theorem ascending_selectedFolders :
    (selectedFolders folder modulePath pattern).Pairwise fun a b =>
      a.names < b.names :=
  (ascending_sourceFolders (hwell.at? folder.atBase)).filter _

theorem ascending_files {source : SourceFolder}
    (h : source ∈ selectedFolders folder modulePath pattern) :
    source.files.Pairwise (· < ·) := by
  obtain ⟨names, found, -, -, rfl⟩ :=
    (mem_sourceFolders folder.leads folder.atBase
      (hwell.at? folder.atBase)).mp (List.mem_filter.mp h).1
  exact NameSet.ascending _

/-- Nothing is wrong with the files of a folder that is loaded. -/
theorem no_faultAt_of_loadFolder {source : SourceFolder}
    {result : Option Package}
    (h : source ∈ selectedFolders folder modulePath pattern)
    (hload : loadFolder tree modulePath source = .ok result) (file : String)
    (error : LoadError) :
    ¬FaultAt folder modulePath pattern (source.names, file) error := by
  obtain ⟨declared, hread, -⟩ := bind_eq_ok_iff.mp hload
  rw [faultAt_iff hwell h]
  rintro ⟨hfile, hfault⟩
  have hsorted := ascending_files hwell h
  rw [← List.append_nil source.files] at hsorted
  refine no_fault_of_foldlM hsorted hread hfile error ?_
  rwa [List.append_nil]

/-- Nothing is wrong with the files of a module if all its folders are loaded. -/
theorem no_faultAt_of_loadFolders {packages : List Package}
    (h : loadFolders tree modulePath pattern
      (sourceFolders tree root folder.entries) = .ok packages)
    (place : List String × String) (error : LoadError) :
    ¬FaultAt folder modulePath pattern place error := by
  intro hfault
  obtain ⟨source, hsource, hnames⟩ := exists_of_selected hwell hfault.1
  obtain ⟨results, hresults, -⟩ := filterMapM_eq_ok h
  obtain ⟨result, -, hload⟩ := exists_of_map_eq_map_ok hresults hsource
  refine no_faultAt_of_loadFolder hwell hsource hload place.2 error ?_
  rwa [hnames]

/-- What ends the loading of the folders is the first fault among all files. -/
theorem first_faultAt_of_loadFolders {error : LoadError}
    (h : loadFolders tree modulePath pattern
      (sourceFolders tree root folder.entries) = .error error) :
    ∃ place, FaultAt folder modulePath pattern place error
      ∧ First Earlier (fun place => ∃ error,
        FaultAt folder modulePath pattern place error) place := by
  obtain ⟨front, source, back, heq, hload, hfront⟩ := filterMapM_eq_error h
  have hall : selectedFolders folder modulePath pattern
      = front ++ source :: back := heq
  have hsource : source ∈ selectedFolders folder modulePath pattern := by
    rw [hall]
    exact List.mem_append_right front (List.mem_cons_self ..)
  have hread : source.files.foldlM (addFile tree source.path) none
      = .error error := by
    rcases bind_eq_error_iff.mp hload with hread | ⟨_, -, hdone⟩
    · exact hread
    · cases hdone
  obtain ⟨file, hfault, hfirst⟩ :=
    first_fault_of_foldlM (ascending_files hwell hsource) hread
  have hat := (faultAt_iff hwell hsource).mpr ⟨hfirst.holds.1, hfault⟩
  refine ⟨(source.names, file), hat, ⟨error, hat⟩, ?_⟩
  rintro ⟨names, other⟩ hearlier ⟨error', hfault'⟩
  rcases hearlier with hlt | ⟨hnames, hlt⟩
  · obtain ⟨source', hsource', hnames⟩ := exists_of_selected hwell hfault'.1
    simp only at hnames hlt
    subst hnames
    have hsorted : (selectedFolders folder modulePath pattern).Pairwise
        fun a b => a.names < b.names := ascending_selectedFolders hwell
    have hmem := mem_front (fun _ _ => List.lt_asymm) (hall ▸ hsorted)
      (hall ▸ hsource') hlt
    obtain ⟨result, hload'⟩ := hfront source' hmem
    exact no_faultAt_of_loadFolder hwell hsource' hload' other error' hfault'
  · simp only at hnames hlt
    subst hnames
    exact hfirst.earliest other hlt
      ((faultAt_iff hwell hsource).mp hfault' |>.imp id fun h => ⟨error', h⟩)

end

/-! ## One first fault -/

theorem Fault.unique {tree : FileTree} {folder file : String}
    {source : String → Prop} {error error' : LoadError}
    (h : Fault tree folder source file error)
    (h' : Fault tree folder source file error') : error = error' := by
  rcases h.header_cases with
    hnone | ⟨first, header, found, hfirst, hheader, hcounts, -, rfl⟩
  · rcases h'.header_cases with hnone' | ⟨_, _, found', -, -, hcounts', -, -⟩
    · exact Except.error.inj (hnone.symm.trans hnone')
    · cases hnone.symm.trans (readHeader_eq_ok_iff.mpr hcounts'.1)
  · rcases h'.header_cases with
      hnone' | ⟨first', header', found', hfirst', hheader', hcounts', -, rfl⟩
    · cases hnone'.symm.trans (readHeader_eq_ok_iff.mpr hcounts.1)
    · cases hfirst.unique hfirst' (Std.lt_trichotomy _ _)
      cases hheader.unique hheader'
      cases hcounts.1.unique hcounts'.1
      rfl

theorem earlier_or_eq_or_earlier (place place' : List String × String) :
    Earlier place place' ∨ place = place' ∨ Earlier place' place := by
  obtain ⟨names, file⟩ := place
  obtain ⟨names', file'⟩ := place'
  rcases Std.lt_trichotomy names names' with hlt | rfl | hgt
  · exact Or.inl (Or.inl hlt)
  · rcases Std.lt_trichotomy file file' with hlt | rfl | hgt
    · exact Or.inl (Or.inr ⟨rfl, hlt⟩)
    · exact Or.inr (Or.inl rfl)
    · exact Or.inr (Or.inr (Or.inr ⟨rfl, hgt⟩))
  · exact Or.inr (Or.inr (Or.inl hgt))

/-- The folders of a module end in the error of the first fault among the files,
or there is none. -/
theorem loadFolders_eq_error_iff {tree : FileTree} {root modulePath : String}
    {folder : RootFolder tree root} {pattern : Pattern} {error : LoadError}
    (hwell : tree.top.WellFormed) :
    loadFolders tree modulePath pattern (sourceFolders tree root folder.entries)
        = .error error
      ↔ ∃ place, FaultAt folder modulePath pattern place error
        ∧ First Earlier (fun place => ∃ error,
          FaultAt folder modulePath pattern place error) place := by
  constructor
  · exact first_faultAt_of_loadFolders hwell
  · rintro ⟨place, hfault, hfirst⟩
    cases hload : loadFolders tree modulePath pattern
      (sourceFolders tree root folder.entries) with
    | ok packages =>
        exact absurd hfault (no_faultAt_of_loadFolders hwell hload place error)
    | error error' =>
        obtain ⟨place', hfault', hfirst'⟩ :=
          first_faultAt_of_loadFolders hwell hload
        cases hfirst.unique hfirst' (earlier_or_eq_or_earlier place place')
        rw [hfault.2.unique hfault'.2]

/-! ## The module -/

theorem readPath_eq_ok_iff {tree : FileTree} {root modulePath : String} :
    readPath tree root = .ok modulePath
      ↔ ∃ text, tree.readText (join root "go.mod") = .ok text
        ∧ pathOfText? text = some modulePath := by
  simp only [readPath]
  constructor
  · intro h
    split at h
    · cases h
    · cases h
    · next text hread =>
        split at h
        · next hpath =>
            cases h
            exact ⟨text, hread, hpath⟩
        · cases h
  · rintro ⟨text, hread, hpath⟩
    simp only [hread, hpath]

theorem readPath_eq_error_iff {tree : FileTree} {root : String}
    {error : LoadError} :
    readPath tree root = .error error ↔ ModuleFileFault tree root error := by
  simp only [readPath]
  constructor
  · intro h
    split at h
    · next hread =>
        cases h
        exact .noModuleFile hread
    · next cause hcause hread =>
        cases h
        exact .unreadable hread hcause
    · next text hread =>
        split at h
        · cases h
        · next hnone =>
            cases h
            exact .noDirective hread hnone
  · intro h
    cases h with
    | noModuleFile hread => rw [hread]
    | unreadable hread hcause =>
        rw [hread]
        split
        · next heq => exact absurd (Except.error.inj heq) hcause
        · next heq => rw [Except.error.inj heq]
        · next heq => cases heq
    | noDirective hread hnone => simp only [hread, hnone]

theorem nonempty_rootFolder_iff {tree : FileTree} {root : String} :
    Nonempty (RootFolder tree root)
      ↔ ∃ entries, tree.entries? root = some entries := by
  constructor
  · rintro ⟨folder⟩
    exact ⟨_, folder.leads.entries? folder.atBase⟩
  · rintro ⟨entries, hentries⟩
    obtain ⟨base, links, hleads, hat⟩ := exists_leads_of_entries? hentries
    exact ⟨⟨links, base, entries, hleads, hat⟩⟩

/-- The load of a module whose root is a folder. -/
theorem RootFolder.load_rejects_iff {tree : FileTree} {root : String}
    (folder : RootFolder tree root) {pattern : String} {error : LoadError} :
    load tree root pattern = .error error
      ↔ readPath tree root = .error error ∨ ∃ modulePath,
        readPath tree root = .ok modulePath
          ∧ loadFolders tree modulePath (.ofText modulePath pattern)
            (sourceFolders tree root folder.entries) = .error error := by
  rw [load, folder.leads.entries? folder.atBase]
  simp only [bind_eq_error_iff]
  refine or_congr_right (exists_congr fun modulePath => and_congr_right ?_)
  intro _
  constructor
  · rintro (h | ⟨_, -, hdone⟩)
    · exact h
    · cases hdone
  · exact Or.inl

theorem firstFault_of_load_eq_error {tree : FileTree} {root pattern : String}
    {error : LoadError} (hwell : tree.top.WellFormed)
    (h : load tree root pattern = .error error) :
    FirstFault tree root pattern error := by
  by_cases hroot : Nonempty (RootFolder tree root)
  · obtain ⟨folder⟩ := hroot
    rcases folder.load_rejects_iff.mp h with hpath | ⟨modulePath, hpath, hrest⟩
    · exact .moduleFile ⟨folder⟩ (readPath_eq_error_iff.mp hpath)
    · obtain ⟨text, hread, htext⟩ := readPath_eq_ok_iff.mp hpath
      obtain ⟨place, hfault, hfirst⟩ := (loadFolders_eq_error_iff hwell).mp hrest
      exact .source folder hread htext hfault hfirst
  · have hnone : tree.entries? root = none := by
      refine Option.eq_none_iff_forall_ne_some.mpr fun entries hentries => ?_
      exact hroot (nonempty_rootFolder_iff.mpr ⟨entries, hentries⟩)
    rw [load, hnone] at h
    cases h
    exact .notAFolder hroot

theorem load_eq_error_of_firstFault {tree : FileTree} {root pattern : String}
    {error : LoadError} (hwell : tree.top.WellFormed)
    (h : FirstFault tree root pattern error) :
    load tree root pattern = .error error := by
  cases h with
  | notAFolder hroot =>
      cases hentries : tree.entries? root with
      | none => rw [load, hentries]
      | some entries =>
          exact absurd (nonempty_rootFolder_iff.mpr ⟨entries, hentries⟩) hroot
  | moduleFile hroot hfault =>
      obtain ⟨folder⟩ := hroot
      exact folder.load_rejects_iff.mpr
        (Or.inl (readPath_eq_error_iff.mpr hfault))
  | source folder hread hpath hfault hfirst =>
      have hmodule := readPath_eq_ok_iff.mpr ⟨_, hread, hpath⟩
      have hfolders := (loadFolders_eq_error_iff hwell).mpr ⟨_, hfault, hfirst⟩
      exact folder.load_rejects_iff.mpr (Or.inr ⟨_, hmodule, hfolders⟩)

/-- A load fails with the first thing that is wrong, and succeeds if nothing is
wrong. -/
theorem load_eq_error_iff {tree : FileTree} (hwell : tree.top.WellFormed)
    (root pattern : String) :
    (∀ error, load tree root pattern = .error error
      ↔ FirstFault tree root pattern error)
      ∧ ((∃ loaded, load tree root pattern = .ok loaded)
        ↔ ∀ error, ¬FirstFault tree root pattern error) := by
  refine ⟨fun error => ⟨firstFault_of_load_eq_error hwell,
    load_eq_error_of_firstFault hwell⟩, ?_, ?_⟩
  · rintro ⟨loaded, hload⟩ error hfault
    cases hload.symm.trans (load_eq_error_of_firstFault hwell hfault)
  · intro hnone
    cases hload : load tree root pattern with
    | ok loaded => exact ⟨loaded, rfl⟩
    | error error =>
        exact absurd (firstFault_of_load_eq_error hwell hload) (hnone error)

/-- A module with a fault in two folders. The folder `a-b` has a file without a
package clause; in `a/b`, which comes before it, two files that are not set aside
name different packages. -/
def twiceFaultyTree : FileTree where
  top := .folder [
    ("m", .folder [
      ("go.mod", .file "module x/m".toUTF8),
      ("a-b", .folder [("f.go", .file "".toUTF8)]),
      ("a", .folder [
        ("b", .folder [
          ("o.go", .file "// +build ignore\n\npackage o".toUTF8),
          ("p.go", .file "package p".toUTF8),
          ("q.go", .link "p.go"),
          ("r.go", .file "package r".toUTF8)])])])]
  working := []

theorem wellFormed_twiceFaultyTree : twiceFaultyTree.top.WellFormed := by
  decide

theorem load_eq_error_iff_twiceFaultyTree :
    twiceFaultyTree.top.WellFormed
      ∧ load twiceFaultyTree "m" "./..."
        = .error (.mixedPackages "m/a/b" "p" "r")
      ∧ FirstFault twiceFaultyTree "m" "./..."
        (.mixedPackages "m/a/b" "p" "r") := by
  have hload : load twiceFaultyTree "m" "./..."
      = .error (.mixedPackages "m/a/b" "p" "r") := by decide +kernel
  exact ⟨wellFormed_twiceFaultyTree, hload,
    ((load_eq_error_iff wellFormed_twiceFaultyTree "m" "./...").1 _).mp hload⟩

end ImportChart.Module
