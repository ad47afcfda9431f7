import ImportChart.Module.SourceFolder
import ImportChart.Proofs.Walk

/-!
# The folders of a module

Which folders belong to a module and which of their entries are sources, said
of locations in the tree and not of paths (`ModuleFolder`, `IsSource`). The
search meets the same folders under the paths it makes up on its way down
(`mem_foldersFrom`), because each of these paths leads to the folder's location
(`ModuleFolder.leads`); and it meets each folder once (`pairwise_foldersFrom`).
-/

namespace ImportChart.Module

open FileTree

/-! ## Names -/

/-- The name starts with a dot or an underscore. -/
def HasHiddenName (name : String) : Prop :=
  ∃ rest, name.toList = '.' :: rest ∨ name.toList = '_' :: rest

/-- The name of a folder that is not searched. -/
def HasSkippedName (name : String) : Prop :=
  name = "vendor" ∨ name = "testdata" ∨ HasHiddenName name

/-- The name of a source: one of Go, but not of a test. -/
def HasSourceName (name : String) : Prop :=
  ".go".toList <:+ name.toList ∧ ¬"_test.go".toList <:+ name.toList
    ∧ ¬HasHiddenName name

theorem isHidden_iff {name : String} :
    isHidden name = true ↔ HasHiddenName name := by
  unfold isHidden HasHiddenName
  cases name.toList with
  | nil => simp
  | cons c cs => simp [exists_or]

theorem isSkippedFolder_iff {name : String} :
    isSkippedFolder name = true ↔ HasSkippedName name := by
  simp only [isSkippedFolder, HasSkippedName, Bool.or_eq_true, beq_iff_eq,
    isHidden_iff, or_assoc]

theorem isSourceName_iff {name : String} :
    isSourceName name = true ↔ HasSourceName name := by
  simp only [isSourceName, HasSourceName, Bool.and_eq_true, Bool.not_eq_true',
    ← isHidden_iff, List.isSuffixOf_iff_suffix, ← Bool.not_eq_true, and_assoc]

/-! ## Entries, links followed -/

/-- The entry that a name has in the folder at a location is or leads to a
file. -/
def LeadsToFile (tree : FileTree) (links : Nat) (location : List String)
    (name : String) : Prop :=
  ∃ place, tree.walk .reading links location [name] = .ok (.file place)

/-- The entry that a name has in the folder at a location is or leads to a
folder. -/
def LeadsToFolder (tree : FileTree) (links : Nat) (location : List String)
    (name : String) : Prop :=
  ∃ place, tree.walk .reading links location [name] = .ok (.folder place)

/-- `name` is a source of the folder at a location, whose entries are given. -/
structure IsSource (tree : FileTree) (links : Nat) (location : List String)
    (entries : List (String × FileNode)) (name : String) : Prop where
  listed : name ∈ entries.map (·.1)
  named : HasSourceName name
  noFolder : ¬LeadsToFolder tree links location name

/-- `ModuleFolder tree links location entries names found`: if the folder at
`location` with these entries belongs to a module, so does the one at `names`
below it, with the entries `found`. All folders on the way are real ones. -/
inductive ModuleFolder (tree : FileTree) (links : Nat) : List String →
    List (String × FileNode) → List String → List (String × FileNode) → Prop
  | top {location : List String} {entries : List (String × FileNode)} :
      ModuleFolder tree links location entries [] entries
  | enter {location names : List String}
      {entries sub found : List (String × FileNode)} {name : String} :
      (name, .folder sub) ∈ entries → ¬HasSkippedName name →
      ¬LeadsToFile tree links (location ++ [name]) "go.mod" →
      ModuleFolder tree links (location ++ [name]) sub names found →
      ModuleFolder tree links location entries (name :: names) found

section

variable {tree : FileTree} {links : Nat} {path : String}
  {location : List String}

theorem isFile_join_iff {name : String} (h : Leads tree path links location)
    (hname : '/' ∉ name.toList) :
    tree.isFile (join path name) = true
      ↔ LeadsToFile tree links location name := by
  rw [isFile, h.place_join hname, LeadsToFile]
  split
  · next place heq => simp [heq]
  · next hne => simpa using hne

theorem isFolder_join_iff {name : String} (h : Leads tree path links location)
    (hname : '/' ∉ name.toList) :
    tree.isFolder (join path name) = true
      ↔ LeadsToFolder tree links location name := by
  rw [isFolder, h.place_join hname, LeadsToFolder]
  split
  · next place heq => simp [heq]
  · next hne => simpa using hne

theorem enters_iff {name : String}
    (h : Leads tree (join path name) links (location ++ [name])) :
    enters tree (join path name) name = true
      ↔ ¬HasSkippedName name
        ∧ ¬LeadsToFile tree links (location ++ [name]) "go.mod" := by
  rw [enters, Bool.and_eq_true, Bool.not_eq_true', Bool.not_eq_true',
    ← Bool.not_eq_true, ← Bool.not_eq_true, isSkippedFolder_iff,
    isFile_join_iff h (by decide)]

/-! ## Real entries -/

variable {entries : List (String × FileNode)}
  (hat : tree.top.at? location = some (.folder entries))
  (hwell : FileNode.WellFormed (.folder entries))

include hat hwell

theorem named?_eq_some {name : String} {node : FileNode}
    (hentry : (name, node) ∈ entries) :
    tree.named? location name = some node := by
  rw [named?, hat]
  exact (FileNode.lookup_eq_some_iff hwell.nodup).mpr hentry

theorem at?_below {name : String} {node : FileNode}
    (hentry : (name, node) ∈ entries) :
    tree.top.at? (location ++ [name]) = some node := by
  rw [FileNode.at?_append_singleton]
  exact named?_eq_some hat hwell hentry

theorem leads_below {name : String} {sub : List (String × FileNode)}
    (hleads : Leads tree path links location)
    (hentry : (name, .folder sub) ∈ entries) :
    Leads tree (join path name) links (location ++ [name]) :=
  hleads.join (hwell.isEntryName hentry) (named?_eq_some hat hwell hentry)

/-- A real file is a file, a real folder is a folder, and a link is what it
leads to. -/
theorem isSource_iff (hleads : Leads tree path links location)
    {entry : String × FileNode} (hentry : entry ∈ entries) :
    isSource tree path entry = true
      ↔ HasSourceName entry.1 ∧ ¬LeadsToFolder tree links location entry.1 := by
  obtain ⟨name, node⟩ := entry
  obtain ⟨hempty, hdot, hdots, hslash⟩ := hwell.isEntryName hentry
  have hfound := named?_eq_some hat hwell hentry
  have hwalk := @walk_step tree name ⟨hempty, hdot, hdots⟩ links location []
  rw [hfound] at hwalk
  rw [isSource, Bool.and_eq_true, isSourceName_iff]
  refine and_congr_right fun _ => ?_
  cases node with
  | file content =>
      have hfile : ¬LeadsToFolder tree links location name := by
        rintro ⟨place, hplace⟩
        rw [hwalk] at hplace
        cases hplace
      simp [hfile]
  | folder sub =>
      have hfolder : LeadsToFolder tree links location name :=
        ⟨_, hwalk.trans (walk_nil _ _)⟩
      simp [hfolder]
  | link target =>
      rw [← isFolder_join_iff hleads hslash]
      simp

end

/-! ## The search -/

/-- The path that the search makes up for the folder at `names` below the one at
`path`. -/
def pathBelow (path : String) (names : List String) : String :=
  names.foldl join path

section

variable {tree : FileTree} {links : Nat}

theorem ModuleFolder.at? {location names : List String}
    {entries found : List (String × FileNode)}
    (h : ModuleFolder tree links location entries names found)
    (hat : tree.top.at? location = some (.folder entries))
    (hwell : FileNode.WellFormed (.folder entries)) :
    tree.top.at? (location ++ names) = some (.folder found)
      ∧ FileNode.WellFormed (.folder found) := by
  induction h with
  | top => exact ⟨by rw [List.append_nil, hat], hwell⟩
  | enter hentry _ _ _ ih =>
      have hfound := ih (at?_below hat hwell hentry) (hwell.of_mem hentry)
      rwa [List.append_assoc] at hfound

theorem ModuleFolder.isEntryName {location names : List String}
    {entries found : List (String × FileNode)}
    (h : ModuleFolder tree links location entries names found)
    (hwell : FileNode.WellFormed (.folder entries)) :
    ∀ name ∈ names, FileNode.IsEntryName name := by
  induction h with
  | top => simp
  | enter hentry _ _ _ ih =>
      exact List.forall_mem_cons.mpr
        ⟨hwell.isEntryName hentry, ih (hwell.of_mem hentry)⟩

/-- The path that the search makes up leads to the folder. -/
theorem ModuleFolder.leads {location names : List String}
    {entries found : List (String × FileNode)}
    (h : ModuleFolder tree links location entries names found) {path : String}
    (hat : tree.top.at? location = some (.folder entries))
    (hwell : FileNode.WellFormed (.folder entries))
    (hleads : Leads tree path links location) :
    Leads tree (pathBelow path names) links (location ++ names) := by
  induction h generalizing path with
  | top => rwa [List.append_nil]
  | enter hentry _ _ _ ih =>
      have hfound := ih (at?_below hat hwell hentry) (hwell.of_mem hentry)
        (leads_below hat hwell hleads hentry)
      rwa [List.append_assoc] at hfound

theorem foldersAmong_eq_flatMap (path : String) (names : List String) :
    ∀ entries : List (String × FileNode),
    foldersAmong tree path names entries
      = entries.flatMap (foldersUnder tree path names)
  | [] => by rw [foldersAmong, List.flatMap_nil]
  | entry :: entries => by
      rw [foldersAmong, foldersAmong_eq_flatMap path names entries,
        List.flatMap_cons]

theorem folderItself_eq (path : String) (names : List String)
    (entries : List (String × FileNode)) :
    folderItself tree path names entries
      = if sourcesOf tree path entries = [] then []
        else [⟨names, path, sourcesOf tree path entries⟩] := by
  unfold folderItself
  cases sourcesOf tree path entries with
  | nil => rfl
  | cons file files => rfl

theorem mem_folderItself {folder : SourceFolder} {path : String}
    {names : List String} {entries : List (String × FileNode)} :
    folder ∈ folderItself tree path names entries
      ↔ sourcesOf tree path entries ≠ []
        ∧ folder = ⟨names, path, sourcesOf tree path entries⟩ := by
  rw [folderItself_eq]
  split
  · next hnone => simp [hnone]
  · next hsome => simp [hsome]

theorem pairwise_folderItself (path : String) (names : List String)
    (entries : List (String × FileNode))
    (R : SourceFolder → SourceFolder → Prop) :
    (folderItself tree path names entries).Pairwise R := by
  rw [folderItself_eq]
  split
  · exact List.Pairwise.nil
  · exact List.pairwise_singleton R _

/-- The search meets the folders of the module, each with its path and with its
names behind those of the folder where the search starts. -/
theorem mem_foldersFrom {folder : SourceFolder} {node : FileNode}
    (hwell : node.WellFormed) :
    ∀ {path : String} {location names : List String},
      Leads tree path links location →
      tree.top.at? location = some node →
      (folder ∈ foldersFrom tree path names node
        ↔ ∃ entries down found, node = .folder entries
          ∧ ModuleFolder tree links location entries down found
          ∧ folder ∈ folderItself tree (pathBelow path down)
            (names ++ down) found) := by
  induction hwell with
  | file content => simp [foldersFrom]
  | link target => simp [foldersFrom]
  | @folder entries hnodup hnames hbelow ih =>
      intro path location names hleads hat
      have hwell := FileNode.WellFormed.folder hnodup hnames hbelow
      rw [foldersFrom, List.mem_append, foldersAmong_eq_flatMap,
        List.mem_flatMap]
      constructor
      · rintro (hitself | ⟨⟨name, node⟩, hentry, hunder⟩)
        · refine ⟨entries, [], entries, rfl, ModuleFolder.top, ?_⟩
          rwa [List.append_nil]
        · rw [foldersUnder] at hunder
          split at hunder
          · next henters =>
              cases node with
              | file _ => simp [foldersFrom] at hunder
              | link _ => simp [foldersFrom] at hunder
              | folder sub =>
                  have hsub := leads_below hat hwell hleads hentry
                  obtain ⟨hname, hmodule⟩ := (enters_iff hsub).mp henters
                  obtain ⟨_, down, found, heq, hdown, hfolder⟩ :=
                    (ih _ hentry hsub (at?_below hat hwell hentry)).mp hunder
                  cases heq
                  refine ⟨entries, name :: down, found, rfl,
                    ModuleFolder.enter hentry hname hmodule hdown, ?_⟩
                  rwa [List.append_assoc] at hfolder
          · cases hunder
      · rintro ⟨_, down, found, heq, hdown, hfolder⟩
        cases heq
        cases hdown with
        | top =>
            rw [List.append_nil] at hfolder
            exact Or.inl hfolder
        | @enter _ down _ sub _ name hentry hname hmodule hdown =>
            have hsub := leads_below hat hwell hleads hentry
            refine Or.inr ⟨(name, .folder sub), hentry, ?_⟩
            rw [foldersUnder, if_pos ((enters_iff hsub).mpr ⟨hname, hmodule⟩)]
            refine (ih _ hentry hsub (at?_below hat hwell hentry)).mpr
              ⟨sub, down, found, rfl, hdown, ?_⟩
            rwa [List.append_assoc]

/-! ## Each folder once -/

/-- Below a folder the names go on from its own. -/
theorem prefix_of_mem_foldersFrom {folder : SourceFolder} {node : FileNode}
    (hwell : node.WellFormed) : ∀ {path : String} {names : List String},
      folder ∈ foldersFrom tree path names node → names <+: folder.names := by
  induction hwell with
  | file content => simp [foldersFrom]
  | link target => simp [foldersFrom]
  | @folder entries _ _ _ ih =>
      intro path names hfolder
      rw [foldersFrom, List.mem_append, foldersAmong_eq_flatMap,
        List.mem_flatMap] at hfolder
      rcases hfolder with hitself | ⟨⟨name, node⟩, hentry, hunder⟩
      · obtain ⟨-, rfl⟩ := mem_folderItself.mp hitself
        exact List.prefix_refl names
      · rw [foldersUnder] at hunder
        split at hunder
        · exact (List.prefix_append names [name]).trans (ih _ hentry hunder)
        · cases hunder

theorem prefix_of_mem_foldersUnder {folder : SourceFolder} {path name : String}
    {names : List String} {node : FileNode} (hwell : node.WellFormed)
    (h : folder ∈ foldersUnder tree path names (name, node)) :
    names ++ [name] <+: folder.names := by
  rw [foldersUnder] at h
  split at h
  · exact prefix_of_mem_foldersFrom hwell h
  · cases h

/-- The search meets no folder twice. -/
theorem pairwise_foldersFrom {node : FileNode} (hwell : node.WellFormed) :
    ∀ (path : String) (names : List String),
      (foldersFrom tree path names node).Pairwise fun a b =>
        a.names ≠ b.names := by
  induction hwell with
  | file content => simp [foldersFrom]
  | link target => simp [foldersFrom]
  | @folder entries hnodup _ hbelow ih =>
      intro path names
      rw [foldersFrom, foldersAmong_eq_flatMap, List.pairwise_append,
        List.pairwise_flatMap]
      refine ⟨pairwise_folderItself path names entries _, ⟨?_, ?_⟩, ?_⟩
      · rintro ⟨name, node⟩ hentry
        rw [foldersUnder]
        split
        · exact ih _ hentry _ _
        · exact List.Pairwise.nil
      · rw [List.nodup_iff_pairwise_ne, List.pairwise_map] at hnodup
        refine hnodup.imp_of_mem ?_
        rintro ⟨name, node⟩ ⟨name', node'⟩ hentry hentry' hne a ha b hb heq
        have hprefixA := prefix_of_mem_foldersUnder (hbelow _ hentry) ha
        have hprefixB := prefix_of_mem_foldersUnder (hbelow _ hentry') hb
        rw [← heq] at hprefixB
        have hnames :=
          List.prefix_of_prefix_length_le hprefixA hprefixB (by simp)
        have hsame := hnames.eq_of_length (by simp)
        exact hne (by simpa using hsame)
      · intro a ha b hb heq
        obtain ⟨⟨name, node⟩, hentry, hunder⟩ := List.mem_flatMap.mp hb
        have hprefixB :=
          (prefix_of_mem_foldersUnder (hbelow _ hentry) hunder).length_le
        obtain ⟨-, rfl⟩ := mem_folderItself.mp ha
        rw [← heq, List.length_append, List.length_singleton] at hprefixB
        exact Nat.not_succ_le_self names.length hprefixB

/-! ## The source folders of a module -/

theorem mem_sourcesOf {path name : String} {location : List String}
    {entries : List (String × FileNode)}
    (hleads : Leads tree path links location)
    (hat : tree.top.at? location = some (.folder entries))
    (hwell : FileNode.WellFormed (.folder entries)) :
    name ∈ sourcesOf tree path entries
      ↔ IsSource tree links location entries name := by
  rw [sourcesOf, ← NameSet.mem_def, NameSet.mem_ofList, List.mem_map]
  constructor
  · rintro ⟨entry, hentry, rfl⟩
    obtain ⟨hentry, hsource⟩ := List.mem_filter.mp hentry
    obtain ⟨hname, hfolder⟩ := (isSource_iff hat hwell hleads hentry).mp hsource
    exact ⟨List.mem_map_of_mem hentry, hname, hfolder⟩
  · rintro ⟨hlisted, hname, hfolder⟩
    obtain ⟨entry, hentry, rfl⟩ := List.mem_map.mp hlisted
    refine ⟨entry, List.mem_filter.mpr ⟨hentry, ?_⟩, rfl⟩
    exact (isSource_iff hat hwell hleads hentry).mpr ⟨hname, hfolder⟩

variable {root : String} {base : List String}
  {entries : List (String × FileNode)}

theorem mem_sourceFolders (hleads : Leads tree root links base)
    (hat : tree.top.at? base = some (.folder entries))
    (hwell : FileNode.WellFormed (.folder entries)) {folder : SourceFolder} :
    folder ∈ sourceFolders tree root entries
      ↔ ∃ names found, ModuleFolder tree links base entries names found
        ∧ sourcesOf tree (pathBelow root names) found ≠ []
        ∧ folder = ⟨names, pathBelow root names,
          sourcesOf tree (pathBelow root names) found⟩ := by
  rw [sourceFolders, Sorting.mem_sort, mem_foldersFrom hwell hleads hat]
  simp only [List.nil_append, mem_folderItself]
  constructor
  · rintro ⟨_, names, found, heq, hfolder⟩
    cases heq
    exact ⟨names, found, hfolder⟩
  · rintro ⟨names, found, hfolder⟩
    exact ⟨entries, names, found, rfl, hfolder⟩

theorem pairwise_sourceFolders (hwell : FileNode.WellFormed (.folder entries)) :
    (sourceFolders tree root entries).Pairwise fun a b => a.names ≠ b.names :=
  ((Sorting.sort_perm _ _).pairwise_iff fun h => h.symm).mpr
    (pairwise_foldersFrom hwell root [])

/-! ## Folders in order -/

theorem names_total (a b : SourceFolder) :
    !b.names.lex a.names || !a.names.lex b.names := by
  simp only [Bool.or_eq_true, Bool.not_eq_true', List.lex_eq_false_iff_ge]
  exact List.le_total _ _

theorem names_trans (a b c : SourceFolder) :
    !b.names.lex a.names → !c.names.lex b.names → !c.names.lex a.names := by
  simp only [Bool.not_eq_true', List.lex_eq_false_iff_ge]
  exact List.le_trans

/-- The folders come in the order of their names, component by component. -/
theorem ascending_sourceFolders
    (hwell : FileNode.WellFormed (.folder entries)) :
    (sourceFolders tree root entries).Pairwise fun a b => a.names < b.names := by
  have hle := Sorting.pairwise_sort names_total names_trans
    (foldersFrom tree root [] (.folder entries))
  refine (hle.and (pairwise_sourceFolders hwell)).imp ?_
  rintro a b ⟨hab, hne⟩
  rw [Bool.not_eq_true', List.lex_eq_false_iff_ge] at hab
  exact List.not_le.mp fun hba => hne (List.le_antisymm hab hba)

end

end ImportChart.Module
