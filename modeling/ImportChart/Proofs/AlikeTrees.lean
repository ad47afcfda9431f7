import ImportChart.Module.Load
import ImportChart.Proofs.ModuleFolders
import Mathlib.Data.List.Nodup

/-!
# Trees that are alike

Two trees are alike if the same names, kinds of nodes and links stand in the
same places of both and their files hold contents that are related in a given
way. In which order a folder lists its entries is left open.

A walk sees nothing but names, kinds and links, so a path leads to the same
place in both trees (`Alike.place_eq`). Step by step down a module the search
therefore enters the same folders and meets the same sources in them, in
whatever order it is told of them (`mem_foldersFrom_iff_of_alike`); and since no
folder is met twice, what it finds is the same once it is sorted
(`sourceFolders_eq_of_alike`).

From there on a load is a matter of texts. Of alike trees that have the same
text in `go.mod` and in the sources of the selected folders the same module is
loaded, or the same error comes up (`load_eq_of_readText`).
-/

namespace ImportChart

/-- Of two related results both are missing or both are there. -/
theorem eq_none_or_exists_of_rel {α β : Type} {r : α → β → Prop}
    {found : Option α} {found' : Option β} (h : Option.Rel r found found') :
    (found = none ∧ found' = none)
      ∨ ∃ a b, found = some a ∧ found' = some b ∧ r a b := by
  cases h with
  | none => exact Or.inl ⟨rfl, rfl⟩
  | some hab => exact Or.inr ⟨_, _, rfl, rfl, hab⟩

namespace FileNode

/-- The nodes have the same shape, and contents that are `same` in the same
places. -/
inductive Alike (same : ByteArray → ByteArray → Prop) :
    FileNode → FileNode → Prop
  | file {content content' : ByteArray} : same content content' →
      Alike same (.file content) (.file content')
  | link (target : String) : Alike same (.link target) (.link target)
  | folder {entries entries' : List (String × FileNode)} :
      (entries.map (·.1)).Perm (entries'.map (·.1)) →
      (∀ name node node', (name, node) ∈ entries → (name, node') ∈ entries' →
        Alike same node node') →
      Alike same (.folder entries) (.folder entries')

variable {same : ByteArray → ByteArray → Prop}

/-! ## Entries with the same names -/

section

variable {entries entries' : List (String × FileNode)}
  (hnames : (entries.map (·.1)).Perm (entries'.map (·.1)))

include hnames

theorem exists_mem_of_names_perm {name : String} {node : FileNode}
    (hentry : (name, node) ∈ entries) : ∃ node', (name, node') ∈ entries' := by
  obtain ⟨⟨_, node'⟩, hentry', rfl⟩ :=
    List.mem_map.mp (hnames.mem_iff.mp (List.mem_map_of_mem hentry))
  exact ⟨node', hentry'⟩

/-- What holds alike of entries with one name holds of some entry of both
listings or of none. -/
theorem exists_mem_iff_of_names_perm {p p' : String × FileNode → Prop}
    (h : ∀ name node node', (name, node) ∈ entries → (name, node') ∈ entries' →
      (p (name, node) ↔ p' (name, node'))) :
    (∃ entry ∈ entries, p entry) ↔ ∃ entry ∈ entries', p' entry := by
  constructor
  · rintro ⟨⟨name, node⟩, hentry, hp⟩
    obtain ⟨node', hentry'⟩ := exists_mem_of_names_perm hnames hentry
    exact ⟨_, hentry', (h name node node' hentry hentry').mp hp⟩
  · rintro ⟨⟨name, node'⟩, hentry', hp⟩
    obtain ⟨node, hentry⟩ := exists_mem_of_names_perm hnames.symm hentry'
    exact ⟨_, hentry, (h name node node' hentry hentry').mpr hp⟩

end

theorem Alike.wellFormed {node node' : FileNode} (h : Alike same node node')
    (hwell : WellFormed node) : WellFormed node' := by
  induction h with
  | file _ => exact .file _
  | link target => exact .link target
  | folder hnames _ ih =>
      refine .folder (hnames.nodup_iff.mp hwell.nodup) ?_ ?_
      · rintro ⟨name, node'⟩ hentry'
        obtain ⟨node, hentry⟩ := exists_mem_of_names_perm hnames.symm hentry'
        have hname : IsEntryName name := hwell.isEntryName hentry
        exact hname
      · rintro ⟨name, node'⟩ hentry'
        obtain ⟨node, hentry⟩ := exists_mem_of_names_perm hnames.symm hentry'
        exact ih name node node' hentry hentry' (hwell.of_mem hentry)

/-! ## Locations -/

theorem Alike.child? {node node' : FileNode} (h : Alike same node node')
    (hwell : WellFormed node) (name : String) :
    Option.Rel (Alike same) (node.child? name) (node'.child? name) := by
  have hwell' := h.wellFormed hwell
  cases h with
  | file _ => exact .none
  | link _ => exact .none
  | @folder entries entries' hnames hbelow =>
      rw [FileNode.child?, FileNode.child?]
      cases hfound : entries.lookup name with
      | some node =>
          have hentry := (lookup_eq_some_iff hwell.nodup).mp hfound
          obtain ⟨node', hentry'⟩ := exists_mem_of_names_perm hnames hentry
          rw [(lookup_eq_some_iff hwell'.nodup).mpr hentry']
          exact .some (hbelow name node node' hentry hentry')
      | none =>
          cases hfound' : entries'.lookup name with
          | none => exact .none
          | some node' =>
              have hentry' := (lookup_eq_some_iff hwell'.nodup).mp hfound'
              obtain ⟨node, hentry⟩ :=
                exists_mem_of_names_perm hnames.symm hentry'
              rw [(lookup_eq_some_iff hwell.nodup).mpr hentry] at hfound
              cases hfound

theorem WellFormed.child? {node below : FileNode} {name : String}
    (hwell : WellFormed node) (h : node.child? name = some below) :
    WellFormed below := by
  have hat : node.at? [name] = some below := by
    rw [FileNode.at?, h]
    rfl
  exact hwell.at? hat

theorem Alike.at? : ∀ {node node' : FileNode}, Alike same node node' →
    WellFormed node → ∀ location : List String,
      Option.Rel (Alike same) (node.at? location) (node'.at? location)
  | _, _, h, _, [] => .some h
  | node, node', h, hwell, name :: location => by
      rw [FileNode.at?, FileNode.at?]
      rcases eq_none_or_exists_of_rel (h.child? hwell name) with
        ⟨hfound, hfound'⟩ | ⟨below, below', hfound, hfound', hbelow⟩
      · rw [hfound, hfound']
        exact .none
      · rw [hfound, hfound']
        exact Alike.at? hbelow (hwell.child? hfound) location

end FileNode

namespace FileTree

/-- The trees have the same working folder and tops that are alike. -/
structure Alike (same : ByteArray → ByteArray → Prop) (tree tree' : FileTree) :
    Prop where
  working : tree.working = tree'.working
  top : FileNode.Alike same tree.top tree'.top

variable {same : ByteArray → ByteArray → Prop} {tree tree' : FileTree}
  (h : Alike same tree tree') (hwell : tree.top.WellFormed)

include h hwell

/-! ## Walks -/

theorem Alike.at? (location : List String) :
    Option.Rel (FileNode.Alike same) (tree.top.at? location)
      (tree'.top.at? location) :=
  h.top.at? hwell location

theorem Alike.named? (here : List String) (name : String) :
    Option.Rel (FileNode.Alike same) (tree.named? here name)
      (tree'.named? here name) := by
  have hat := h.at? hwell (here ++ [name])
  rwa [FileNode.at?_append_singleton, FileNode.at?_append_singleton] at hat

/-- Walks end alike. The induction is on the links, and between two links on the
components. -/
theorem Alike.walk_eq : ∀ (links : Nat) (here names : List String),
    tree.walk .reading links here names = tree'.walk .reading links here names
  | links, here, [] => by rw [walk_nil, walk_nil]
  | links, here, name :: rest => by
      rcases isStep_or name with hname | rfl | hstep
      · rw [walk_stay hname, walk_stay hname]
        exact Alike.walk_eq links here rest
      · rw [walk_up, walk_up]
        exact Alike.walk_eq links here.dropLast rest
      · rw [walk_step hstep, walk_step hstep]
        rcases eq_none_or_exists_of_rel (h.named? hwell here name) with
          ⟨hfound, hfound'⟩ | ⟨node, node', hfound, hfound', hnode⟩
        · rw [hfound, hfound']
        · rw [hfound, hfound']
          cases hnode with
          | file _ => rfl
          | folder _ _ => exact Alike.walk_eq links (here ++ [name]) rest
          | link target =>
              cases links with
              | zero => rfl
              | succ links => exact Alike.walk_eq links _ _
termination_by links _ names => (links, names.length)

theorem Alike.place_eq (path : String) :
    tree.place .reading path = tree'.place .reading path := by
  have hstart : tree.start path = tree'.start path := by
    rw [start, start, h.working]
  rw [place, place, hstart, h.walk_eq hwell]

theorem Alike.isFile_eq (path : String) :
    tree.isFile path = tree'.isFile path := by
  rw [isFile, isFile, h.place_eq hwell]

theorem Alike.isFolder_eq (path : String) :
    tree.isFolder path = tree'.isFolder path := by
  rw [isFolder, isFolder, h.place_eq hwell]

/-- A path leads to a folder in both trees or in neither, and what the two list
is alike. -/
theorem Alike.entries? (path : String) :
    Option.Rel
      (fun entries entries' =>
        FileNode.Alike same (.folder entries) (.folder entries'))
      (tree.entries? path) (tree'.entries? path) := by
  rw [FileTree.entries?, FileTree.entries?, ← h.place_eq hwell]
  split
  · next location _ =>
      rcases eq_none_or_exists_of_rel (h.at? hwell location) with
        ⟨hfound, hfound'⟩ | ⟨node, node', hfound, hfound', hnode⟩
      · rw [hfound, hfound']
        exact .none
      · rw [hfound, hfound']
        cases hnode with
        | file _ => exact .none
        | link _ => exact .none
        | folder hnames hbelow => exact .some (.folder hnames hbelow)
  · exact .none

/-! ## Texts -/

/-- The texts at a path are the same if the file to which it leads has the same
content in both trees. -/
theorem Alike.readText_eq {path : String}
    (hcontent : ∀ place content, tree.place .reading path = .ok (.file place) →
      tree.top.at? place = some (.file content) →
      tree'.top.at? place = some (.file content)) :
    tree.readText path = tree'.readText path := by
  have hbytes : tree.readBytes path = tree'.readBytes path := by
    rw [readBytes, readBytes, ← h.place_eq hwell]
    split
    · rfl
    · rfl
    · rfl
    · next place hplace =>
        rcases eq_none_or_exists_of_rel (h.at? hwell place) with
          ⟨hfound, hfound'⟩ | ⟨node, node', hfound, hfound', hnode⟩
        · rw [hfound, hfound']
        · cases hnode with
          | file _ => rw [hfound, hcontent place _ hplace hfound]
          | folder _ _ => rw [hfound, hfound']
          | link _ => rw [hfound, hfound']
  rw [readText, readText, hbytes]

end FileTree

namespace Module

open FileTree

/-! ## Folders in order -/

/-- The order in which folders are sorted tells apart folders with different
names. -/
theorem sort_names_eq_of_perm {folders folders' : List SourceFolder}
    (hperm : folders.Perm folders')
    (hinj : ∀ a ∈ folders, ∀ b ∈ folders', a.names = b.names → a = b) :
    Sorting.sort (fun a b => !b.names.lex a.names) folders
      = Sorting.sort (fun a b => !b.names.lex a.names) folders' := by
  refine Sorting.sort_eq_of_perm names_total names_trans ?_ hperm
  intro a ha b hb
  simp only [Bool.not_eq_true', List.lex_eq_false_iff_ge]
  exact fun hab hba => hinj a ha b hb (List.le_antisymm hab hba)

section

variable {same : ByteArray → ByteArray → Prop} {tree tree' : FileTree}
  (h : FileTree.Alike same tree tree') (hwell : tree.top.WellFormed)

include h hwell

/-! ## The search of a module -/

theorem isSource_eq_of_alike {node node' : FileNode}
    (hnode : FileNode.Alike same node node') (path name : String) :
    isSource tree path (name, node) = isSource tree' path (name, node') := by
  cases hnode with
  | file _ => rfl
  | folder _ _ => rfl
  | link target => rw [isSource, isSource, h.isFolder_eq hwell]

theorem enters_eq_of_alike (path name : String) :
    enters tree path name = enters tree' path name := by
  rw [enters, enters, h.isFile_eq hwell]

theorem sourcesOf_eq_of_alike {entries entries' : List (String × FileNode)}
    (hnode : FileNode.Alike same (.folder entries) (.folder entries'))
    (path : String) :
    sourcesOf tree path entries = sourcesOf tree' path entries' := by
  cases hnode with
  | folder hnames hbelow =>
      refine congrArg NameSet.toList (NameSet.eq_of_mem_iff fun name => ?_)
      simp only [NameSet.mem_ofList, List.mem_map, List.mem_filter, and_assoc]
      refine FileNode.exists_mem_iff_of_names_perm hnames ?_
      intro name node node' hentry hentry'
      rw [isSource_eq_of_alike h hwell (hbelow name node node' hentry hentry')]

/-- The search meets the same folders. -/
theorem mem_foldersFrom_iff_of_alike {node node' : FileNode}
    (hnode : FileNode.Alike same node node') {folder : SourceFolder} :
    ∀ {path : String} {names : List String},
      folder ∈ foldersFrom tree path names node
        ↔ folder ∈ foldersFrom tree' path names node' := by
  induction hnode with
  | file _ => simp [foldersFrom]
  | link _ => simp [foldersFrom]
  | folder hnames hbelow ih =>
      intro path names
      have hsources :=
        sourcesOf_eq_of_alike h hwell (.folder hnames hbelow) path
      simp only [foldersFrom, foldersAmong_eq_flatMap, List.mem_append,
        List.mem_flatMap, mem_folderItself, hsources]
      refine or_congr_right ?_
      refine FileNode.exists_mem_iff_of_names_perm hnames ?_
      intro name node node' hentry hentry'
      rw [foldersUnder, foldersUnder, enters_eq_of_alike h hwell]
      split
      · exact ih name node node' hentry hentry'
      · exact Iff.rfl

/-- A module has the same source folders, however its folders are listed and
whatever its files hold. -/
theorem sourceFolders_eq_of_alike {entries entries' : List (String × FileNode)}
    (hnode : FileNode.Alike same (.folder entries) (.folder entries'))
    (hentries : FileNode.WellFormed (.folder entries)) (root : String) :
    sourceFolders tree root entries = sourceFolders tree' root entries' := by
  have hentries' := hnode.wellFormed hentries
  have hdistinct :
      ((foldersFrom tree root [] (.folder entries)).map (·.names)).Nodup :=
    List.pairwise_map.mpr (pairwise_foldersFrom hentries root [])
  have hdistinct' :
      ((foldersFrom tree' root [] (.folder entries')).map (·.names)).Nodup :=
    List.pairwise_map.mpr (pairwise_foldersFrom hentries' root [])
  have hperm : (foldersFrom tree root [] (.folder entries)).Perm
      (foldersFrom tree' root [] (.folder entries')) :=
    (List.perm_ext_iff_of_nodup hdistinct.of_map hdistinct'.of_map).mpr
      fun folder => mem_foldersFrom_iff_of_alike h hwell hnode
  refine sort_names_eq_of_perm hperm fun a ha b hb => ?_
  exact List.inj_on_of_nodup_map hdistinct ha (hperm.mem_iff.mpr hb)

end

/-! ## The load of a module -/

theorem foldlM_congr {ε σ α : Type} {f g : σ → α → Except ε σ} :
    ∀ {as : List α} (s : σ), (∀ s, ∀ a ∈ as, f s a = g s a) →
      as.foldlM f s = as.foldlM g s
  | [], _, _ => rfl
  | a :: as, s, h => by
      rw [List.foldlM_cons, List.foldlM_cons, h s a (List.mem_cons_self ..)]
      refine congrArg _ (funext fun s' => foldlM_congr s' ?_)
      exact fun s b hb => h s b (List.mem_cons_of_mem a hb)

theorem filterMapM_congr {ε α β : Type} {f g : α → Except ε (Option β)} :
    ∀ {as : List α}, (∀ a ∈ as, f a = g a) →
      as.filterMapM f = as.filterMapM g
  | [], _ => rfl
  | a :: as, h => by
      have hbelow : as.filterMapM f = as.filterMapM g :=
        filterMapM_congr fun b hb => h b (List.mem_cons_of_mem a hb)
      rw [List.filterMapM_cons, List.filterMapM_cons, hbelow,
        h a (List.mem_cons_self ..)]

section

variable {tree tree' : FileTree}

theorem readPath_eq_of_readText {root : String}
    (h : tree.readText (join root "go.mod")
      = tree'.readText (join root "go.mod")) :
    readPath tree root = readPath tree' root := by
  simp only [readPath, h]

theorem loadFolder_eq_of_readText {modulePath : String} {folder : SourceFolder}
    (h : ∀ file ∈ folder.files, tree.readText (join folder.path file)
      = tree'.readText (join folder.path file)) :
    loadFolder tree modulePath folder = loadFolder tree' modulePath folder := by
  have hfiles : ∀ declared : Option Declared, ∀ file ∈ folder.files,
      (readHeader tree (join folder.path file) >>= declare folder.path declared)
        = readHeader tree' (join folder.path file)
          >>= declare folder.path declared := by
    intro declared file hfile
    rw [readHeader, readHeader, h file hfile]
  unfold loadFolder
  simp only [foldlM_congr none hfiles]

/-- Alike trees are loaded alike if the texts are the same that a load reads. -/
theorem load_eq_of_readText {same : ByteArray → ByteArray → Prop}
    (h : FileTree.Alike same tree tree') (hwell : tree.top.WellFormed)
    {root pattern : String}
    (hmodule : ∀ entries, tree.entries? root = some entries →
      tree.readText (join root "go.mod") = tree'.readText (join root "go.mod"))
    (hsources : ∀ entries modulePath, tree.entries? root = some entries →
      readPath tree root = .ok modulePath →
      ∀ folder ∈ sourceFolders tree root entries,
      (Pattern.ofText modulePath pattern).selects (folder.importPath modulePath)
        = true →
      ∀ file ∈ folder.files, tree.readText (join folder.path file)
        = tree'.readText (join folder.path file)) :
    load tree root pattern = load tree' root pattern := by
  rcases eq_none_or_exists_of_rel (h.entries? hwell root) with
    ⟨hroot, hroot'⟩ | ⟨entries, entries', hroot, hroot', hnode⟩
  · rw [load, load, hroot, hroot']
  · obtain ⟨location, links, -, hat⟩ := exists_leads_of_entries? hroot
    have hfolders :=
      sourceFolders_eq_of_alike h hwell hnode (hwell.at? hat) root
    rw [load, load, hroot, hroot']
    simp only [← readPath_eq_of_readText (hmodule entries hroot), ← hfolders]
    cases hpath : readPath tree root with
    | error error => rfl
    | ok modulePath =>
        have hloaded : loadFolders tree modulePath (.ofText modulePath pattern)
              (sourceFolders tree root entries)
            = loadFolders tree' modulePath (.ofText modulePath pattern)
              (sourceFolders tree root entries) := by
          refine filterMapM_congr fun folder hfolder => ?_
          obtain ⟨hmem, hselects⟩ := List.mem_filter.mp hfolder
          exact loadFolder_eq_of_readText
            (hsources entries modulePath hroot hpath folder hmem hselects)
        simp only [bind, Except.bind, hloaded]

end

end Module

end ImportChart
