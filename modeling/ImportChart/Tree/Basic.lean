/-!
# File trees

The part of a file system that a program can see: files, folders and symbolic
links, from a top folder down, with the folder in which the program works. A
folder's entries stand in the order in which they are listed, which nothing
may depend on; a link holds the path it was made with.

Names and the paths of links are texts. A name that is no UTF-8, which a disk can
have, is left out, and so is the stand-in text that a program may show for one.

A location is the list of names that lead from the top to an entry through
real folders. Where a written path leads is another matter, told in
`ImportChart.Tree.Path`.
-/

namespace ImportChart

inductive FileNode
  | file (content : ByteArray)
  | folder (entries : List (String × FileNode))
  | link (target : String)

structure FileTree where
  top : FileNode
  /-- The location of the working folder. -/
  working : List String

namespace FileNode

/-! ## Entries -/

def child? (name : String) : FileNode → Option FileNode
  | .folder entries => entries.lookup name
  | _ => none

/-- What stands at a location below a node. -/
def at? : List String → FileNode → Option FileNode
  | [], node => some node
  | name :: names, node => (node.child? name).bind (at? names)

/-- Changes the entry that has a name, or adds one at the end. -/
def changeEntry (name : String) (change : Option FileNode → FileNode) :
    List (String × FileNode) → List (String × FileNode)
  | [] => [(name, change none)]
  | entry :: entries =>
    if name == entry.1 then (entry.1, change (some entry.2)) :: entries
    else entry :: changeEntry name change entries

/-- Puts a node at a location. Folders missing on the way are made; files and
links on the way are left alone. -/
def put (new : FileNode) : List String → FileNode → FileNode
  | [], _ => new
  | name :: names, .folder entries =>
    .folder (changeEntry name (fun old => put new names (old.getD (.folder []))) entries)
  | _ :: _, node => node

/-! ## Well-formed nodes -/

/-- A name that an entry can have: one component of a path, and not one that
means something else there. -/
def IsEntryName (name : String) : Prop :=
  name ≠ "" ∧ name ≠ "." ∧ name ≠ ".." ∧ '/' ∉ name.toList

instance (name : String) : Decidable (IsEntryName name) :=
  inferInstanceAs (Decidable (_ ∧ _))

/-- No folder lists a name twice, and its names are such that paths can lead to
its entries. -/
inductive WellFormed : FileNode → Prop
  | file (content : ByteArray) : WellFormed (.file content)
  | link (target : String) : WellFormed (.link target)
  | folder {entries : List (String × FileNode)} :
      (entries.map (·.1)).Nodup → (∀ entry ∈ entries, IsEntryName entry.1) →
      (∀ entry ∈ entries, WellFormed entry.2) → WellFormed (.folder entries)

mutual

/-- Whether a node is well-formed, asked of all that is below it. -/
def isWellFormed : FileNode → Bool
  | .folder entries => decide (entries.map (·.1)).Nodup && haveNamedNodes entries
  | _ => true

/-- Whether the entries of a folder have names that paths can lead to, and are
well-formed themselves. -/
def haveNamedNodes : List (String × FileNode) → Bool
  | [] => true
  | (name, node) :: entries =>
    decide (IsEntryName name) && isWellFormed node && haveNamedNodes entries

end

mutual

theorem isWellFormed_iff : ∀ {node : FileNode},
    isWellFormed node = true ↔ WellFormed node
  | .file content =>
      ⟨fun _ => .file content, fun _ => by rw [isWellFormed]; exact nofun⟩
  | .link target =>
      ⟨fun _ => .link target, fun _ => by rw [isWellFormed]; exact nofun⟩
  | .folder entries => by
      rw [isWellFormed, Bool.and_eq_true, decide_eq_true_eq, haveNamedNodes_iff]
      constructor
      · exact fun ⟨hnodup, hnames, hbelow⟩ => .folder hnodup hnames hbelow
      · rintro (_ | _ | ⟨hnodup, hnames, hbelow⟩)
        exact ⟨hnodup, hnames, hbelow⟩

theorem haveNamedNodes_iff : ∀ {entries : List (String × FileNode)},
    haveNamedNodes entries = true ↔ (∀ entry ∈ entries, IsEntryName entry.1)
      ∧ ∀ entry ∈ entries, WellFormed entry.2
  | [] => by simp [haveNamedNodes]
  | (name, node) :: entries => by
      rw [haveNamedNodes, Bool.and_eq_true, Bool.and_eq_true, decide_eq_true_eq,
        isWellFormed_iff, haveNamedNodes_iff, List.forall_mem_cons,
        List.forall_mem_cons]
      constructor
      · exact fun ⟨⟨hname, hnode⟩, hnames, hbelow⟩ =>
          ⟨⟨hname, hnames⟩, hnode, hbelow⟩
      · exact fun ⟨⟨hname, hnames⟩, hnode, hbelow⟩ =>
          ⟨⟨hname, hnode⟩, hnames, hbelow⟩

end

instance (node : FileNode) : Decidable node.WellFormed :=
  decidable_of_iff _ isWellFormed_iff

end FileNode

end ImportChart
