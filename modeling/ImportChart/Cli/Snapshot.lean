import ImportChart.Module.SourceFolder
import ImportChart.Tree.Content

/-!
# Snapshots of the disk

The part of the disk that a run may look at, taken as a file tree before
anything is decided. It holds the way to one folder and everything below it,
and for each link what the link leads to. Folders that no run goes down into
are taken as empty, and only sources and module files are read.
-/

namespace ImportChart.Cli.Snapshot

def absolute (location : List String) : String := "/" ++ "/".intercalate location

def locationOf (path : String) : IO (List String) :=
  return (FileTree.components (← IO.FS.realPath path).toString).filter (· != "")

/-- Puts a node where the tree has none yet. -/
def putNew (tree : FileTree) (location : List String) (node : FileNode) : FileTree :=
  if (tree.top.at? location).isSome then tree else tree.put location node

/-- Adds the file at a location as an entry with the given name leads to it.
A file that is not read does not replace one that has been. -/
def addFile (tree : FileTree) (location : List String) (name : String) : IO FileTree := do
  if name == "go.mod" || Module.isSourceName name then
    return tree.put location (.file (← IO.FS.readBinFile (absolute location)))
  else return putNew tree location (.file .empty)

/-- Adds a link that leads nowhere, with a target that leads nowhere for the
same reason: in a circle, through a file, or to a name that no disk has. -/
def addDeadLink (tree : FileTree) (folder : List String) (name : String) : IO FileTree := do
  let here := folder ++ [name]
  match ← (IO.FS.DirEntry.mk ⟨absolute folder⟩ name).path.metadata.toBaseIO with
  | .error (.invalidArgument ..) => return tree.put here (.link name)
  | .error (.inappropriateType ..) =>
    return (putNew tree ["\x00"] (.file .empty)).put here (.link "/\x00/")
  | _ => return tree.put here (.link "/\x00\x00")

def addLink (tree : FileTree) (folder : List String) (name : String) : IO FileTree := do
  let here := folder ++ [name]
  match ← (IO.FS.realPath (absolute here)).toBaseIO with
  | .error _ => addDeadLink tree folder name
  | .ok path =>
    let target ← locationOf path.toString
    let tree := tree.put here (.link (absolute target))
    if ← path.isDir then return putNew tree target (.folder []) else addFile tree target name

/-- Adds an entry of a folder, and tells whether it is a folder itself. -/
def addEntry (tree : FileTree) (folder : List String) (name : String) : IO (FileTree × Bool) := do
  let here := folder ++ [name]
  match (← (IO.FS.DirEntry.mk ⟨absolute folder⟩ name).path.symlinkMetadata).type with
  | .dir => return (putNew tree here (.folder []), true)
  | .symlink => return (← addLink tree folder name, false)
  | _ => return (← addFile tree here name, false)

partial def addBelow (tree : FileTree) (folder : List String) : IO FileTree := do
  let mut tree := tree
  for entry in ← (← IO.FS.realPath (absolute folder)).readDir do
    let (added, isFolder) ← addEntry tree folder entry.fileName
    tree := added
    if isFolder && !Module.isSkippedFolder entry.fileName then
      tree ← addBelow tree (folder ++ [entry.fileName])
  return tree

/-- Adds the entries along a path, as far as there are any. -/
def addWay (tree : FileTree) (path : String) : IO FileTree := do
  let mut tree := tree
  let mut way := if path.startsWith "/" then "/" else "."
  for name in FileTree.components path do
    match ← (locationOf way).toBaseIO with
    | .error _ => return tree
    | .ok folder =>
      unless name == "" || name == "." || name == ".." do
        match ← (addEntry tree folder name).toBaseIO with
        | .error _ => return tree
        | .ok (added, _) => tree := added
      way := FileTree.join way name
  return tree

def take (path : String) : IO FileTree := do
  let tree ← addWay (.bare (← locationOf ".")) path
  if tree.isFolder path then addBelow tree (← locationOf path) else return tree

end ImportChart.Cli.Snapshot
