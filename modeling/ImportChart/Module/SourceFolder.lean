import ImportChart.NameSet
import ImportChart.Sorting
import ImportChart.Tree.Path

/-!
# Source folders

Which folders of a module hold packages, and in which files. From the root
the search goes down real folders, never through links. It stays out of
folders that by their name are none of the module's packages, and of folders
that are modules of their own. Every other entry with the right kind of name
is a source, a link too, unless it leads to a folder.

The folders come in the order of their names component by component, a folder
before those below it, and each with its files in ascending order.
-/

namespace ImportChart.Module

/-- A folder with at least one source. -/
structure SourceFolder where
  /-- The names that lead from the root to the folder. -/
  names : List String
  /-- The folder's path as messages give it. -/
  path : String
  files : List String
  deriving DecidableEq, Repr

/-! ## Names -/

/-- Whether an entry is passed over whatever it is. -/
def isHidden (name : String) : Bool :=
  name.toList.head?.any fun c => c == '.' || c == '_'

def isSkippedFolder (name : String) : Bool :=
  name == "vendor" || name == "testdata" || isHidden name

def isSourceName (name : String) : Bool :=
  ".go".toList.isSuffixOf name.toList && !"_test.go".toList.isSuffixOf name.toList
    && !isHidden name

/-! ## The search -/

def isSource (tree : FileTree) (path : String) (entry : String × FileNode) : Bool :=
  isSourceName entry.1 &&
    match entry.2 with
    | .file _ => true
    | .folder _ => false
    | .link _ => !tree.isFolder (FileTree.join path entry.1)

/-- Whether the search goes down into the real folder at `path`. -/
def enters (tree : FileTree) (path name : String) : Bool :=
  !isSkippedFolder name && !tree.isFile (FileTree.join path "go.mod")

def sourcesOf (tree : FileTree) (path : String) (entries : List (String × FileNode)) :
    List String :=
  (NameSet.ofList ((entries.filter (isSource tree path)).map (·.1))).toList

/-- A folder by itself: none if it has no sources. -/
def folderItself (tree : FileTree) (path : String) (names : List String)
    (entries : List (String × FileNode)) : List SourceFolder :=
  match sourcesOf tree path entries with
  | [] => []
  | files => [⟨names, path, files⟩]

mutual

/-- The source folders from a folder down, in the order of the listings. -/
def foldersFrom (tree : FileTree) (path : String) (names : List String) :
    FileNode → List SourceFolder
  | .folder entries =>
    folderItself tree path names entries ++ foldersAmong tree path names entries
  | _ => []

/-- The source folders from the entries of a folder down. -/
def foldersAmong (tree : FileTree) (path : String) (names : List String) :
    List (String × FileNode) → List SourceFolder
  | [] => []
  | entry :: entries => foldersUnder tree path names entry ++ foldersAmong tree path names entries

/-- The source folders from one entry of a folder down. -/
def foldersUnder (tree : FileTree) (path : String) (names : List String) :
    String × FileNode → List SourceFolder
  | (name, node) =>
    if enters tree (FileTree.join path name) name then
      foldersFrom tree (FileTree.join path name) (names ++ [name]) node
    else []

end

/-- The source folders of the module at `root`, which has the given entries. -/
def sourceFolders (tree : FileTree) (root : String) (entries : List (String × FileNode)) :
    List SourceFolder :=
  Sorting.sort (fun a b => !b.names.lex a.names) (foldersFrom tree root [] (.folder entries))

def SourceFolder.importPath (modulePath : String) (folder : SourceFolder) : String :=
  "/".intercalate (modulePath :: folder.names)

end ImportChart.Module
