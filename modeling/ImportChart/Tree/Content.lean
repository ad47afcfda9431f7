import ImportChart.Tree.Path

/-!
# Reading and writing files

The content of a file is a sequence of bytes; read as text it has to be
UTF-8. Writing replaces the content of a file or makes a new one, and follows
a link to the place where its file is or would be. A write that fails changes
nothing.
-/

namespace ImportChart

inductive ReadError
  | path (cause : PathError)
  | notText
  deriving DecidableEq, Repr

def ReadError.message : ReadError → String
  | path cause => cause.message
  | notText => "stream did not contain valid UTF-8"

namespace FileTree

/-! ## Reading -/

def readBytes (tree : FileTree) (path : String) : Except PathError ByteArray :=
  match tree.place .reading path with
  | .error cause => .error cause
  | .ok (.folder _) => .error .isFolder
  | .ok (.vacant _) => .error .notFound
  | .ok (.file location) =>
    match tree.top.at? location with
    | some (.file content) => .ok content
    | _ => .error .notFound

def readText (tree : FileTree) (path : String) : Except ReadError String :=
  match tree.readBytes path with
  | .error cause => .error (.path cause)
  | .ok content =>
    match String.fromUTF8? content with
    | some text => .ok text
    | none => .error .notText

/-! ## Writing -/

def put (tree : FileTree) (location : List String) (new : FileNode) : FileTree :=
  { tree with top := FileNode.put new location tree.top }

def write (tree : FileTree) (path : String) (content : ByteArray) : Except PathError FileTree :=
  match tree.place .writing path with
  | .error cause => .error cause
  | .ok (.folder _) => .error .isFolder
  | .ok (.file location) => .ok (tree.put location (.file content))
  | .ok (.vacant location) => .ok (tree.put location (.file content))

/-! ## Building trees -/

/-- A tree with nothing in it but the working folder and the folders above it. -/
def bare (working : List String) : FileTree :=
  ⟨FileNode.put (.folder []) working (.folder []), working⟩

/-- The path of the folder that a path's last component is in. -/
def parent (path : String) : String := "/".intercalate (components path).dropLast

/-- Makes the folder at a path and the folders above it, where they are missing. -/
def makeFolders (tree : FileTree) (path : String) : FileTree :=
  let step (state : FileTree × String) (name : String) : FileTree × String :=
    let here := if state.2 == "" then name else state.2 ++ "/" ++ name
    match state.1.place .reading here with
    | .ok (.vacant location) => (state.1.put location (.folder []), here)
    | _ => (state.1, here)
  ((components path).foldl step (tree, "")).1

/-- Makes a link at a path, if its folder is there and the name is free. -/
def makeLink (tree : FileTree) (path target : String) : FileTree :=
  match tree.place .reading path with
  | .ok (.vacant location) => tree.put location (.link target)
  | _ => tree

end FileTree

end ImportChart
