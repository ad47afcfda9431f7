import ImportChart.Tree.Basic

/-!
# Paths

Where a written path leads. The path is walked component by component from
the top folder, if it starts with a slash, or else from the working folder.
Empty components and `.` stay, `..` goes up (at the top it stays), a link is
replaced by its own path, and anything that is followed by a further component
has to be a folder. At most 40 links are followed on one walk.

A path may also lead to a place where nothing stands yet, if the folder of
that place is there. What can be done with a place is for reading and writing
to say.
-/

namespace ImportChart

/-- Why a path leads nowhere, or not to what was wanted. These are the causes
that lie in the tree. What else a disk may object to is left out: a folder or
file that may not be read or written, a name that is too long, an entry that is
neither a file nor a folder nor a link. -/
inductive PathError
  | notFound
  | notFolder
  | isFolder
  | tooManyLinks
  deriving DecidableEq, Repr

def PathError.message : PathError → String
  | notFound => "No such file or directory (os error 2)"
  | notFolder => "Not a directory (os error 20)"
  | isFolder => "Is a directory (os error 21)"
  | tooManyLinks => "Too many levels of symbolic links (os error 40)"

/-- Where a path leads, as a location. -/
inductive Place
  | folder (location : List String)
  | file (location : List String)
  /-- A name that is free in an existing folder. -/
  | vacant (location : List String)
  deriving DecidableEq, Repr

namespace FileTree

def components (path : String) : List String :=
  (path.toList.splitOn '/').map String.ofList

def start (tree : FileTree) (path : String) : List String :=
  if path.toList.head? == some '/' then [] else tree.working

def maxLinks : Nat := 40

/-- What a path is walked for. A file is not created under a name with a slash
behind it, so such a path is refused before anything is looked up. -/
inductive Intent
  | reading
  | writing
  deriving DecidableEq, Repr

/-- The walk from a folder along components up to the first link. There it goes
on as `follow` says, from the folder in which the link's path starts. -/
def walkTo (tree : FileTree) (intent : Intent)
    (follow : List String → List String → Except PathError Place) (here : List String) :
    List String → Except PathError Place
  | [] => .ok (.folder here)
  | name :: rest =>
    if name == "" || name == "." then walkTo tree intent follow here rest
    else if name == ".." then walkTo tree intent follow here.dropLast rest
    else if intent == .writing && rest != [] && rest.all (· == "") then .error .isFolder
    else
      match (tree.top.at? here).bind (·.child? name) with
      | none => if rest == [] then .ok (.vacant (here ++ [name])) else .error .notFound
      | some (.file _) => if rest == [] then .ok (.file (here ++ [name])) else .error .notFolder
      | some (.folder _) => walkTo tree intent follow (here ++ [name]) rest
      | some (.link target) =>
        follow (if target.toList.head? == some '/' then [] else here) (components target ++ rest)

/-- The walk from a folder along components that follows at most `links` links. -/
def walk (tree : FileTree) (intent : Intent) :
    Nat → List String → List String → Except PathError Place
  | 0 => walkTo tree intent fun _ _ => .error .tooManyLinks
  | links + 1 => walkTo tree intent (walk tree intent links)

/-- Where a path leads. The empty path leads nowhere. -/
def place (tree : FileTree) (intent : Intent) (path : String) : Except PathError Place :=
  if path == "" then .error .notFound
  else walk tree intent maxLinks (tree.start path) (components path)

/-! ## Questions about a path, links followed -/

def isFolder (tree : FileTree) (path : String) : Bool :=
  match tree.place .reading path with
  | .ok (.folder _) => true
  | _ => false

def isFile (tree : FileTree) (path : String) : Bool :=
  match tree.place .reading path with
  | .ok (.file _) => true
  | _ => false

def entries? (tree : FileTree) (path : String) : Option (List (String × FileNode)) :=
  match tree.place .reading path with
  | .ok (.folder location) =>
    match tree.top.at? location with
    | some (.folder entries) => some entries
    | _ => none
  | _ => none

/-! ## Paths to entries -/

/-- The path of an entry of a folder, one slash standing between them. -/
def join (folder name : String) : String :=
  if folder == "" || folder.toList.getLast? == some '/' then folder ++ name
  else folder ++ "/" ++ name

end FileTree

end ImportChart
