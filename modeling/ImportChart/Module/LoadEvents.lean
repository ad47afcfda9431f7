import ImportChart.Event
import ImportChart.Module.Load

/-!
# The events of a load

What is told while a module is loaded. The search tells of the links that it
does not follow, in the order of the listings. Then come the folders in their
order: those that the pattern leaves out, the files that are set aside, and the
packages. A load that fails tells of everything before its fault.
-/

namespace ImportChart.Module

def loaderTarget : String := "gomod::loader"

def debugEvent (message : String) : Event := ⟨.debug, loaderTarget, message⟩

def infoEvent (message : String) : Event := ⟨.info, loaderTarget, message⟩

/-! ## The search -/

mutual

/-- The links to folders from a folder down. -/
def linkEventsFrom (tree : FileTree) (path : String) : FileNode → List Event
  | .folder entries => linkEventsAmong tree path entries
  | _ => []

/-- The links to folders from the entries of a folder down. -/
def linkEventsAmong (tree : FileTree) (path : String) :
    List (String × FileNode) → List Event
  | [] => []
  | entry :: entries => linkEventsUnder tree path entry ++ linkEventsAmong tree path entries

/-- The links to folders from one entry of a folder down. -/
def linkEventsUnder (tree : FileTree) (path : String) : String × FileNode → List Event
  | (name, .link _) =>
    let link := FileTree.join path name
    if tree.isFolder link then [debugEvent ("Skipping symlinked directory " ++ link)] else []
  | (name, node) =>
    if enters tree (FileTree.join path name) name then
      linkEventsFrom tree (FileTree.join path name) node
    else []

end

/-! ## One folder -/

/-- The files that are set aside, up to the first that is at fault. -/
def fileEvents (tree : FileTree) (folder : String) : Option Declared → List String → List Event
  | _, [] => []
  | declared, file :: files =>
    let path := FileTree.join folder file
    match readHeader tree path with
    | .error _ => []
    | .ok header =>
      match declare folder declared header with
      | .error _ => []
      | .ok declared =>
        (if header.isSetAside then
            [debugEvent ("Skipping " ++ path ++ " (build constraint: ignore)")]
          else [])
          ++ fileEvents tree folder declared files

def packageEvent (package : Package) : Event :=
  debugEvent ("Loaded " ++ package.path ++ " (" ++ toString package.imports.toList.length
    ++ " imports" ++ (if package.isEntryPoint then ", main" else "") ++ ")")

/-! ## The module -/

def foldersEvents (tree : FileTree) (modulePath : String) (pattern : Pattern) :
    List SourceFolder → List Event
  | [] => []
  | folder :: folders =>
    let importPath := folder.importPath modulePath
    if !pattern.selects importPath then
      debugEvent ("Pattern excludes " ++ importPath)
        :: foldersEvents tree modulePath pattern folders
    else
      fileEvents tree folder.path none folder.files
        ++ match loadFolder tree modulePath folder with
          | .error _ => []
          | .ok package? =>
            (package?.map packageEvent).toList ++ foldersEvents tree modulePath pattern folders

def Loaded.warningEvents (loaded : Loaded) (pattern : String) : List Event :=
  (loaded.warnings pattern).map (⟨.warn, loaderTarget, ·⟩)

/-- What is told while the module in the folder `root` is loaded. -/
def loadEvents (tree : FileTree) (root pattern : String) : List Event :=
  match tree.entries? root, readPath tree root with
  | some entries, .ok modulePath =>
    infoEvent ("Loading module " ++ modulePath ++ " from " ++ root ++ " (pattern " ++ pattern
        ++ ")")
      :: linkEventsAmong tree root entries
      ++ foldersEvents tree modulePath (.ofText modulePath pattern)
        (sourceFolders tree root entries)
      ++ match load tree root pattern with
        | .ok loaded =>
          loaded.warningEvents pattern
            ++ [infoEvent ("Loaded " ++ toString loaded.packages.length ++ " packages")]
        | .error _ => []
  | _, _ => []

end ImportChart.Module
