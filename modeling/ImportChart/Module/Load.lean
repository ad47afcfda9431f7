import ImportChart.Module.Directive
import ImportChart.Module.Error
import ImportChart.Module.SourceFolder
import ImportChart.Package
import ImportChart.Pattern
import ImportChart.Source.Header

/-!
# Loading a module

From a file tree to the packages of the module in one of its folders. The
`go.mod` file gives the module path; each source folder whose import path the
pattern selects is a package, unless all its files are set aside. The files
of a folder must agree on the package's name, and its imports are the imports
of them all.

The first thing that is wrong ends the load, in the order root, `go.mod`,
folders, files. Nothing is read of a folder that the pattern does not select.
-/

namespace ImportChart.Module

open ImportChart.Source

@[ext]
structure Loaded where
  path : String
  /-- The packages in ascending order of their paths. -/
  packages : List Package
  deriving DecidableEq

/-! ## The module path -/

def readPath (tree : FileTree) (folder : String) : Except LoadError String :=
  let file := FileTree.join folder "go.mod"
  match tree.readText file with
  | .error (.path .notFound) => .error (.noModuleFile folder)
  | .error cause => .error (.unreadable file cause)
  | .ok text =>
    match pathOfText? text with
    | some path => .ok path
    | none => .error (.noDirective file)

/-! ## One package -/

/-- What the files of a folder have said so far: the package's name and its imports. -/
structure Declared where
  name : String
  imports : List String

def readHeader (tree : FileTree) (file : String) : Except LoadError FileHeader :=
  match tree.readText file with
  | .error cause => .error (.unreadable file cause)
  | .ok text =>
    match FileHeader.ofText? text with
    | some header => .ok header
    | none => .error (.noPackageClause file)

def declare (folder : String) (declared : Option Declared) (header : FileHeader) :
    Except LoadError (Option Declared) :=
  if header.isSetAside then .ok declared
  else
    match declared with
    | none => .ok (some ⟨header.package, header.imports⟩)
    | some ⟨name, imports⟩ =>
      if name == header.package then .ok (some ⟨name, imports ++ header.imports⟩)
      else .error (.mixedPackages folder name header.package)

/-- The package of a folder, read file by file; none if every file is set aside. -/
def loadFolder (tree : FileTree) (modulePath : String) (folder : SourceFolder) :
    Except LoadError (Option Package) := do
  let addFile (declared : Option Declared) (file : String) := do
    declare folder.path declared (← readHeader tree (FileTree.join folder.path file))
  let declared ← folder.files.foldlM addFile none
  return declared.map fun declared =>
    .ofDeclared (folder.importPath modulePath) declared.name declared.imports

/-! ## The module -/

def loadFolders (tree : FileTree) (modulePath : String) (pattern : Pattern)
    (folders : List SourceFolder) : Except LoadError (List Package) :=
  (folders.filter fun folder => pattern.selects (folder.importPath modulePath)).filterMapM
    (loadFolder tree modulePath)

/-- The module in the folder `root`, with the packages that the pattern selects. -/
def load (tree : FileTree) (root pattern : String) : Except LoadError Loaded :=
  match tree.entries? root with
  | none => .error (.notAFolder root)
  | some entries => do
    let modulePath ← readPath tree root
    let packages ← loadFolders tree modulePath (.ofText modulePath pattern)
      (sourceFolders tree root entries)
    return ⟨modulePath, Sorting.sort (fun a b => decide (a.path ≤ b.path)) packages⟩

def Loaded.warnings (loaded : Loaded) (pattern : String) : List String :=
  if loaded.packages.isEmpty then ["Pattern " ++ pattern ++ " matched no packages"] else []

end ImportChart.Module
