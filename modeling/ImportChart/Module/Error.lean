import ImportChart.Tree.Content

/-!
# Load errors

Why a module cannot be loaded. The message of an error names the place by
the path under which the program met it.

Two kinds of error are left out. Here every pattern compiles, however long, where
compiled patterns of real size are limited; and every folder can be listed.
-/

namespace ImportChart.Module

inductive LoadError
  | unreadable (path : String) (cause : ReadError)
  | notAFolder (path : String)
  | noModuleFile (folder : String)
  | noDirective (path : String)
  | noPackageClause (path : String)
  /-- Two files of one folder name different packages. -/
  | mixedPackages (folder first second : String)
  deriving DecidableEq, Repr

namespace LoadError

def message : LoadError → String
  | unreadable path cause => "failed to read " ++ path ++ ": " ++ cause.message
  | notAFolder path => "not a directory: " ++ path
  | noModuleFile folder => "go.mod not found in " ++ folder
  | noDirective path => "no module directive in " ++ path
  | noPackageClause path => "no package clause in " ++ path
  | mixedPackages folder first second =>
    "found packages " ++ first ++ " and " ++ second ++ " in " ++ folder

/-- The message and the messages of what lies behind the error. -/
def chain : LoadError → List String
  | unreadable path cause => [message (unreadable path cause), cause.message]
  | error => [message error]

end LoadError

end ImportChart.Module
