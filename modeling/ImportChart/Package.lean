import ImportChart.NameSet

/-!
# Packages

What the chart needs to know of a package: its import path, whether it is a
program of its own, and which paths it imports.
-/

namespace ImportChart

@[ext]
structure Package where
  path : String
  isEntryPoint : Bool
  imports : NameSet
  deriving DecidableEq

/-- The package at `path` that is called `name`; a package called `main` is an
entry point. -/
def Package.ofDeclared (path name : String) (imports : List String) : Package where
  path := path
  isEntryPoint := name == "main"
  imports := .ofList imports

end ImportChart
