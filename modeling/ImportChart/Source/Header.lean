import ImportChart.Source.Comment
import ImportChart.Source.Constraint
import ImportChart.Source.Literal

/-!
# File headers

The head of a Go source file: its build constraints, its package clause and
the import declarations that directly follow. Nothing after the first token
that is no import is looked at, so a file need not be valid Go beyond its
header.
-/

namespace ImportChart.Source

open ImportChart.Text

structure FileHeader where
  package : String
  /-- The imported paths in the order of the text, repetitions included. -/
  imports : List String
  constraints : Constraints
  deriving DecidableEq, Repr

/-! ## The package clause -/

/-- The package name of a clause at the head of a text, blanks aside, and what follows. -/
def clause? (cs : List Char) : Option (List Char × List Char) :=
  match afterHead? "package".toList (trimStart cs) with
  | some (c :: rest) => if isBlank c then identifier? (trimStart rest) else none
  | _ => none

/-- The first package clause that stands at the start of a line; `atStart`
tells whether the text is one. -/
def clauseFrom? (atStart : Bool) : List Char → Option (List Char × List Char)
  | [] => none
  | c :: cs =>
    match if atStart then clause? (c :: cs) else none with
    | some read => some read
    | none => clauseFrom? (c == '\n') cs

/-! ## Import declarations -/

/-- What may stand between two declarations. -/
def isSeparator (c : Char) : Bool := isBlank c || c == ';'

/-- The paths of the import declaration at the head of a text, and what
follows it. A group ends at the first closing parenthesis. -/
def importDecl? (cs : List Char) : Option (List (List Char) × List Char) :=
  match afterHead? "import".toList cs with
  | none => none
  | some rest =>
    if rest.head?.any isNameStart then none
    else
      match trimStart rest with
      | '(' :: group =>
        some (literals (group.takeWhile (· != ')')), (group.dropWhile (· != ')')).drop 1)
      | single => (spec? single).map fun read => ([read.1], read.2)

theorem length_importDecl? {cs rest : List Char} {paths : List (List Char)}
    (h : importDecl? cs = some (paths, rest)) : rest.length < cs.length := by
  unfold importDecl? at h
  split at h
  · cases h
  · next after hafter =>
    have hlen := congrArg List.length (afterHead?_eq_some_iff.mp hafter)
    have htrim := length_trimStart_le after
    simp only [List.length_append] at hlen
    have : "import".toList.length = 6 := by decide
    split at h
    · cases h
    · split at h
      · next group hgroup =>
        cases h
        have := (List.dropWhile_sublist (l := group) (· != ')')).length_le
        rw [hgroup] at htrim
        simp at *
        omega
      · obtain ⟨read, hread, he⟩ := Option.map_eq_some_iff.mp h
        cases he
        have := length_spec? hread
        omega

def importPaths (cs : List Char) : List (List Char) :=
  match h : importDecl? (cs.dropWhile isSeparator) with
  | none => []
  | some (paths, rest) =>
    have : rest.length < cs.length :=
      Nat.lt_of_lt_of_le (length_importDecl? h) (List.dropWhile_sublist isSeparator).length_le
    paths ++ importPaths rest
termination_by cs.length

/-! ## The header -/

/-- The header of a file's text; none when it has no package clause. -/
def FileHeader.ofText? (text : String) : Option FileHeader := do
  let (package, rest) ← clauseFrom? true (uncomment text.toList)
  return {
    package := String.ofList package
    imports := (importPaths rest).map String.ofList
    constraints := Constraints.ofText text.toList }

/-- Whether the file belongs to no package. -/
def FileHeader.isSetAside (header : FileHeader) : Bool := header.constraints.ignores

end ImportChart.Source
