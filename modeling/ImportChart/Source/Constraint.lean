import ImportChart.Text.Blank
import ImportChart.Text.Search

/-!
# Build constraints

A file can say for which builds it is meant, in comment lines above its
package clause. Only one tag matters here: a file that cannot be built
without the tag `ignore` belongs to no package. All other tags count as
satisfied, negated ones too.

The newer form is one expression, `//go:build a && (b || c)`. It is read as
alternatives of terms; parentheses at the ends of a term are passed over, so
the reading is exact for expressions without nesting. The older form is any
number of lines `// +build a,b c`, all of which must hold, each by one of its
options, an option being a comma list of terms that must all hold. A file
with an expression is judged by it alone.
-/

namespace ImportChart.Source

open ImportChart.Text

/-- What a file says about the builds it is meant for. -/
structure Constraints where
  /-- The expression after `//go:build`. -/
  expression : Option String
  /-- What stands after `+build`, a text for each line of the older form. -/
  optionLines : List String
  deriving DecidableEq, Repr

/-! ## Judging -/

def ignoreTag : List Char := "ignore".toList

def isParenthesis (c : Char) : Bool := c == '(' || c == ')'

/-- Whether a term is the tag `ignore`, parentheses aside. -/
def termIsIgnore (term : List Char) : Bool :=
  dropBothWhile isParenthesis (trim term) == ignoreTag

/-- Whether every alternative of an expression has `ignore` among its terms. -/
def expressionIgnores (expression : List Char) : Bool :=
  (splitAtKey "||".toList expression).all fun alternative =>
    (splitAtKey "&&".toList alternative).any termIsIgnore

/-- Whether every option of a line has `ignore` among its terms. A line without
text constrains nothing. -/
def optionLineIgnores (line : List Char) : Bool :=
  !line.isEmpty && (words line).all fun option => (option.splitOn ',').contains ignoreTag

def Constraints.ignores (constraints : Constraints) : Bool :=
  match constraints.expression with
  | some expression => expressionIgnores expression.toList
  | none => constraints.optionLines.any fun line => optionLineIgnores line.toList

/-! ## Reading -/

/-- The trimmed lines above the first one that starts with the word of the
package clause. -/
def linesAbovePackage (text : List Char) : List (List Char) :=
  ((lines text).map trim).takeWhile fun line => !"package".toList.isPrefixOf line

def expressionOf? (line : List Char) : Option (List Char) :=
  (afterHead? "//go:build".toList line).map trim

/-- The options of a `// +build` line. The word ends at a blank or with the line. -/
def optionsOf? (line : List Char) : Option (List Char) := do
  let comment ← afterHead? "//".toList line
  let rest ← afterHead? "+build".toList (trimStart comment)
  if rest.head?.all isBlank then some (trim rest) else none

/-- The constraints of a file: the first expression and all option lines. -/
def Constraints.ofText (text : List Char) : Constraints where
  expression := ((linesAbovePackage text).findSome? expressionOf?).map String.ofList
  optionLines := ((linesAbovePackage text).filterMap optionsOf?).map String.ofList

end ImportChart.Source
