import ImportChart.Text.Blank
import ImportChart.Text.Search

/-!
# Module directives

A `go.mod` file names its module in a line `module path`. The first line that
holds a well-formed directive decides; comments run from `//` to the end of
the line, and the path is written bare or between quotes.
-/

namespace ImportChart.Module

open ImportChart.Text

def isQuote (c : Char) : Bool := c == '"' || c == '\x60'

/-- The path that a trimmed value spells: all that stands between two equal
quotes, or else the first word, which may not open a parenthesis. -/
def valueText? : List Char → Option (List Char)
  | [] => none
  | c :: cs =>
    if isQuote c then if cs.getLast? == some c then some cs.dropLast else none
    else if c == '(' then none
    else (words (c :: cs)).head?

/-- The path of a line that is a directive. A blank or a quote ends the
keyword, and the path is not empty. -/
def directive? (line : List Char) : Option (List Char) := do
  let rest ← afterHead? "module".toList (trim (before "//".toList line))
  guard (rest.head?.any fun c => isBlank c || isQuote c)
  let path ← valueText? (trim rest)
  guard (path ≠ [])
  return path

/-- The module path that the text of a `go.mod` file declares. -/
def pathOfText? (text : String) : Option String :=
  ((lines text.toList).findSome? directive?).map String.ofList

end ImportChart.Module
