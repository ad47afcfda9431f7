import ImportChart.Text.Search

/-!
# Package patterns

A pattern selects packages by import path. It is an import path in which each
`...` stands for any run of characters, and a pattern that ends in `/...` also
selects the path in front of that ending. A pattern that is `.` or starts with
`./` is relative to the module.

No wildcard crosses a line feed; the rest of the path is compared character by
character. `regex` writes the same condition as a regular expression.

Matching goes over the pieces of a pattern from right to left and keeps, for
each place of the path, whether the pieces seen so far match from there to the
end. That takes one pass over the path for each piece, however many wildcards
a pattern has.
-/

namespace ImportChart

open ImportChart.Text

/-- What a pattern is made of. -/
inductive Piece
  /-- The character itself. -/
  | letter (c : Char)
  /-- Any run of characters on one line. -/
  | anything
  /-- Nothing at all, or a slash and any run of characters on one line. -/
  | below
  deriving DecidableEq, Repr

structure Pattern where
  text : String
  /-- The pattern as an import path with wildcards. -/
  resolved : String
  deriving DecidableEq, Repr

namespace Pattern

/-! ## Relative patterns -/

/-- What a relative pattern says after its dot and slash. -/
def relative? (pattern : List Char) : Option (List Char) :=
  if pattern = ['.'] then some [] else afterHead? ['.', '/'] pattern

/-- The pattern relative to nothing. Slashes at the end of a relative one are dropped. -/
def resolve (modulePath pattern : String) : String :=
  match relative? pattern.toList with
  | none => pattern
  | some [] => modulePath
  | some rel => modulePath ++ "/" ++ String.ofList ((rel.reverse.dropWhile (· == '/')).reverse)

def ofText (modulePath text : String) : Pattern := ⟨text, resolve modulePath text⟩

/-! ## Pieces -/

/-- The pieces of a text, three dots being one wildcard from left to right. -/
def piecesOf : List Char → List Piece
  | [] => []
  | '.' :: '.' :: '.' :: cs => .anything :: piecesOf cs
  | c :: cs => .letter c :: piecesOf cs

/-- A slash and a wildcard at the very end become one piece that may be absent. -/
def openEnd : List Piece → List Piece
  | [] => []
  | [.letter '/', .anything] => [.below]
  | p :: ps => p :: openEnd ps

def pieces (pattern : Pattern) : List Piece := openEnd (piecesOf pattern.resolved.toList)

/-! ## Matching -/

/-- Whether a place of the text matches after a run on one line, for each place
of the text; `row` tells it without the run. -/
def overRun : List Char → List Bool → List Bool
  | c :: cs, here :: row =>
    let later := overRun cs row
    (here || (c != '\n' && later.headD false)) :: later
  | _, row => row

/-- The places from which one more character `c` leads to a place of `row`. -/
def overLetter (c : Char) : List Char → List Bool → List Bool
  | d :: cs, _ :: row => (c == d && row.headD false) :: overLetter c cs row
  | _, row => row.map fun _ => false

def ends : List Char → List Bool
  | [] => [true]
  | _ :: cs => false :: ends cs

/-- For each place of the text, whether the pieces match from there to the end. -/
def matchesFrom (text : List Char) : List Piece → List Bool
  | [] => ends text
  | .letter c :: ps => overLetter c text (matchesFrom text ps)
  | .anything :: ps => overRun text (matchesFrom text ps)
  | .below :: ps =>
    let row := matchesFrom text ps
    List.zipWith (· || ·) row (overLetter '/' text (overRun text row))

def selects (pattern : Pattern) (path : String) : Bool :=
  (matchesFrom path.toList pattern.pieces).headD false

/-! ## The regular expression -/

/-- The characters that mean something in a regular expression. -/
def regexMarks : List Char := "\\.+*?()|[]\x7b\x7d^$#&-~".toList

def regexPiece : Piece → List Char
  | .letter c => if regexMarks.contains c then ['\\', c] else [c]
  | .anything => ['.', '*']
  | .below => "(/.*)?".toList

def regex (pattern : Pattern) : String :=
  String.ofList ('^' :: pattern.pieces.flatMap regexPiece ++ ['$'])

end Pattern

end ImportChart
