/-!
# Labels

Nodes are called A, B, …, Z, AA, AB, … in the order in which they turn up. A
label is a numeral in bijective base 26: every number has one, and every word
over A to Z that is not empty is one.

A label book hands out the labels. It keeps a row for every key it has seen,
with the label of the key, and two indexes that lead from a key and from a
label to the number of the row. That the three agree is not part of the type:
it is kept up by `LabelBook.assign`, the only operation that changes a book.
-/

namespace ImportChart

/-! ## Numerals -/

namespace Label

def letter (digit : Nat) : Char := Char.ofNat ('A'.toNat + digit)

/-- The letters of a number. The last one is its remainder by 26; those before
it spell the quotient less one, because no digit stands for zero. -/
def letters (index : Nat) : List Char :=
  if index < 26 then [letter index] else letters (index / 26 - 1) ++ [letter (index % 26)]
termination_by index

def ofIndex (index : Nat) : String := String.ofList (letters index)

end Label

/-! ## The book -/

/-- The keys with their labels, in order of arrival, and the row numbers of the
keys and of the labels. An index is a list of pairs, the latest one in front,
so that a lookup finds what was put in last. -/
structure LabelBook where
  rows : List (String × String)
  byKey : List (String × Nat)
  byLabel : List (String × Nat)
  deriving DecidableEq

namespace LabelBook

def empty : LabelBook := ⟨[], [], []⟩

/-- A row by its number. The default is there for a number beyond the last row,
which no index of an agreeing book holds. -/
def row (book : LabelBook) (index : Nat) : String × String :=
  book.rows.getD index ("", "")

def get? (book : LabelBook) (key : String) : Option String :=
  (book.byKey.lookup key).map fun index => (book.row index).2

def key? (book : LabelBook) (label : String) : Option String :=
  (book.byLabel.lookup label).map fun index => (book.row index).1

/-- The book with one more row, for a key that has none. -/
def push (book : LabelBook) (key : String) : LabelBook :=
  let index := book.rows.length
  let label := Label.ofIndex index
  { rows := book.rows ++ [(key, label)]
    byKey := (key, index) :: book.byKey
    byLabel := (label, index) :: book.byLabel }

/-- The label of a key, and the book in which the key has that label. -/
def assign (book : LabelBook) (key : String) : String × LabelBook :=
  match book.byKey.lookup key with
  | some index => ((book.row index).2, book)
  | none =>
    let grown := book.push key
    ((grown.row book.rows.length).2, grown)

/-- Labels and keys in order of arrival. -/
def entries (book : LabelBook) : List (String × String) :=
  book.rows.map fun (key, label) => (label, key)

def size (book : LabelBook) : Nat := book.rows.length

/-- The keys in order of arrival. -/
def keys (book : LabelBook) : List String := book.rows.map Prod.fst

/-! ## Small facts -/

@[simp] theorem keys_push (book : LabelBook) (key : String) :
    (book.push key).keys = book.keys ++ [key] :=
  List.map_append

@[simp] theorem byKey_push (book : LabelBook) (key : String) :
    (book.push key).byKey = (key, book.rows.length) :: book.byKey := rfl

@[simp] theorem byLabel_push (book : LabelBook) (key : String) :
    (book.push key).byLabel
      = (Label.ofIndex book.rows.length, book.rows.length) :: book.byLabel := rfl

end LabelBook

end ImportChart
