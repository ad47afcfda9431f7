/-!
# Comments

A source text without its comments, and with everything else unchanged. A
line comment leaves nothing (the line feed that ends it stays), a block
comment leaves one line feed if it holds one and one space otherwise, so that
it still separates what stands around it. Quotes protect: what looks like a
comment inside a string or a rune literal is part of the literal.

The text is read once from left to right. What a character means depends on
what has been opened before it, which is the `Within` the reader carries.
-/

namespace ImportChart.Source

inductive Within
  /-- Plain source. -/
  | code
  /-- A comment that ends before the next line feed. -/
  | lineComment
  /-- A block comment: whether its last character was a star, and whether a
  line feed has been met. -/
  | blockComment (star feed : Bool)
  /-- A literal that ends at the given quote or at the end of its line. -/
  | quoted (quote : Char)
  /-- The same, just after a backslash. -/
  | escaped (quote : Char)
  /-- A literal that ends at the next backquote. -/
  | raw
  deriving DecidableEq, Repr

/-- The character that opens and closes a raw literal. -/
def backquote : Char := '\x60'

/-- What a block comment leaves behind. -/
def blockGap (feed : Bool) : Char := if feed then '\n' else ' '

/-- What the reader is within after a character of plain source that opens no comment. -/
def Within.after (c : Char) : Within :=
  if c == '"' || c == '\'' then .quoted c else if c == backquote then .raw else .code

/-- The text without comments, read from within the given place. -/
def uncommentFrom : Within → List Char → List Char
  | .code, [] => []
  | .code, '/' :: '/' :: cs => uncommentFrom .lineComment cs
  | .code, '/' :: '*' :: cs => uncommentFrom (.blockComment false false) cs
  | .code, c :: cs => c :: uncommentFrom (.after c) cs
  | .lineComment, [] => []
  | .lineComment, c :: cs =>
    if c = '\n' then '\n' :: uncommentFrom .code cs else uncommentFrom .lineComment cs
  | .blockComment _ feed, [] => [blockGap feed]
  | .blockComment star feed, c :: cs =>
    if star && c == '/' then blockGap feed :: uncommentFrom .code cs
    else uncommentFrom (.blockComment (c == '*') (feed || c == '\n')) cs
  | .quoted _, [] => []
  | .quoted quote, c :: cs =>
    if c = '\\' then c :: uncommentFrom (.escaped quote) cs
    else if c = quote || c == '\n' then c :: uncommentFrom .code cs
    else c :: uncommentFrom (.quoted quote) cs
  | .escaped _, [] => []
  | .escaped quote, c :: cs => c :: uncommentFrom (.quoted quote) cs
  | .raw, [] => []
  | .raw, c :: cs =>
    if c = backquote then c :: uncommentFrom .code cs else c :: uncommentFrom .raw cs

def uncomment (cs : List Char) : List Char := uncommentFrom .code cs

/-! ## Small facts -/

@[simp] theorem uncomment_nil : uncomment [] = [] := rfl

/-- A line comment up to the end of its line leaves nothing. -/
theorem uncomment_lineComment (text rest : List Char) (h : '\n' ∉ text) :
    uncomment ('/' :: '/' :: text ++ '\n' :: rest) = '\n' :: uncomment rest := by
  have (cs : List Char) (h : '\n' ∉ cs) :
      uncommentFrom .lineComment (cs ++ '\n' :: rest) = '\n' :: uncomment rest := by
    induction cs with
    | nil => simp [uncommentFrom, uncomment]
    | cons c cs ih =>
      simp only [List.mem_cons, not_or] at h
      simp [uncommentFrom, Ne.symm h.1, ih h.2]
  exact this text h

/-- A raw literal is kept as it is. -/
theorem uncomment_raw (text rest : List Char) (h : backquote ∉ text) :
    uncomment (backquote :: text ++ backquote :: rest)
      = backquote :: text ++ backquote :: uncomment rest := by
  have (cs : List Char) (h : backquote ∉ cs) :
      uncommentFrom .raw (cs ++ backquote :: rest) = cs ++ backquote :: uncomment rest := by
    induction cs with
    | nil => simp [uncommentFrom, uncomment]
    | cons c cs ih =>
      simp only [List.mem_cons, not_or] at h
      simp [uncommentFrom, Ne.symm h.1, ih h.2]
  show backquote :: uncommentFrom .raw (text ++ backquote :: rest) = _
  rw [this text h]
  rfl

end ImportChart.Source
