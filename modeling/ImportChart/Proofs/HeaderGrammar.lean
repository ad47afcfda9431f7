import ImportChart.Proofs.CharacterClasses

/-!
# The grammar of file headers

What a header may look like, said without any reader: where white space and
comments may stand, how an import spec is written, what makes a declaration
and what follows the package name. A relation of this module holds of a text
and what the text says; each text of the grammar says one thing, though the
layout leaves many texts that say the same.
-/

namespace ImportChart.Source

open ImportChart.Text

/-! ## Layout -/

/-- Any mix of comments and of characters from `p`. A line comment includes the
line feed that ends it. -/
inductive Gap (p : Char → Bool) : List Char → Prop
  | nil : Gap p []
  | char {c : Char} {gap : List Char} : p c = true → Gap p gap →
      Gap p (c :: gap)
  | lineComment {text gap : List Char} : '\n' ∉ text → Gap p gap →
      Gap p ('/' :: '/' :: text ++ ['\n'] ++ gap)
  | blockComment {text gap : List Char} : ¬blockEnd <:+: text → Gap p gap →
      Gap p ('/' :: '*' :: text ++ blockEnd ++ gap)

/-! ## Specs -/

/-- An identifier. -/
def IsName (name : List Char) : Prop :=
  (∃ c cs, name = c :: cs ∧ isNameStart c = true)
    ∧ ∀ c ∈ name, isNameChar c = true

/-- The text of a path: on one line, and without quotes, backslashes and closing
parentheses. -/
def IsPath (path : List Char) : Prop :=
  '"' ∉ path ∧ backquote ∉ path ∧ '\\' ∉ path ∧ '\n' ∉ path ∧ ')' ∉ path

/-- A path in double quotes or in backquotes. -/
inductive Literal : List Char → List Char → Prop
  | quoted {path : List Char} : IsPath path →
      Literal ('"' :: path ++ ['"']) path
  | raw {path : List Char} : IsPath path →
      Literal (backquote :: path ++ [backquote]) path

/-- What may stand before the path of a spec: nothing, an identifier set off
from the path, or a dot. -/
inductive Alias : List Char → Prop
  | none : Alias []
  | name {name gap : List Char} : IsName name → Gap isBlank gap → gap ≠ [] →
      Alias (name ++ gap)
  | dot {gap : List Char} : Gap isBlank gap → Alias ('.' :: gap)

/-- An import spec and its path. -/
inductive Spec : List Char → List Char → Prop
  | mk {before literal path : List Char} : Alias before → Literal literal path →
      Spec (before ++ literal) path

/-! ## Declarations -/

def importWord : List Char := "import".toList

def packageWord : List Char := "package".toList

/-- The inside of a group and its paths. Nothing need stand between two
specs. -/
inductive Group : List Char → List (List Char) → Prop
  | done {gap : List Char} : Gap isSeparator gap → Group gap []
  | spec {gap spec path more : List Char} {paths : List (List Char)} :
      Gap isSeparator gap → Spec spec path → Group more paths →
      Group (gap ++ spec ++ more) (path :: paths)

/-- An import declaration and its paths. An alias that is an identifier is set
off from the word before it. -/
inductive Declaration : List Char → List (List Char) → Prop
  | single {gap spec path : List Char} : Gap isBlank gap → Spec spec path →
      (∀ c cs, spec = c :: cs → isNameStart c = true → gap ≠ []) →
      Declaration (importWord ++ gap ++ spec) [path]
  | group {gap body : List Char} {paths : List (List Char)} :
      Gap isBlank gap → Group body paths →
      Declaration (importWord ++ gap ++ '(' :: body ++ [')']) paths

/-! ## Headers -/

/-- The first token of a text is the word of an import declaration. -/
def StartsWithImport (text : List Char) : Prop :=
  ∃ gap rest, Gap isSeparator gap ∧ text = gap ++ importWord ++ rest
    ∧ ∀ c cs, rest = c :: cs → isNameChar c = false

/-- What may follow the package name, and the paths that it declares: import
declarations, each behind a separator, and behind the last separator any text
that does not start with one more. A file may also end in a comment that no
line feed ends. -/
inductive AfterName : List Char → List (List Char) → Prop
  | rest {gap rest : List Char} : Gap isSeparator gap → gap ≠ [] →
      ¬StartsWithImport rest → AfterName (gap ++ rest) []
  | lastComment {gap text : List Char} : Gap isSeparator gap → '\n' ∉ text →
      AfterName (gap ++ '/' :: '/' :: text) []
  | declaration {gap decl more : List Char} {paths paths' : List (List Char)} :
      Gap isSeparator gap → gap ≠ [] → Declaration decl paths →
      AfterName more paths' → AfterName (gap ++ decl ++ more) (paths ++ paths')

/-- A file with a header: its text, the name of its package and the paths that
it imports. -/
inductive SourceText : List Char → List Char → List (List Char) → Prop
  | mk {lead gap name more : List Char} {paths : List (List Char)} :
      Gap isBlank lead → Gap isBlank gap → gap ≠ [] → IsName name →
      AfterName more paths →
      SourceText (lead ++ packageWord ++ gap ++ name ++ more) name paths

end ImportChart.Source
