import ImportChart.Source.Constraint
import Mathlib.Data.List.Chain

/-!
# The grammar of build expressions

What an expression after `//go:build` may look like and what it means, said
without any reader. An expression is built from tags and negated tags with
`&&`, `||` and parentheses. Its text is a list of tokens, blanks among them:
blanks may stand between any two tokens, and parentheses around any
subexpression. Where a text leaves the grouping of equal operators open, each
grouping is a reading of it.
-/

namespace ImportChart.Source

open ImportChart.Text

/-! ## Expressions -/

/-- Whether a character may belong to a tag: it is no blank and has no meaning
of its own. -/
def isTagChar (c : Char) : Bool :=
  !(isBlank c || isParenthesis c || c == '!' || c == '&' || c == '|')

@[ext] structure Tag where
  name : List Char
  name_ne_nil : name ≠ []
  isTagChar_of_mem : ∀ c ∈ name, isTagChar c = true
  deriving DecidableEq

/-- The tag that counts. -/
def Tag.ignore : Tag :=
  ⟨ignoreTag, by decide, List.all_eq_true.mp (by decide)⟩

/-- A tag or a negated tag. -/
inductive Term
  | tag (t : Tag)
  | notTag (t : Tag)
  deriving DecidableEq

inductive BuildExpr
  | term (x : Term)
  | and (left right : BuildExpr)
  | or (left right : BuildExpr)

namespace BuildExpr

/-- What an expression comes to when its terms have the given values. -/
def eval (value : Term → Bool) : BuildExpr → Bool
  | .term x => value x
  | .and left right => left.eval value && right.eval value
  | .or left right => left.eval value || right.eval value

/-- No term is negated. -/
def isPositive : BuildExpr → Bool
  | .term (.tag _) => true
  | .term (.notTag _) => false
  | .and left right | .or left right => left.isPositive && right.isPositive

def hasOr : BuildExpr → Bool
  | .term _ => false
  | .and left right => left.hasOr || right.hasOr
  | .or _ _ => true

/-- No alternatives stand within a conjunction. -/
def isFlat : BuildExpr → Bool
  | .term _ => true
  | .and left right => !left.hasOr && !right.hasOr
  | .or left right => left.isFlat && right.isFlat

end BuildExpr

/-- The value of a term when each tag holds or not as given. -/
def Term.holds (truth : Tag → Bool) : Term → Bool
  | .tag t => truth t
  | .notTag t => !truth t

def BuildExpr.holds (truth : Tag → Bool) (expr : BuildExpr) : Bool :=
  expr.eval (·.holds truth)

/-- Every tag but `ignore`. -/
def othersHold (t : Tag) : Bool := t != .ignore

/-! ## Tokens -/

inductive Token
  | tag (t : Tag)
  | not
  | opening
  | closing
  | and
  | or
  | blank (c : Char) (isBlank_eq : isBlank c = true)
  deriving DecidableEq

namespace Token

def text : Token → List Char
  | .tag t => t.name
  | .not => ['!']
  | .opening => ['(']
  | .closing => [')']
  | .and => ['&', '&']
  | .or => ['|', '|']
  | .blank c _ => [c]

def isSpace : Token → Bool
  | .blank _ _ => true
  | _ => false

end Token

/-- The text of a list of tokens. -/
def spell (tokens : List Token) : List Char := tokens.flatMap Token.text

/-- Tokens without an operator. -/
def IsPart (tokens : List Token) : Prop := .or ∉ tokens ∧ .and ∉ tokens

/-- No blank stands next to the inner side of a parenthesis. -/
def Tight (tokens : List Token) : Prop :=
  tokens.IsChain fun before after =>
    ¬(before = .opening ∧ after.isSpace = true)
      ∧ ¬(before.isSpace = true ∧ after = .closing)

/-- No blank stands next to the inner side of a parenthesis in a part that has
the tag `ignore`. -/
def TightAtIgnore (tokens : List Token) : Prop :=
  ∀ part, part <:+: tokens → IsPart part → .tag .ignore ∈ part → Tight part

/-! ## Texts of an expression -/

/-- Where an expression stands: as an operand of `&&`, or where `||` may stand
around it, which is anywhere else. -/
inductive Place
  | operand
  | whole

/-- The texts of an expression. -/
inductive Written : Place → BuildExpr → List Token → Prop
  | tag (t : Tag) : Written .operand (.term (.tag t)) [.tag t]
  | notTag {t : Tag} {tokens : List Token} :
      Written .operand (.term (.tag t)) tokens →
      Written .operand (.term (.notTag t)) (.not :: tokens)
  | group {expr : BuildExpr} {tokens : List Token} :
      Written .whole expr tokens →
      Written .operand expr (.opening :: tokens ++ [.closing])
  | and {left right : BuildExpr} {ls rs : List Token} :
      Written .operand left ls → Written .operand right rs →
      Written .operand (.and left right) (ls ++ .and :: rs)
  | or {left right : BuildExpr} {ls rs : List Token} :
      Written .whole left ls → Written .whole right rs →
      Written .whole (.or left right) (ls ++ .or :: rs)
  | whole {expr : BuildExpr} {tokens : List Token} :
      Written .operand expr tokens → Written .whole expr tokens
  | spaced {place : Place} {expr : BuildExpr} {before tokens after : List Token} :
      (∀ token ∈ before, token.isSpace = true) → Written place expr tokens →
      (∀ token ∈ after, token.isSpace = true) →
      Written place expr (before ++ tokens ++ after)

end ImportChart.Source
