import ImportChart.Proofs.FlatReading
import ImportChart.Proofs.LeftmostCut

/-!
# The parts of a build expression

An expression is judged without being parsed: its text is cut at each `||`, and
what lies between at each `&&`, whatever parentheses stand around. No other
token holds a bar or an ampersand, so the cuts are the operators of the text
(`splitAtKey_spell`), and an expression is cut like its operands
(`parts_append_or`, `parts_append_and`). Hence the parts stand, one by one, for
the terms of the alternatives that are left when the parentheses are passed
over (`standsFor_of_written`).
-/

namespace ImportChart.Source

open ImportChart.Text

/-! ## Cutting the text between tokens -/

/-- The tokens that always have the same text. -/
def marks : List Token := [.not, .opening, .closing, .and, .or]

theorem Token.mem_marks {c : Char} {token : Token} (htag : isTagChar c = false)
    (hblank : isBlank c = false) (h : c ∈ token.text) : token ∈ marks := by
  cases token with
  | tag t =>
      have hc := t.isTagChar_of_mem c h
      rw [htag] at hc
      cases hc
  | blank d hd =>
      rw [← List.mem_singleton.mp h, hblank] at hd
      cases hd
  | not | opening | closing | and | or => decide

/-- Cutting the text of tokens at an operator is cutting the tokens. -/
theorem splitAtKey_spell {separator : Token} {c : Char}
    (hseparator : separator.text = [c, c])
    (hother : ∀ {token : Token}, token ≠ separator → c ∉ token.text) :
    ∀ tokens : List Token, splitAtKey [c, c] (spell tokens)
      = (tokens.splitOn separator).map spell
  | [] => splitAtKey_nil (List.cons_ne_nil _ _)
  | token :: tokens => by
      have hspell : spell (token :: tokens) = token.text ++ spell tokens := rfl
      rw [hspell, List.splitOn_cons_eq_if_modifyHead]
      by_cases heq : token = separator
      · rw [if_pos (beq_iff_eq.mpr heq), heq, hseparator,
          splitAtKey_append (List.cons_ne_nil _ _),
          splitAtKey_spell hseparator hother tokens]
        rfl
      · rw [if_neg (by rwa [beq_iff_eq]),
          splitAtKey_append_of_not_mem (hother heq),
          splitAtKey_spell hseparator hother tokens]
        cases tokens.splitOn separator <;> rfl

theorem splitAtKey_bars (tokens : List Token) :
    splitAtKey "||".toList (spell tokens)
      = (tokens.splitOn .or).map spell := by
  have hmarks : ∀ token ∈ marks, token ≠ .or → '|' ∉ token.text := by decide
  refine splitAtKey_spell rfl (fun {token} hne hmem => ?_) tokens
  exact hmarks token (token.mem_marks rfl rfl hmem) hne hmem

theorem splitAtKey_ampersands (tokens : List Token) :
    splitAtKey "&&".toList (spell tokens)
      = (tokens.splitOn .and).map spell := by
  have hmarks : ∀ token ∈ marks, token ≠ .and → '&' ∉ token.text := by decide
  refine splitAtKey_spell rfl (fun {token} hne hmem => ?_) tokens
  exact hmarks token (token.mem_marks rfl rfl hmem) hne hmem

/-- The tokens cut at each `||`, and what lies between at each `&&`. -/
def parts (tokens : List Token) : List (List (List Token)) :=
  (tokens.splitOn .or).map (·.splitOn .and)

/-- An expression ignores if each alternative has a part that is taken for the
tag `ignore`. -/
theorem expressionIgnores_spell_iff {tokens : List Token} :
    expressionIgnores (spell tokens) = true
      ↔ ∀ alternative ∈ parts tokens, ∃ part ∈ alternative,
          termIsIgnore (spell part) = true := by
  rw [expressionIgnores, splitAtKey_bars, List.all_map, List.all_eq_true, parts,
    List.forall_mem_map]
  simp only [Function.comp_apply, splitAtKey_ampersands, List.any_map,
    List.any_eq_true]

theorem infix_intercalate {separator piece : List Token} :
    ∀ {pieces : List (List Token)}, piece ∈ pieces →
      piece <:+: separator.intercalate pieces
  | [first], h => by
      have hsingle : separator.intercalate [first] = first :=
        List.intercalate_singleton
      simp only [List.mem_singleton.mp h, hsingle, List.infix_rfl]
  | first :: second :: pieces, h => by
      rw [List.intercalate_cons_of_ne_nil (List.cons_ne_nil _ _)]
      rcases List.mem_cons.mp h with rfl | h
      · rw [List.append_assoc]
        exact (List.prefix_append _ _).isInfix
      · exact (infix_intercalate h).trans (List.suffix_append _ _).isInfix

theorem infix_of_mem_splitOn {separator : Token} {tokens piece : List Token}
    (h : piece ∈ tokens.splitOn separator) : piece <:+: tokens := by
  have hwithin : piece <:+: [separator].intercalate (tokens.splitOn separator) :=
    infix_intercalate h
  rwa [List.intercalate_splitOn] at hwithin

/-- Each part is a stretch of the text. -/
theorem infix_of_mem_parts {tokens part : List Token}
    {alternative : List (List Token)} (halternative : alternative ∈ parts tokens)
    (hpart : part ∈ alternative) : part <:+: tokens := by
  obtain ⟨piece, hpiece, rfl⟩ := List.mem_map.mp halternative
  exact (infix_of_mem_splitOn hpart).trans (infix_of_mem_splitOn hpiece)

/-! ## Cutting the tokens of a compound expression -/

theorem parts_append_or (ls rs : List Token) :
    parts (ls ++ .or :: rs) = parts ls ++ parts rs := by
  rw [parts, List.splitOn_append_cons_self, List.map_append]
  rfl

theorem splitOn_append_of_ne {separator token : Token} (h : token ≠ separator) :
    ∀ ls rs : List Token, (ls ++ token :: rs).splitOn separator
      = joinEnds (fun l r => l ++ token :: r) (ls.splitOn separator)
          (rs.splitOn separator)
  | [], rs => by
      rw [List.nil_append, List.splitOn_cons_eq_if_modifyHead,
        if_neg (by rwa [beq_iff_eq]), List.splitOn_nil]
      rfl
  | first :: ls, rs => by
      have hne := List.splitOn_ne_nil separator ls
      rw [List.cons_append, List.splitOn_cons_eq_if_modifyHead,
        List.splitOn_cons_eq_if_modifyHead, splitOn_append_of_ne h ls rs]
      split
      · exact (joinEnds_cons hne _).symm
      · have hglue (l r : List Token) :
            (first :: l) ++ token :: r = first :: (l ++ token :: r) := rfl
        exact (joinEnds_modifyHead hglue hne _).symm

theorem parts_append_and (ls rs : List Token) :
    parts (ls ++ .and :: rs) = joinEnds (· ++ ·) (parts ls) (parts rs) := by
  have hne : Token.and ≠ .or := by decide
  rw [parts, splitOn_append_of_ne hne, map_joinEnds]
  · rfl
  · exact List.splitOn_append_cons_self

/-! ## The parts of a text and their terms -/

namespace Token

/-- A token that may stand before a term within its part. -/
def opens (token : Token) : Bool := token = .opening || token.isSpace

/-- A token that may stand after a term within its part. -/
def closes (token : Token) : Bool := token = .closing || token.isSpace

end Token

/-- A part of the text and the term that it stands for. -/
inductive StandsFor : List Token → Term → Prop
  | tag {before after : List Token} {t : Tag} :
      (∀ token ∈ before, token.opens = true) →
      (∀ token ∈ after, token.closes = true) →
      StandsFor (before ++ .tag t :: after) (.tag t)
  | notTag {part : List Token} {t : Tag} : .not ∈ part →
      StandsFor part (.notTag t)

theorem IsPart.append {front back : List Token} (hfront : IsPart front)
    (hback : IsPart back) : IsPart (front ++ back) := by
  simp only [IsPart, List.mem_append, not_or]
  exact ⟨⟨hfront.1, hback.1⟩, hfront.2, hback.2⟩

theorem isPart_of_forall {p : Token → Bool} {tokens : List Token}
    (h : ∀ token ∈ tokens, p token = true) (hor : p .or = false)
    (hand : p .and = false) : IsPart tokens :=
  ⟨fun hmem => Bool.false_ne_true (hor.symm.trans (h _ hmem)),
    fun hmem => Bool.false_ne_true (hand.symm.trans (h _ hmem))⟩

theorem parts_of_isPart {tokens : List Token} (h : IsPart tokens) :
    parts tokens = [[tokens]] := by
  rw [parts, List.splitOn_eq_singleton h.1, List.map_singleton,
    List.splitOn_eq_singleton h.2]

/-- A text of one term is one part, also behind a negation. -/
theorem isPart_of_written_term {place : Place} {expr : BuildExpr}
    {tokens : List Token} (h : Written place expr tokens) :
    ∀ x, expr = .term x → IsPart tokens := by
  induction h with
  | tag t => exact fun _ _ => ⟨by simp, by simp⟩
  | notTag _ ih =>
      intro _ _
      have hnot : IsPart [.not] := ⟨by decide, by decide⟩
      exact hnot.append (ih _ rfl)
  | group _ ih =>
      intro x hx
      have hopening : IsPart [.opening] := ⟨by decide, by decide⟩
      have hclosing : IsPart [.closing] := ⟨by decide, by decide⟩
      exact (hopening.append (ih x hx)).append hclosing
  | and | or => exact fun _ hx => nomatch hx
  | whole _ ih => exact ih
  | spaced hbefore _ hafter ih =>
      intro x hx
      have hbefore := isPart_of_forall hbefore rfl rfl
      have hafter := isPart_of_forall hafter rfl rfl
      exact (hbefore.append (ih x hx)).append hafter

/-- The parts of a text of an expression stand, one by one, for the terms of its
alternatives. What stands around the text belongs to its first and its last
part. -/
theorem standsFor_of_written {place : Place} {expr : BuildExpr}
    {tokens : List Token} (h : Written place expr tokens) :
    ∀ {before after : List Token}, (∀ token ∈ before, token.opens = true) →
      (∀ token ∈ after, token.closes = true) →
      List.Forall₂ (List.Forall₂ StandsFor) (parts (before ++ tokens ++ after))
        expr.alternatives := by
  induction h with
  | tag t =>
      intro before after hbefore hafter
      have hpart : IsPart (before ++ [.tag t] ++ after) :=
        ((isPart_of_forall hbefore rfl rfl).append ⟨by simp, by simp⟩).append
          (isPart_of_forall hafter rfl rfl)
      rw [parts_of_isPart hpart, List.append_assoc]
      exact .cons (.cons (.tag hbefore hafter) .nil) .nil
  | @notTag t tokens h ih =>
      intro before after hbefore hafter
      have hpart : IsPart (before ++ .not :: tokens ++ after) :=
        ((isPart_of_forall hbefore rfl rfl).append
          (isPart_of_written_term h.notTag _ rfl)).append
          (isPart_of_forall hafter rfl rfl)
      rw [parts_of_isPart hpart]
      exact .cons (.cons (.notTag (by simp)) .nil) .nil
  | @group expr tokens _ ih =>
      intro before after hbefore hafter
      -- the parentheses join what stands around the text within them
      have hbefore' : ∀ token ∈ before ++ [.opening], token.opens = true :=
        List.forall_mem_append.mpr ⟨hbefore, List.forall_mem_singleton.mpr rfl⟩
      have hafter' : ∀ token ∈ .closing :: after, token.closes = true :=
        List.forall_mem_cons.mpr ⟨rfl, hafter⟩
      have htokens := ih hbefore' hafter'
      simpa only [List.append_assoc, List.cons_append, List.nil_append]
        using htokens
  | @and left right ls rs _ _ ihLeft ihRight =>
      intro before after hbefore hafter
      have hleft := ihLeft hbefore (List.forall_mem_nil _)
      have hright := ihRight (List.forall_mem_nil _) hafter
      rw [List.append_nil] at hleft
      -- cut at this operator, so that what is around goes to the outer sides
      have hsplit : before ++ (ls ++ .and :: rs) ++ after
          = (before ++ ls) ++ .and :: ([] ++ rs ++ after) := by simp
      rw [hsplit, parts_append_and]
      exact forall₂_joinEnds (fun _ _ _ _ hl hr => List.rel_append hl hr) hleft
        hright
  | @or left right ls rs _ _ ihLeft ihRight =>
      intro before after hbefore hafter
      have hleft := ihLeft hbefore (List.forall_mem_nil _)
      have hright := ihRight (List.forall_mem_nil _) hafter
      rw [List.append_nil] at hleft
      have hsplit : before ++ (ls ++ .or :: rs) ++ after
          = (before ++ ls) ++ .or :: ([] ++ rs ++ after) := by simp
      rw [hsplit, parts_append_or]
      exact List.rel_append hleft hright
  | whole _ ih => exact ih
  | @spaced place expr front tokens back hfront _ hback ih =>
      intro before after hbefore hafter
      have hbefore' : ∀ token ∈ before ++ front, token.opens = true :=
        List.forall_mem_append.mpr ⟨hbefore, fun token hmem =>
          Bool.or_eq_true_iff.mpr (.inr (hfront token hmem))⟩
      have hafter' : ∀ token ∈ back ++ after, token.closes = true :=
        List.forall_mem_append.mpr ⟨fun token hmem =>
          Bool.or_eq_true_iff.mpr (.inr (hback token hmem)), hafter⟩
      have htokens := ih hbefore' hafter'
      simpa only [List.append_assoc] using htokens

end ImportChart.Source
