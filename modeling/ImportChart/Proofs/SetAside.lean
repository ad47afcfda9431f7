import ImportChart.Proofs.CharacterRuns
import ImportChart.Proofs.ExpressionReading
import ImportChart.Source.Header

/-!
# Files that are set aside

A part of a build expression is taken for the tag `ignore` if nothing but
blanks, and within them parentheses, stands around the tag. So it is taken for
it only if its term is the tag (`StandsFor.eq_ignore`), and a file that can be
built without the tag is never set aside. That a file that needs the tag is set
aside takes two things more. No blank may stand between the tag and a
parenthesis of its part (`TightAtIgnore`), or the part is taken for another
tag. And no alternatives may stand within a conjunction (`BuildExpr.isFlat`):
without the parentheses only the alternative next to the operator would belong
to the conjunction.
-/

namespace ImportChart.Source

open ImportChart.Text

/-! ## Parts that are taken for the tag -/

/-- A character that is kept when a part is compared with the tag. -/
def isTermChar (c : Char) : Bool := !(isBlank c || isParenthesis c)

theorem isTermChar_iff {c : Char} :
    isTermChar c = true ↔ isBlank c = false ∧ isParenthesis c = false := by
  rw [isTermChar, Bool.not_eq_true', Bool.or_eq_false_iff]

theorem Tag.isTermChar_of_mem (t : Tag) (c : Char) (h : c ∈ t.name) :
    isTermChar c = true := by
  have htag := t.isTagChar_of_mem c h
  simp only [isTagChar, Bool.not_eq_true', Bool.or_eq_false_iff] at htag
  exact isTermChar_iff.mpr htag.1.1.1

theorem filter_of_termIsIgnore {term : List Char}
    (h : termIsIgnore term = true) : term.filter isTermChar = ignoreTag := by
  have hblank (c : Char) (hc : isBlank c = true) : isTermChar c = false := by
    simp [isTermChar, hc]
  have hparenthesis (c : Char) (hc : isParenthesis c = true) :
      isTermChar c = false := by
    simp [isTermChar, hc]
  calc term.filter isTermChar
      = (trim term).filter isTermChar := (filter_dropBothWhile hblank term).symm
    _ = (dropBothWhile isParenthesis (trim term)).filter isTermChar :=
        (filter_dropBothWhile hparenthesis _).symm
    _ = ignoreTag := by
        rw [beq_iff_eq.mp h]
        decide

theorem spell_append (front back : List Token) :
    spell (front ++ back) = spell front ++ spell back :=
  List.flatMap_append

theorem Token.isTermChar_eq_false {token : Token} {c : Char}
    (h : token.opens = true ∨ token.closes = true) (hc : c ∈ token.text) :
    isTermChar c = false := by
  cases token with
  | tag | not | and | or => simp [opens, closes, isSpace] at h
  | opening | closing =>
      rw [List.mem_singleton.mp hc]
      decide
  | blank d hd =>
      rw [List.mem_singleton.mp hc]
      simp [isTermChar, hd]

/-- What stands around a term is not compared with the tag. -/
theorem filter_spell_eq_nil {tokens : List Token}
    (h : ∀ token ∈ tokens, token.opens = true ∨ token.closes = true) :
    (spell tokens).filter isTermChar = [] := by
  refine List.filter_eq_nil_iff.mpr fun c hc => ?_
  obtain ⟨token, hmem, hc⟩ := List.mem_flatMap.mp hc
  rw [Token.isTermChar_eq_false (h token hmem) hc]
  exact Bool.false_ne_true

theorem filter_name (t : Tag) : t.name.filter isTermChar = t.name :=
  List.filter_eq_self.mpr t.isTermChar_of_mem

/-- Only a part that stands for the tag `ignore` is taken for it. -/
theorem StandsFor.eq_ignore {part : List Token} {x : Term}
    (h : StandsFor part x) (hignore : termIsIgnore (spell part) = true) :
    x = .tag .ignore := by
  have hkept := filter_of_termIsIgnore hignore
  cases h with
  | @tag before after t hbefore hafter =>
      have hspell : spell (before ++ .tag t :: after)
          = spell before ++ (t.name ++ spell after) := spell_append _ _
      rw [hspell, List.filter_append, List.filter_append,
        filter_spell_eq_nil fun token hmem => .inl (hbefore token hmem),
        filter_spell_eq_nil fun token hmem => .inr (hafter token hmem),
        filter_name, List.nil_append, List.append_nil] at hkept
      have hname : t = .ignore := Tag.ext hkept
      rw [hname]
  | notTag hnot =>
      -- the mark of the negation is kept, and the tag has no such character
      have hmem : '!' ∈ (spell part).filter isTermChar :=
        List.mem_filter.mpr
          ⟨List.mem_flatMap.mpr ⟨.not, hnot, List.mem_singleton_self _⟩,
            by decide⟩
      rw [hkept] at hmem
      exact absurd hmem (by decide)

/-! ## Tight layouts -/

/-- If nothing with the second property stands right before something with the
first, then all with the first come first. -/
theorem exists_append_of_isChain {p q : Token → Prop} {tokens : List Token}
    (h : ∀ token ∈ tokens, p token ∨ q token)
    (hchain : tokens.IsChain fun before after => ¬(q before ∧ p after)) :
    ∃ front back, tokens = front ++ back ∧ (∀ token ∈ front, p token)
      ∧ ∀ token ∈ back, q token := by
  induction tokens with
  | nil => exact ⟨[], [], rfl, List.forall_mem_nil _, List.forall_mem_nil _⟩
  | cons first tokens ih =>
      have hall := List.forall_mem_cons.mp h
      have hsteps := List.isChain_cons.mp hchain
      obtain ⟨front, back, rfl, hfront, hback⟩ := ih hall.2 hsteps.2
      rcases hall.1 with hfirst | hfirst
      · exact ⟨first :: front, back, rfl,
          List.forall_mem_cons.mpr ⟨hfirst, hfront⟩, hback⟩
      · cases front with
        | nil => exact ⟨[], first :: back, rfl, List.forall_mem_nil _,
            List.forall_mem_cons.mpr ⟨hfirst, hback⟩⟩
        | cons second front =>
            have hsecond := (List.forall_mem_cons.mp hfront).1
            exact absurd ⟨hfirst, hsecond⟩ (hsteps.1 second rfl)

theorem isBlank_of_mem_spell {tokens : List Token}
    (h : ∀ token ∈ tokens, token.isSpace = true) :
    ∀ c ∈ spell tokens, isBlank c = true := by
  refine List.forall_mem_flatMap.mpr fun token hmem c hc => ?_
  have hspace := h token hmem
  cases token with
  | blank d hd => rwa [List.mem_singleton.mp hc]
  | _ => cases hspace

theorem isParenthesis_of_mem_spell {tokens : List Token} {token : Token}
    (h : ∀ other ∈ tokens, other = token)
    (htoken : ∀ c ∈ token.text, isParenthesis c = true) :
    ∀ c ∈ spell tokens, isParenthesis c = true := by
  refine List.forall_mem_flatMap.mpr fun other hmem => ?_
  rw [h other hmem]
  exact htoken

theorem isBlank_of_isParenthesis {c : Char} (h : isParenthesis c = true) :
    isBlank c = false := by
  simp only [isParenthesis, Bool.or_eq_true, beq_iff_eq] at h
  rcases h with rfl | rfl <;> decide

/-- In a tight layout the parentheses around a term stand right at it, and all
blanks of the part stand around them. -/
theorem exists_spell_of_tight {before after : List Token} {t : Tag}
    (hbefore : ∀ token ∈ before, token.opens = true)
    (hafter : ∀ token ∈ after, token.closes = true)
    (htight : Tight (before ++ .tag t :: after)) :
    ∃ blanks openings closings blanks', spell (before ++ .tag t :: after)
        = blanks ++ (openings ++ t.name ++ closings) ++ blanks'
      ∧ (∀ c ∈ blanks, isBlank c = true)
      ∧ (∀ c ∈ openings, isParenthesis c = true)
      ∧ (∀ c ∈ closings, isParenthesis c = true)
      ∧ ∀ c ∈ blanks', isBlank c = true := by
  have hfront : ∀ token ∈ before, token.isSpace = true ∨ token = .opening :=
    fun token hmem =>
      (Bool.or_eq_true_iff.mp (hbefore token hmem)).symm.imp_right
        of_decide_eq_true
  have hback : ∀ token ∈ after, token = .closing ∨ token.isSpace = true :=
    fun token hmem => (Bool.or_eq_true_iff.mp (hafter token hmem)).imp_left
      of_decide_eq_true
  obtain ⟨blanks, openings, rfl, hblanks, hopenings⟩ :=
    exists_append_of_isChain hfront
      (htight.left_of_append.imp fun _ _ h => h.1)
  obtain ⟨closings, blanks', rfl, hclosings, hblanks'⟩ :=
    exists_append_of_isChain hback
      (htight.right_of_append.tail.imp fun _ _ h => h.2)
  refine ⟨spell blanks, spell openings, spell closings, spell blanks', ?_,
    isBlank_of_mem_spell hblanks,
    isParenthesis_of_mem_spell hopenings (List.forall_mem_singleton.mpr rfl),
    isParenthesis_of_mem_spell hclosings (List.forall_mem_singleton.mpr rfl),
    isBlank_of_mem_spell hblanks'⟩
  simp [spell, Token.text]

theorem TightAtIgnore.of_infix {tokens part : List Token}
    (h : TightAtIgnore tokens) (hwithin : part <:+: tokens) :
    TightAtIgnore part :=
  fun stretch hstretch => h stretch (hstretch.trans hwithin)

theorem Tight.tightAtIgnore {tokens : List Token} (h : Tight tokens) :
    TightAtIgnore tokens :=
  fun _ hwithin _ _ => List.IsChain.infix h hwithin

/-- If the layout is tight at the tag, each part that stands for it is taken for
it. -/
theorem StandsFor.termIsIgnore_iff {part : List Token} {x : Term}
    (h : StandsFor part x) (htight : TightAtIgnore part) :
    termIsIgnore (spell part) = true ↔ x = .tag .ignore := by
  refine ⟨h.eq_ignore, ?_⟩
  rintro rfl
  cases h with
  | @tag before after _ hbefore hafter =>
      have hpart : IsPart (before ++ [.tag .ignore] ++ after) :=
        ((isPart_of_forall hbefore rfl rfl).append ⟨by simp, by simp⟩).append
          (isPart_of_forall hafter rfl rfl)
      rw [List.append_assoc] at hpart
      obtain ⟨blanks, openings, closings, blanks', hspell, hblanks, hopenings,
        hclosings, hblanks'⟩ := exists_spell_of_tight hbefore hafter
          (htight _ List.infix_rfl hpart (by simp))
      have htag (c : Char) (hc : c ∈ ignoreTag) :=
        isTermChar_iff.mp (Tag.ignore.isTermChar_of_mem c hc)
      have hne : ignoreTag ≠ [] := Tag.ignore.name_ne_nil
      have hcore : ∀ c ∈ openings ++ ignoreTag ++ closings,
          isBlank c = false := by
        simp only [List.forall_mem_append]
        refine ⟨⟨fun c hc => ?_, fun c hc => (htag c hc).1⟩, fun c hc => ?_⟩
        · exact isBlank_of_isParenthesis (hopenings c hc)
        · exact isBlank_of_isParenthesis (hclosings c hc)
      have hcoreNe : openings ++ ignoreTag ++ closings ≠ [] := by simp [hne]
      rw [hspell, termIsIgnore, trim, Tag.ignore,
        dropBothWhile_append hblanks hcore hcoreNe hblanks',
        dropBothWhile_append hopenings (fun c hc => (htag c hc).2) hne
          hclosings]
      exact beq_self_eq_true _

/-! ## Whole expressions -/

section Corresponding

variable {α β : Type} {R : α → β → Prop}

theorem exists_of_mem_left : ∀ {xs : List α} {ys : List β},
    List.Forall₂ R xs ys → ∀ x ∈ xs, ∃ y ∈ ys, R x y
  | _ :: _, _ :: _, .cons hhead htail, x, hx => by
      rcases List.mem_cons.mp hx with rfl | hx
      · exact ⟨_, List.mem_cons_self, hhead⟩
      · obtain ⟨y, hy, hR⟩ := exists_of_mem_left htail x hx
        exact ⟨y, List.mem_cons_of_mem _ hy, hR⟩

theorem exists_of_mem_right {xs : List α} {ys : List β}
    (h : List.Forall₂ R xs ys) (y : β) (hy : y ∈ ys) : ∃ x ∈ xs, R x y :=
  exists_of_mem_left (List.Forall₂.flip h) y hy

/-- What each of the lists has somewhere, each of the corresponding lists has in
the corresponding place. -/
theorem forall_exists_of_forall₂ {P : α → Prop} {Q : β → Prop}
    (himp : ∀ x y, R x y → P x → Q y) {xss : List (List α)}
    {yss : List (List β)} (h : List.Forall₂ (List.Forall₂ R) xss yss)
    (hP : ∀ xs ∈ xss, ∃ x ∈ xs, P x) : ∀ ys ∈ yss, ∃ y ∈ ys, Q y := by
  intro ys hys
  obtain ⟨xs, hxs, hcorresponding⟩ := exists_of_mem_right h ys hys
  obtain ⟨x, hx, hPx⟩ := hP xs hxs
  obtain ⟨y, hy, hR⟩ := exists_of_mem_left hcorresponding x hx
  exact ⟨y, hy, himp x y hR hPx⟩

theorem forall_exists_iff_of_forall₂ {P : α → Prop} {Q : β → Prop}
    (hiff : ∀ x y, R x y → (P x ↔ Q y)) {xss : List (List α)}
    {yss : List (List β)} (h : List.Forall₂ (List.Forall₂ R) xss yss) :
    (∀ xs ∈ xss, ∃ x ∈ xs, P x) ↔ ∀ ys ∈ yss, ∃ y ∈ ys, Q y := by
  have hflip : List.Forall₂ (List.Forall₂ (flip R)) yss xss :=
    (List.Forall₂.flip h).imp fun _ _ hrow => List.Forall₂.flip hrow
  exact ⟨forall_exists_of_forall₂ (fun x y hR => (hiff x y hR).mp) h,
    forall_exists_of_forall₂ (fun y x hR => (hiff x y hR).mpr) hflip⟩

end Corresponding

/-- The parts of a whole text stand for the terms of its alternatives. -/
theorem standsFor_parts {expr : BuildExpr} {tokens : List Token}
    (h : Written .whole expr tokens) :
    List.Forall₂ (List.Forall₂ StandsFor) (parts tokens) expr.alternatives := by
  have hparts := standsFor_of_written h (List.forall_mem_nil _)
    (List.forall_mem_nil _)
  rwa [List.nil_append, List.append_nil] at hparts

/-! ## A file with an expression -/

/-- A file of the package `gen` with an expression. -/
def headerWith (expression : String) : FileHeader where
  package := "gen"
  imports := []
  constraints := { expression := some expression, optionLines := [] }

def Tag.linux : Tag :=
  ⟨"linux".toList, by decide, List.all_eq_true.mp (by decide)⟩

def Tag.darwin : Tag :=
  ⟨"darwin".toList, by decide, List.all_eq_true.mp (by decide)⟩

def Token.space : Token := .blank ' ' (by decide)

theorem Written.cons_space {place : Place} {expr : BuildExpr}
    {tokens : List Token} (h : Written place expr tokens) :
    Written place expr (.space :: tokens) := by
  have hspace : ∀ token ∈ [Token.space], token.isSpace = true := by decide
  have hspaced := Written.spaced hspace h (List.forall_mem_nil _)
  rwa [List.append_nil] at hspaced

theorem Written.append_space {place : Place} {expr : BuildExpr}
    {tokens : List Token} (h : Written place expr tokens) :
    Written place expr (tokens ++ [.space]) :=
  Written.spaced (List.forall_mem_nil _) h (by decide)

/-- Two ways to build a file, both with the tag `ignore`. -/
def guarded : BuildExpr :=
  .or (.and (.term (.tag .linux)) (.term (.tag .ignore)))
    (.and (.term (.tag .darwin)) (.term (.tag .ignore)))

def guardedHeader : FileHeader :=
  headerWith "(linux && ignore) || darwin && (ignore)"

def guardedTokens : List Token :=
  [.opening, .tag .linux, .space, .and, .space, .tag .ignore, .closing, .space,
    .or, .space, .tag .darwin, .space, .and, .space, .opening, .tag .ignore,
    .closing]

theorem written_guarded : Written .whole guarded guardedTokens := by
  have hleft := (Written.tag .linux).append_space.and
    (Written.tag .ignore).cons_space
  have hright := (Written.tag .darwin).append_space.and
    (Written.tag .ignore).whole.group.cons_space
  exact hleft.whole.group.append_space.whole.or hright.cons_space.whole

/-! ## Expressions that set their file aside -/

section Judging

variable {header : FileHeader} {expr : BuildExpr} {tokens : List Token}

theorem isSetAside_iff_of_expression
    (htext : header.constraints.expression
      = some (String.ofList (spell tokens))) :
    header.isSetAside = true
      ↔ ∀ alternative ∈ parts tokens, ∃ part ∈ alternative,
          termIsIgnore (spell part) = true := by
  rw [FileHeader.isSetAside, Constraints.ignores, htext]
  simp only [String.toList_ofList]
  exact expressionIgnores_spell_iff

/-- A file is set aside only if it cannot be built without the tag `ignore`,
whatever other tags hold. -/
theorem holds_eq_false_of_isSetAside (hexpr : Written .whole expr tokens)
    (htext : header.constraints.expression
      = some (String.ofList (spell tokens)))
    (haside : header.isSetAside = true) {truth : Tag → Bool}
    (hignore : truth .ignore = false) : expr.holds truth = false := by
  have hparts := (isSetAside_iff_of_expression htext).mp haside
  have hterms := forall_exists_of_forall₂
    (fun part x hstands => StandsFor.eq_ignore hstands) (standsFor_parts hexpr)
    hparts
  refine BuildExpr.holds_eq_false_of_forall_mem hignore fun terms hmem => ?_
  obtain ⟨x, hx, rfl⟩ := hterms terms hmem
  exact hx

theorem holds_eq_false_of_isSetAside_guarded :
    Written .whole guarded guardedTokens
      ∧ guardedHeader.isSetAside = true
      ∧ othersHold .ignore = false ∧ guarded.holds othersHold = false :=
  have haside : guardedHeader.isSetAside = true := by decide +kernel
  ⟨written_guarded, haside, by decide,
    holds_eq_false_of_isSetAside written_guarded rfl haside (by decide)⟩

/-- In a layout that is tight at the tag a file is set aside if and only if each
alternative that is left without the parentheses has the tag `ignore`. -/
theorem isSetAside_iff_of_tightAtIgnore (hexpr : Written .whole expr tokens)
    (htight : TightAtIgnore tokens)
    (htext : header.constraints.expression
      = some (String.ofList (spell tokens))) :
    header.isSetAside = true
      ↔ ∀ terms ∈ expr.alternatives, .tag .ignore ∈ terms := by
  have htightParts : ∀ alternative ∈ parts tokens, ∀ part ∈ alternative,
      TightAtIgnore part := fun _ halternative _ hpart =>
    htight.of_infix (infix_of_mem_parts halternative hpart)
  have hstands : List.Forall₂ (List.Forall₂ fun part x =>
      TightAtIgnore part ∧ StandsFor part x) (parts tokens) expr.alternatives :=
    ((List.forall₂_and_left _ _).mpr ⟨htightParts, standsFor_parts hexpr⟩).imp
      fun _ _ hrow => (List.forall₂_and_left _ _).mpr hrow
  rw [isSetAside_iff_of_expression htext, forall_exists_iff_of_forall₂
    (fun part x h => StandsFor.termIsIgnore_iff h.2 h.1) hstands]
  simp only [exists_eq_right]

/-- A flat expression without negation, in a layout that is tight at the tag,
sets its file aside if and only if it requires the tag `ignore`. -/
theorem isSetAside_iff_of_isFlat (hexpr : Written .whole expr tokens)
    (hpositive : expr.isPositive = true) (hflat : expr.isFlat = true)
    (htight : TightAtIgnore tokens)
    (htext : header.constraints.expression
      = some (String.ofList (spell tokens))) :
    header.isSetAside = true ↔ expr.holds othersHold = false := by
  rw [isSetAside_iff_of_tightAtIgnore hexpr htight htext,
    BuildExpr.holds_othersHold_of_isPositive hpositive,
    BuildExpr.eval_ne_ignore_eq_false_iff_of_isFlat hflat]

theorem isSetAside_iff_of_isFlat_guarded :
    Written .whole guarded guardedTokens ∧ guarded.isPositive = true
      ∧ guarded.isFlat = true ∧ TightAtIgnore guardedTokens
      ∧ (guardedHeader.isSetAside = true ↔ guarded.holds othersHold = false) :=
  have hall : Tight guardedTokens := by
    unfold Tight
    decide
  have htight := hall.tightAtIgnore
  ⟨written_guarded, rfl, rfl, htight,
    isSetAside_iff_of_isFlat written_guarded rfl rfl htight rfl⟩

/-- An expression that requires the tag `ignore`, with alternatives within a
conjunction. -/
def nested : BuildExpr :=
  .and (.term (.tag .ignore))
    (.or (.term (.tag .linux)) (.term (.tag .darwin)))

/-- `ignore && (linux || darwin)` -/
def nestedTokens : List Token :=
  [.tag .ignore, .space, .and, .space, .opening, .tag .linux, .space, .or,
    .space, .tag .darwin, .closing]

/-- Alternatives within a conjunction keep a file that requires the tag: without
the parentheses the expression is `(ignore && linux) || darwin`. -/
theorem isSetAside_nested :
    Written .whole nested nestedTokens ∧ nested.isPositive = true
      ∧ "ignore && (linux || darwin)" = String.ofList (spell nestedTokens)
      ∧ nested.holds othersHold = false
      ∧ (headerWith "ignore && (linux || darwin)").isSetAside = false := by
  have halternatives := (Written.tag .linux).whole.append_space.or
    (Written.tag .darwin).whole.cons_space
  have hexpr := (Written.tag .ignore).append_space.and
    halternatives.group.cons_space
  exact ⟨hexpr.whole, rfl, rfl, rfl, by decide +kernel⟩

/-- Blanks within parentheses keep a file that requires the tag: the part is
taken for another tag. -/
theorem isSetAside_spaced :
    Written .whole (.term (.tag .ignore))
        [.opening, .space, .tag .ignore, .space, .closing]
      ∧ BuildExpr.holds othersHold (.term (.tag .ignore)) = false
      ∧ (headerWith "( ignore )").isSetAside = false := by
  have hexpr := (Written.tag .ignore).whole.cons_space.append_space.group
  exact ⟨hexpr.whole, rfl, by decide +kernel⟩

end Judging

end ImportChart.Source
