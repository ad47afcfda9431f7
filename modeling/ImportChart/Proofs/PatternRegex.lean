import ImportChart.Proofs.PatternLiterals

/-!
# The regular expression of a pattern

A pattern can be turned into a regular expression without a look at its pieces,
by changing its text: mark characters are escaped, escaped dots in threes are
replaced by `.*`, and a `/.*` at the very end by `(/.*)?` (`regexText`). That
nothing else in the text is taken for a wildcard, whatever marks, backslashes
and further dots stand around it, shows in that it spells the pieces of the
pattern (`regex_eq`): an escaped text has no bare dot, so three escaped dots
start where three dots start, and no bare star, so a wildcard ends in one only
where it was put.

An expression of this kind is read mark by mark (`Accepts`), and then accepts
what the pieces match (`expressionMatches_regex_iff`). The matcher and the
expression both select the paths that fit the pattern (`selects_iff_fits`).
-/

namespace ImportChart.Pattern

open Text

/-! ## Changing the text -/

/-- The text with a backslash in front of each mark. -/
def escape (text : List Char) : List Char :=
  text.flatMap fun c => if regexMarks.contains c then ['\\', c] else [c]

/-- The text with `new` for each `key`, from left to right. -/
def replaceAll (key new text : List Char) : List Char :=
  new.intercalate (splitAtKey key text)

/-- Three escaped dots. -/
def escapedDots : List Char := ['\\', '.', '\\', '.', '\\', '.']

/-- The expression with its end made optional, if that is a slash and a
wildcard. -/
def optionalEnd (expression : List Char) : List Char :=
  if ['/', '.', '*'].isSuffixOf expression then
    expression.take (expression.length - 3) ++ "(/.*)?".toList
  else expression

/-- The regular expression of a pattern's text. -/
def regexText (text : String) : String :=
  String.ofList ('^' ::
    optionalEnd (replaceAll escapedDots ['.', '*'] (escape text.toList))
      ++ ['$'])

/-! ## Reading an expression -/

/-- The expression accepts the text. A character that is no mark, or is a mark
behind a backslash, stands for itself, `.*` for a run on one line, and a group
with a question mark for what the group stands for or for nothing. -/
inductive Accepts : List Char → List Char → Prop
  | done : Accepts [] []
  | plain {c : Char} {expression text : List Char} : c ∉ regexMarks →
      Accepts expression text → Accepts (c :: expression) (c :: text)
  | escaped {c : Char} {expression text : List Char} : c ∈ regexMarks →
      Accepts expression text → Accepts ('\\' :: c :: expression) (c :: text)
  | run {expression run text : List Char} : '\n' ∉ run →
      Accepts expression text → Accepts ('.' :: '*' :: expression) (run ++ text)
  | skipped {group expression text : List Char} : '(' ∉ group → ')' ∉ group →
      Accepts expression text →
      Accepts ('(' :: (group ++ ')' :: '?' :: expression)) text
  | taken {group expression front text : List Char} : '(' ∉ group →
      ')' ∉ group → Accepts group front → Accepts expression text →
      Accepts ('(' :: (group ++ ')' :: '?' :: expression)) (front ++ text)

/-- The regular expression matches the text from its start to its end. -/
def ExpressionMatches (regex : String) (text : List Char) : Prop :=
  ∃ expression, regex.toList = '^' :: expression ++ ['$']
    ∧ Accepts expression text

/-! ## Replacing in a text -/

section

variable {key : List Char} (hkey : key ≠ []) (new : List Char)

include hkey

theorem replaceAll_nil : replaceAll key new [] = [] := by
  rw [replaceAll, splitAtKey_nil hkey, List.intercalate_singleton]

theorem replaceAll_append (cs : List Char) :
    replaceAll key new (key ++ cs) = new ++ replaceAll key new cs := by
  rw [replaceAll, splitAtKey_append hkey,
    List.intercalate_cons_of_ne_nil (splitAtKey_ne_nil key cs),
    List.nil_append, replaceAll]

theorem replaceAll_cons {c : Char} {cs : List Char} (h : ¬key <+: c :: cs) :
    replaceAll key new (c :: cs) = c :: replaceAll key new cs := by
  rw [replaceAll, splitAtKey_cons hkey h, replaceAll]
  match splitAtKey key cs, splitAtKey_ne_nil key cs with
  | [part], _ => simp
  | part :: next :: parts, _ => simp

end

/-! ## The texts of pieces -/

theorem regexPiece_letter_of_mem {c : Char} (h : c ∈ regexMarks) :
    regexPiece (.letter c) = ['\\', c] :=
  if_pos (List.contains_iff_mem.mpr h)

theorem regexPiece_letter_of_not_mem {c : Char} (h : c ∉ regexMarks) :
    regexPiece (.letter c) = [c] :=
  if_neg (mt List.contains_iff_mem.mp h)

theorem regexPiece_anything : regexPiece .anything = ['.', '*'] := rfl

theorem regexPiece_below : regexPiece .below = ['(', '/', '.', '*', ')', '?'] :=
  rfl

/-! ## Escaped texts -/

theorem escape_cons_mark {c : Char} (h : c ∈ regexMarks) (cs : List Char) :
    escape (c :: cs) = '\\' :: c :: escape cs := by
  rw [escape, List.flatMap_cons, if_pos (List.contains_iff_mem.mpr h)]
  rfl

theorem escape_cons_plain {c : Char} (h : c ∉ regexMarks) (cs : List Char) :
    escape (c :: cs) = c :: escape cs := by
  rw [escape, List.flatMap_cons, if_neg (mt List.contains_iff_mem.mp h)]
  rfl

/-- In an escaped text each mark but the backslash stands behind one. -/
theorem escape_ne_mark_cons {c : Char} (h : c ∈ regexMarks) (hc : c ≠ '\\')
    (text rest : List Char) : escape text ≠ c :: rest := by
  intro heq
  cases text with
  | nil => cases heq
  | cons d cs =>
      by_cases hd : d ∈ regexMarks
      · rw [escape_cons_mark hd] at heq
        exact hc (List.cons.inj heq).1.symm
      · rw [escape_cons_plain hd] at heq
        exact hd ((List.cons.inj heq).1 ▸ h)

theorem exists_of_escape_eq_dot {text rest : List Char}
    (h : escape text = '\\' :: '.' :: rest) :
    ∃ cs, text = '.' :: cs ∧ escape cs = rest := by
  cases text with
  | nil => cases h
  | cons d cs =>
      by_cases hd : d ∈ regexMarks
      · rw [escape_cons_mark hd] at h
        injection h with _ h
        injection h with hdot hrest
        exact ⟨cs, by rw [hdot], hrest⟩
      · rw [escape_cons_plain hd] at h
        exact absurd ((List.cons.inj h).1 ▸ hd) (by decide)

/-- Three dots stand where three escaped ones do. -/
theorem exists_of_dots_prefix_escape {text : List Char}
    (h : escapedDots <+: escape text) :
    ∃ cs, text = '.' :: '.' :: '.' :: cs := by
  obtain ⟨rest, hrest⟩ := h
  obtain ⟨behindOne, rfl, hone⟩ := exists_of_escape_eq_dot hrest.symm
  obtain ⟨behindTwo, rfl, htwo⟩ := exists_of_escape_eq_dot hone
  obtain ⟨behind, rfl, -⟩ := exists_of_escape_eq_dot htwo
  exact ⟨behind, rfl⟩

/-- Wildcards are put where the pieces have them. -/
theorem replaceAll_escape (text : List Char) :
    replaceAll escapedDots ['.', '*'] (escape text)
      = (piecesOf text).flatMap regexPiece := by
  have hkey : escapedDots ≠ [] := by decide
  have hdot : '.' ∈ regexMarks := by decide
  fun_induction piecesOf text with
  | case1 => exact replaceAll_nil hkey _
  | case2 cs ih =>
      have hdots : escape ('.' :: '.' :: '.' :: cs)
          = escapedDots ++ escape cs := by
        simp only [escape_cons_mark hdot]
        rfl
      rw [hdots, replaceAll_append hkey, ih]
      rfl
  | case3 c cs hno ih =>
      have hhere : ¬escapedDots <+: escape (c :: cs) := by
        intro h
        obtain ⟨rest, hrest⟩ := exists_of_dots_prefix_escape h
        obtain ⟨rfl, rfl⟩ := List.cons.inj hrest
        exact hno rest rfl rfl
      rw [List.flatMap_cons, ← ih]
      by_cases hc : c ∈ regexMarks
      -- An escaped mark takes two steps. Behind the backslash the key can only
      -- start if the mark is a backslash too, and then a bare dot would follow.
      · have hbehind : ¬escapedDots <+: c :: escape cs := by
          rintro ⟨rest, hrest⟩
          injection hrest with _ hrest
          exact escape_ne_mark_cons hdot (by decide) cs _ hrest.symm
        rw [escape_cons_mark hc] at hhere ⊢
        rw [replaceAll_cons hkey _ hhere, replaceAll_cons hkey _ hbehind,
          regexPiece_letter_of_mem hc]
        rfl
      · rw [escape_cons_plain hc] at hhere ⊢
        rw [replaceAll_cons hkey _ hhere, regexPiece_letter_of_not_mem hc]
        rfl

/-! ## The end of an expression -/

/-- A bare star is the end of a wildcard. -/
theorem exists_of_pieces_eq_append_star {ps : List Piece} {front : List Char}
    (h : ps.flatMap regexPiece = front ++ ['.', '*']) :
    ∃ init, ps = init ++ [.anything] ∧ init.flatMap regexPiece = front := by
  have hlast := congrArg List.getLast? h
  rcases ps.eq_nil_or_concat' with rfl | ⟨init, piece, rfl⟩
  · simp at hlast
  rw [List.flatMap_append, List.flatMap_singleton] at h hlast
  cases piece with
  | letter c =>
      by_cases hc : c ∈ regexMarks
      · rw [regexPiece_letter_of_mem hc] at h
        have hsame := (List.append_inj' h rfl).2
        simp at hsame
      · rw [regexPiece_letter_of_not_mem hc] at hlast
        have hstar : c = '*' := by simpa using hlast
        exact absurd (hstar ▸ hc) (by decide)
  | anything => exact ⟨init, rfl, (List.append_inj' h rfl).1⟩
  | below => simp [regexPiece_below] at hlast

/-- A slash is a letter of its own. -/
theorem exists_of_pieces_eq_append_slash {ps : List Piece} {front : List Char}
    (h : ps.flatMap regexPiece = front ++ ['/']) :
    ∃ init, ps = init ++ [.letter '/'] := by
  have hlast := congrArg List.getLast? h
  rcases ps.eq_nil_or_concat' with rfl | ⟨init, piece, rfl⟩
  · simp at hlast
  rw [List.flatMap_append, List.flatMap_singleton] at hlast
  cases piece with
  | letter c =>
      have hslash : c = '/' := by
        by_cases hc : c ∈ regexMarks
        · simpa [regexPiece_letter_of_mem hc] using hlast
        · simpa [regexPiece_letter_of_not_mem hc] using hlast
      exact ⟨init, by rw [hslash]⟩
  | anything => simp [regexPiece_anything] at hlast
  | below => simp [regexPiece_below] at hlast

theorem optionalEnd_pieces (ps : List Piece) :
    optionalEnd (ps.flatMap regexPiece) = (openEnd ps).flatMap regexPiece := by
  by_cases h : ∃ front, ps = front ++ [.letter '/', .anything]
  · obtain ⟨front, rfl⟩ := h
    have hslash : regexPiece (.letter '/') = ['/'] :=
      regexPiece_letter_of_not_mem (by decide)
    have htext : (front ++ [Piece.letter '/', .anything]).flatMap regexPiece
        = front.flatMap regexPiece ++ ['/', '.', '*'] := by
      rw [List.flatMap_append, List.flatMap_cons, hslash]
      rfl
    rw [openEnd_append, htext, optionalEnd,
      if_pos (List.isSuffixOf_iff_suffix.mpr (List.suffix_append _ _))]
    simp [regexPiece_below]
  · have hend : ¬['/', '.', '*'] <:+ ps.flatMap regexPiece := by
      rintro ⟨front, hfront⟩
      rw [List.append_cons] at hfront
      obtain ⟨init, rfl, hinit⟩ :=
        exists_of_pieces_eq_append_star hfront.symm
      obtain ⟨front, rfl⟩ := exists_of_pieces_eq_append_slash hinit
      exact h ⟨front, by rw [List.append_assoc, List.singleton_append]⟩
    rw [openEnd_of_ne fun front heq => h ⟨front, heq⟩, optionalEnd,
      if_neg (mt List.isSuffixOf_iff_suffix.mp hend)]

/-- Changing the text of a pattern spells its pieces. -/
theorem regex_eq (pattern : Pattern) :
    pattern.regex = regexText pattern.resolved := by
  rw [regex, regexText, pieces, ← optionalEnd_pieces, replaceAll_escape]

/-! ## What an expression accepts -/

theorem accepts_nil_iff {text : List Char} : Accepts [] text ↔ text = [] := by
  constructor
  · rintro ⟨⟩
    rfl
  · rintro rfl
    exact .done

theorem accepts_letter_iff {c : Char} {expression text : List Char} :
    Accepts (regexPiece (.letter c) ++ expression) text
      ↔ AfterLetter c (Accepts expression) text := by
  by_cases hc : c ∈ regexMarks
  · rw [regexPiece_letter_of_mem hc]
    constructor
    · rintro (_ | ⟨hplain, _⟩ | ⟨_, hrest⟩)
      · exact absurd hplain (by decide)
      · exact ⟨_, rfl, hrest⟩
    · rintro ⟨rest, rfl, hrest⟩
      exact .escaped hc hrest
  · rw [regexPiece_letter_of_not_mem hc]
    constructor
    · intro h
      generalize hall : [c] ++ expression = all at h
      cases h with
      | done => cases hall
      | plain _ hrest =>
          cases hall
          exact ⟨_, rfl, hrest⟩
      | escaped _ _ => cases hall; exact absurd (by decide) hc
      | run _ _ => cases hall; exact absurd (by decide) hc
      | skipped _ _ _ => cases hall; exact absurd (by decide) hc
      | taken _ _ _ _ => cases hall; exact absurd (by decide) hc
    · rintro ⟨rest, rfl, hrest⟩
      exact .plain hc hrest

theorem accepts_anything_iff {expression text : List Char} :
    Accepts (regexPiece .anything ++ expression) text
      ↔ AfterRun (Accepts expression) text := by
  constructor
  · rintro (_ | ⟨hplain, _⟩ | _ | ⟨hrun, hrest⟩)
    · exact absurd hplain (by decide)
    · exact ⟨_, _, hrun, rfl, hrest⟩
  · rintro ⟨run, rest, hrun, rfl, hrest⟩
    exact .run hrun hrest

/-- The slash and the run that the group of an open end stands for. -/
theorem accepts_group_iff {text : List Char} :
    Accepts ['/', '.', '*'] text ↔ ∃ run, '\n' ∉ run ∧ text = '/' :: run := by
  have hgroup : ['/', '.', '*']
      = regexPiece (.letter '/') ++ (regexPiece .anything ++ []) := by
    rw [regexPiece_letter_of_not_mem (by decide)]
    rfl
  rw [hgroup, accepts_letter_iff]
  simp only [AfterLetter, accepts_anything_iff, AfterRun, accepts_nil_iff]
  constructor
  · rintro ⟨_, rfl, run, _, hrun, rfl, rfl⟩
    exact ⟨run, hrun, by rw [List.append_nil]⟩
  · rintro ⟨run, hrun, rfl⟩
    exact ⟨run, rfl, run, [], hrun, (List.append_nil run).symm, rfl⟩

/-- A group ends at the first parenthesis that closes one. -/
theorem group_inj {group group' expression expression' : List Char}
    (hgroup : ')' ∉ group) (hgroup' : ')' ∉ group')
    (h : '(' :: (group ++ ')' :: '?' :: expression)
      = '(' :: (group' ++ ')' :: '?' :: expression')) :
    group = group' ∧ expression = expression' := by
  have hne : ∀ {group : List Char}, ')' ∉ group → ∀ c ∈ group, c ≠ ')' :=
    fun hfree c hc heq => hfree (heq ▸ hc)
  obtain ⟨hsame, -, hrest⟩ := run_append_inj (p := (· ≠ ')')) (by simp)
    (by simp) (hne hgroup) (hne hgroup') (List.cons.inj h).2
  exact ⟨hsame, (List.cons.inj hrest).2⟩

theorem accepts_below_iff {expression text : List Char} :
    Accepts (regexPiece .below ++ expression) text
      ↔ Accepts expression text
        ∨ AfterLetter '/' (AfterRun (Accepts expression)) text := by
  have htext : regexPiece .below ++ expression
      = '(' :: (['/', '.', '*'] ++ ')' :: '?' :: expression) := rfl
  have hopen : '(' ∉ ['/', '.', '*'] := by decide
  have hclose : ')' ∉ ['/', '.', '*'] := by decide
  rw [htext]
  constructor
  · intro h
    generalize hall : '(' :: (['/', '.', '*'] ++ ')' :: '?' :: expression)
      = all at h
    cases h with
    | done => cases hall
    | plain hc _ =>
        obtain ⟨rfl, -⟩ := List.cons.inj hall
        exact absurd (by decide) hc
    | escaped _ _ => cases hall
    | run _ _ => cases hall
    | skipped _ hgroup hrest =>
        obtain ⟨-, rfl⟩ := group_inj hclose hgroup hall
        exact Or.inl hrest
    | taken _ hgroup hfront hrest =>
        obtain ⟨rfl, rfl⟩ := group_inj hclose hgroup hall
        obtain ⟨run, hrun, rfl⟩ := accepts_group_iff.mp hfront
        exact Or.inr ⟨_, rfl, run, _, hrun, rfl, hrest⟩
  · rintro (hrest | ⟨_, rfl, run, rest, hrun, rfl, hrest⟩)
    · exact .skipped hopen hclose hrest
    · exact .taken hopen hclose (accepts_group_iff.mpr ⟨run, hrun, rfl⟩) hrest

/-- The expression of a list of pieces accepts what the pieces match. -/
theorem accepts_pieces_iff : ∀ {ps : List Piece} {text : List Char},
    Accepts (ps.flatMap regexPiece) text ↔ Matches ps text
  | [], text => accepts_nil_iff.trans matches_nil_iff.symm
  | .letter c :: ps, text => by
      rw [List.flatMap_cons, accepts_letter_iff, matches_letter_iff]
      simp only [AfterLetter, accepts_pieces_iff]
  | .anything :: ps, text => by
      rw [List.flatMap_cons, accepts_anything_iff, matches_anything_iff]
      simp only [AfterRun, accepts_pieces_iff]
  | .below :: ps, text => by
      rw [List.flatMap_cons, accepts_below_iff, matches_below_iff]
      simp only [AfterLetter, AfterRun, accepts_pieces_iff]

theorem expressionMatches_regex_iff {pattern : Pattern} {text : List Char} :
    ExpressionMatches pattern.regex text ↔ Matches pattern.pieces text := by
  rw [← accepts_pieces_iff, ExpressionMatches, regex, String.toList_ofList]
  constructor
  · rintro ⟨expression, hall, haccepts⟩
    have hsame := (List.cons.inj hall).2
    rwa [List.append_cancel_right hsame]
  · intro haccepts
    exact ⟨_, rfl, haccepts⟩

/-! ## Selected paths -/

/-- A pattern that is not relative has the regular expression that its text is
changed into, and both the pattern and the expression select exactly the paths
that fit the text. -/
theorem selects_iff_fits {modulePath pattern : String}
    (h : resolve modulePath pattern = pattern) (path : String) :
    (ofText modulePath pattern).regex = regexText pattern
      ∧ (ExpressionMatches (regexText pattern) path.toList
        ↔ Fits (literals pattern) path.toList)
      ∧ ((ofText modulePath pattern).selects path = true
        ↔ Fits (literals pattern) path.toList) := by
  have hresolved : (ofText modulePath pattern).resolved = pattern := h
  have hregex := regex_eq (ofText modulePath pattern)
  have hpieces : Matches (ofText modulePath pattern).pieces path.toList
      ↔ Fits (literals pattern) path.toList := by
    rw [matches_pieces_iff, hresolved]
  rw [hresolved] at hregex
  refine ⟨hregex, ?_, selects_iff_matches.trans hpieces⟩
  rw [← hregex]
  exact expressionMatches_regex_iff.trans hpieces

theorem selects_iff_fits_marks :
    resolve "x/m" "a+b\\....(*/..." = "a+b\\....(*/..."
      ∧ (ofText "x/m" "a+b\\....(*/...").selects "a+b\\x/y.(*" = true
      ∧ Fits (literals "a+b\\....(*/...") "a+b\\x/y.(*".toList := by
  have hresolve : resolve "x/m" "a+b\\....(*/..." = "a+b\\....(*/..." := by
    decide +kernel
  have hselects :
      (ofText "x/m" "a+b\\....(*/...").selects "a+b\\x/y.(*" = true := by
    decide +kernel
  obtain ⟨-, -, hfits⟩ := selects_iff_fits hresolve "a+b\\x/y.(*"
  exact ⟨hresolve, hselects, hfits.mp hselects⟩

end ImportChart.Pattern
