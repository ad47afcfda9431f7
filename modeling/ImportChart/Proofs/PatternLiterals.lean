import ImportChart.Proofs.LeftmostCut
import ImportChart.Proofs.PatternMatching
import Mathlib.Data.List.Basic

/-!
# Patterns as literals and runs

What a pattern means, said of its text: the text is split at each `...`, from
left to right, and a path fits if it is the literals in between with a run on
one line for each split (`Weaves`). A pattern that ends in `/...` is also fitted
by what fits it without that ending (`Fits`). The pieces of a pattern spell out
its literals (`piecesOf_eq`), so they match the paths that fit
(`matches_pieces_iff`).
-/

namespace ImportChart

namespace Pattern

open Text

/-! ## Paths that fit -/

/-- The text is the literals in order, with a run on one line between each two
of them. -/
inductive Weaves : List (List Char) → List Char → Prop
  | last (literal : List Char) : Weaves [literal] literal
  | run {literal run rest : List Char} {literals : List (List Char)} :
      '\n' ∉ run → Weaves literals rest →
      Weaves (literal :: literals) (literal ++ run ++ rest)

/-- The parts of a pattern's text between its wildcards. -/
def literals (text : String) : List (List Char) :=
  splitAtKey "...".toList text.toList

/-- The text is woven from the literals; or from the literals without the last
one and without the slash in front of it, if that is all that stands there. -/
def Fits (literals : List (List Char)) (text : List Char) : Prop :=
  Weaves literals text
    ∨ ∃ front literal, literals = front ++ [literal ++ ['/'], []]
      ∧ Weaves (front ++ [literal]) text

/-! ## Pieces in a row -/

theorem matches_append_iff {qs : List Piece} :
    ∀ {ps : List Piece} {text : List Char}, Matches (ps ++ qs) text
      ↔ ∃ front rest, text = front ++ rest ∧ Matches ps front ∧ Matches qs rest
  | [], text => by
      rw [List.nil_append]
      constructor
      · exact fun h => ⟨[], text, rfl, .done, h⟩
      · rintro ⟨front, rest, rfl, hfront, hrest⟩
        rwa [matches_nil_iff.mp hfront]
  | p :: ps, text => by
      rw [List.cons_append]
      constructor
      · rintro (_ | h | ⟨hrun, h⟩ | h | ⟨hrun, h⟩)
        all_goals
          obtain ⟨front, rest, rfl, hfront, hrest⟩ := matches_append_iff.mp h
        · exact ⟨_, rest, rfl, .letter hfront, hrest⟩
        · exact ⟨_, rest, (List.append_assoc _ _ _).symm, .anything hrun hfront,
            hrest⟩
        · exact ⟨front, rest, rfl, .absent hfront, hrest⟩
        · refine ⟨_, rest, ?_, .slash hrun hfront, hrest⟩
          rw [List.cons_append, List.append_assoc]
      · rintro ⟨front, rest, rfl, hfront, hrest⟩
        cases hfront with
        | letter h =>
            exact .letter (matches_append_iff.mpr ⟨_, rest, rfl, h, hrest⟩)
        | anything hrun h =>
            rw [List.append_assoc]
            exact .anything hrun
              (matches_append_iff.mpr ⟨_, rest, rfl, h, hrest⟩)
        | absent h =>
            exact .absent (matches_append_iff.mpr ⟨_, rest, rfl, h, hrest⟩)
        | slash hrun h =>
            rw [List.cons_append, List.append_assoc]
            exact .slash hrun
              (matches_append_iff.mpr ⟨_, rest, rfl, h, hrest⟩)

theorem matches_letters_iff : ∀ {literal text : List Char},
    Matches (literal.map .letter) text ↔ text = literal
  | [], text => matches_nil_iff
  | c :: literal, text => by
      rw [List.map_cons, matches_letter_iff, AfterLetter]
      simp only [matches_letters_iff, exists_eq_right]

/-! ## The pieces of a text -/

/-- The pieces of literals with a wildcard between each two of them. -/
def spell : List (List Char) → List Piece
  | [] => []
  | [literal] => literal.map .letter
  | literal :: literals => literal.map .letter ++ .anything :: spell literals

theorem spell_cons {literal : List Char} {literals : List (List Char)}
    (h : literals ≠ []) :
    spell (literal :: literals)
      = literal.map .letter ++ .anything :: spell literals := by
  rw [spell]
  exact h

theorem spell_modifyHead (c : Char) {literals : List (List Char)}
    (h : literals ≠ []) :
    spell (literals.modifyHead (c :: ·)) = .letter c :: spell literals := by
  match literals, h with
  | [literal], _ => rfl
  | literal :: next :: literals, _ => rfl

theorem piecesOf_eq (cs : List Char) :
    piecesOf cs = spell (splitAtKey ['.', '.', '.'] cs) := by
  have hdots : ['.', '.', '.'] ≠ [] := List.cons_ne_nil _ _
  fun_induction piecesOf cs with
  | case1 => rw [splitAtKey_nil hdots]; rfl
  | case2 cs ih =>
      have hsplit := splitAtKey_append hdots cs
      rw [List.cons_append, List.cons_append, List.cons_append,
        List.nil_append] at hsplit
      rw [hsplit, spell_cons (splitAtKey_ne_nil _ _), ih]
      rfl
  | case3 c cs hno ih =>
      have hhead : ¬['.', '.', '.'] <+: c :: cs := by
        rintro ⟨rest, hrest⟩
        obtain ⟨rfl, rfl⟩ := List.cons.inj hrest
        exact hno rest rfl rfl
      rw [splitAtKey_cons hdots hhead,
        spell_modifyHead c (splitAtKey_ne_nil _ _), ih]

theorem matches_spell_iff : ∀ {literals : List (List Char)} {text : List Char},
    literals ≠ [] → (Matches (spell literals) text ↔ Weaves literals text)
  | [literal], text, _ => by
      rw [spell, matches_letters_iff]
      constructor
      · rintro rfl
        exact .last _
      · rintro (_ | ⟨_, ⟨⟩⟩)
        rfl
  | literal :: next :: literals, text, _ => by
      have hne := List.cons_ne_nil next literals
      rw [spell_cons hne, matches_append_iff]
      simp only [matches_letters_iff, matches_anything_iff, AfterRun,
        matches_spell_iff hne]
      constructor
      · rintro ⟨_, _, rfl, rfl, run, rest, hrun, rfl, hrest⟩
        rw [← List.append_assoc]
        exact .run hrun hrest
      · rintro (_ | ⟨hrun, hrest⟩)
        exact ⟨_, _, List.append_assoc _ _ _, rfl, _, _, hrun, rfl, hrest⟩

/-! ## The open end -/

theorem openEnd_cons {p : Piece} {ps : List Piece} (h : ps ≠ [.anything]) :
    openEnd (p :: ps) = p :: openEnd ps := by
  rw [openEnd]
  exact fun _ => h

theorem openEnd_append : ∀ front : List Piece,
    openEnd (front ++ [.letter '/', .anything]) = front ++ [.below]
  | [] => rfl
  | p :: front => by
      have hlong : front ++ [.letter '/', .anything] ≠ [.anything] := by
        intro heq
        simpa using congrArg List.length heq
      rw [List.cons_append, openEnd_cons hlong, openEnd_append front,
        List.cons_append]

theorem openEnd_of_ne {ps : List Piece}
    (h : ∀ front, ps ≠ front ++ [.letter '/', .anything]) : openEnd ps = ps := by
  fun_induction openEnd ps with
  | case1 => rfl
  | case2 => exact absurd rfl (h [])
  | case3 p ps hne ih =>
      rw [ih fun front heq => h (p :: front) (by rw [heq, List.cons_append])]

theorem matches_below_append_iff {front : List Piece} {text : List Char} :
    Matches (front ++ [.below]) text
      ↔ Matches front text
        ∨ Matches (front ++ [.letter '/', .anything]) text := by
  have hbelow : ∀ rest, Matches [.below] rest
      ↔ rest = [] ∨ Matches [.letter '/', .anything] rest := by
    intro rest
    rw [matches_below_iff, matches_nil_iff, matches_letter_iff]
    simp only [AfterLetter, matches_anything_iff]
  simp only [matches_append_iff, hbelow]
  constructor
  · rintro ⟨start, rest, rfl, hstart, rfl | hrest⟩
    · rw [List.append_nil]
      exact Or.inl hstart
    · exact Or.inr ⟨start, rest, rfl, hstart, hrest⟩
  · rintro (hfront | ⟨start, rest, rfl, hstart, hrest⟩)
    · exact ⟨text, [], (List.append_nil text).symm, hfront, Or.inl rfl⟩
    · exact ⟨start, rest, rfl, hstart, Or.inr hrest⟩

theorem matches_openEnd_iff {ps : List Piece} {text : List Char} :
    Matches (openEnd ps) text
      ↔ Matches ps text
        ∨ ∃ front, ps = front ++ [.letter '/', .anything]
          ∧ Matches front text := by
  by_cases h : ∃ front, ps = front ++ [.letter '/', .anything]
  · obtain ⟨front, rfl⟩ := h
    rw [openEnd_append, matches_below_append_iff, or_comm]
    refine or_congr_right ⟨fun hfront => ⟨front, rfl, hfront⟩, ?_⟩
    rintro ⟨front', heq, hfront⟩
    rwa [List.append_cancel_right heq]
  · rw [openEnd_of_ne fun front heq => h ⟨front, heq⟩]
    exact ⟨Or.inl, fun hmatches =>
      hmatches.resolve_right fun ⟨front, heq, _⟩ => h ⟨front, heq⟩⟩

/-- The pieces of literals that are all followed by a wildcard. -/
def spellOpen (literals : List (List Char)) : List Piece :=
  literals.flatMap fun literal => literal.map .letter ++ [.anything]

theorem spell_append_singleton (last : List Char) :
    ∀ init : List (List Char),
      spell (init ++ [last]) = spellOpen init ++ last.map .letter
  | [] => rfl
  | literal :: init => by
      rw [List.cons_append, spell_cons (by simp),
        spell_append_singleton last init]
      simp [spellOpen]

theorem spellOpen_append_singleton (last : List Char)
    (init : List (List Char)) :
    spellOpen (init ++ [last]) = spell (init ++ [last]) ++ [.anything] := by
  rw [spell_append_singleton]
  simp [spellOpen]

/-- Pieces that end in a wildcard have an empty last literal. -/
theorem exists_of_spell_eq_append_anything {literals : List (List Char)}
    {front : List Piece} (h : spell literals = front ++ [.anything]) :
    ∃ init literal, literals = init ++ [literal, []]
      ∧ front = spell (init ++ [literal]) := by
  have hend := congrArg List.getLast? h
  rcases literals.eq_nil_or_concat' with rfl | ⟨init, last, rfl⟩
  · simp [spell] at hend
  rcases last.eq_nil_or_concat' with rfl | ⟨last, c, rfl⟩
  · rcases init.eq_nil_or_concat' with rfl | ⟨init, literal, rfl⟩
    · simp [spell] at hend
    · rw [spell_append_singleton, spellOpen_append_singleton, List.map_nil,
        List.append_nil] at h
      refine ⟨init, literal, ?_, (List.append_cancel_right h).symm⟩
      rw [List.append_assoc, List.singleton_append]
  · simp [spell_append_singleton] at hend

/-- The last of the pieces is the last character of the last literal. -/
theorem exists_of_spell_eq_append_letter {init : List (List Char)}
    {literal : List Char} {front : List Piece} {c : Char}
    (h : spell (init ++ [literal]) = front ++ [.letter c]) :
    ∃ start, literal = start ++ [c] ∧ front = spell (init ++ [start]) := by
  have hend := congrArg List.getLast? h
  rw [spell_append_singleton] at h hend
  rcases literal.eq_nil_or_concat' with rfl | ⟨start, d, rfl⟩
  · rw [List.map_nil, List.append_nil] at hend
    rcases init.eq_nil_or_concat' with rfl | ⟨init, literal, rfl⟩
    · simp [spellOpen] at hend
    · simp [spellOpen_append_singleton] at hend
  · have hd : d = c := by simpa using hend
    subst hd
    rw [List.map_append, ← List.append_assoc, List.map_singleton] at h
    refine ⟨start, rfl, ?_⟩
    rw [spell_append_singleton, List.append_cancel_right h]

/-- The pieces end in a slash and a wildcard exactly when the last literal is
empty and a slash ends the one in front of it. -/
theorem spell_eq_append_iff {literals : List (List Char)}
    {front : List Piece} :
    spell literals = front ++ [.letter '/', .anything]
      ↔ ∃ init literal, literals = init ++ [literal ++ ['/'], []]
        ∧ front = spell (init ++ [literal]) := by
  rw [List.append_cons]
  constructor
  · intro h
    obtain ⟨init, _, rfl, hfront⟩ := exists_of_spell_eq_append_anything h
    obtain ⟨literal, rfl, rfl⟩ :=
      exists_of_spell_eq_append_letter hfront.symm
    exact ⟨init, literal, rfl, rfl⟩
  · rintro ⟨init, literal, rfl, rfl⟩
    rw [List.append_cons, spell_append_singleton, spell_append_singleton]
    simp [spellOpen]

theorem matches_pieces_iff {pattern : Pattern} {text : List Char} :
    Matches pattern.pieces text ↔ Fits (literals pattern.resolved) text := by
  have hne := splitAtKey_ne_nil "...".toList pattern.resolved.toList
  rw [pieces, matches_openEnd_iff, piecesOf_eq]
  refine or_congr (matches_spell_iff hne) ?_
  simp only [spell_eq_append_iff]
  constructor
  · rintro ⟨_, ⟨front, literal, hall, rfl⟩, htext⟩
    exact ⟨front, literal, hall, (matches_spell_iff (by simp)).mp htext⟩
  · rintro ⟨front, literal, hall, htext⟩
    exact ⟨_, ⟨front, literal, hall, rfl⟩,
      (matches_spell_iff (by simp)).mpr htext⟩

end Pattern

end ImportChart
