import ImportChart.Pattern

/-!
# What the pieces of a pattern match

`Matches` says as a derivation which texts a list of pieces matches: the text
is used up from its start, each piece taking what it stands for. The matcher
goes through the pieces the other way and never tries a run. What it keeps is a
row of marks, one for each place of the text (`Marks`), and each of its
operations on rows is an operation on what the marks say: one more character in
front (`Marks.overLetter`), a run in front (`Marks.overRun`), either of two
(`Marks.or`). So the row of a list of pieces marks the places from which they
match (`marks_matchesFrom`), and a path is selected if its first place is
marked (`selects_iff_matches`).
-/

namespace ImportChart.Pattern

/-- The pieces match the text. No run crosses a line feed. -/
inductive Matches : List Piece → List Char → Prop
  | done : Matches [] []
  | letter {c : Char} {pieces : List Piece} {text : List Char} :
      Matches pieces text → Matches (.letter c :: pieces) (c :: text)
  | anything {pieces : List Piece} {run text : List Char} : '\n' ∉ run →
      Matches pieces text → Matches (.anything :: pieces) (run ++ text)
  | absent {pieces : List Piece} {text : List Char} :
      Matches pieces text → Matches (.below :: pieces) text
  | slash {pieces : List Piece} {run text : List Char} : '\n' ∉ run →
      Matches pieces text → Matches (.below :: pieces) ('/' :: (run ++ text))

/-! ## One piece -/

/-- The text is the character and something that has the property. -/
def AfterLetter (c : Char) (p : List Char → Prop) (text : List Char) : Prop :=
  ∃ rest, text = c :: rest ∧ p rest

/-- The text is a run on one line and something that has the property. -/
def AfterRun (p : List Char → Prop) (text : List Char) : Prop :=
  ∃ run rest, '\n' ∉ run ∧ text = run ++ rest ∧ p rest

theorem afterRun_cons {p : List Char → Prop} {c : Char} {text : List Char} :
    AfterRun p (c :: text) ↔ p (c :: text) ∨ c ≠ '\n' ∧ AfterRun p text := by
  constructor
  · rintro ⟨_ | ⟨d, run⟩, rest, hrun, htext, hrest⟩
    · rw [List.nil_append] at htext
      exact Or.inl (htext ▸ hrest)
    · rw [List.cons_append] at htext
      obtain ⟨rfl, rfl⟩ := List.cons.inj htext
      rw [List.mem_cons, not_or] at hrun
      exact Or.inr ⟨Ne.symm hrun.1, run, rest, hrun.2, rfl, hrest⟩
  · rintro (hhere | ⟨hc, run, rest, hrun, rfl, hrest⟩)
    · exact ⟨[], c :: text, List.not_mem_nil, rfl, hhere⟩
    · refine ⟨c :: run, rest, ?_, rfl, hrest⟩
      rw [List.mem_cons, not_or]
      exact ⟨hc.symm, hrun⟩

theorem matches_nil_iff {text : List Char} : Matches [] text ↔ text = [] := by
  constructor
  · rintro ⟨⟩
    rfl
  · rintro rfl
    exact .done

theorem matches_letter_iff {c : Char} {pieces : List Piece}
    {text : List Char} :
    Matches (.letter c :: pieces) text
      ↔ AfterLetter c (Matches pieces) text := by
  constructor
  · rintro (_ | hrest)
    exact ⟨_, rfl, hrest⟩
  · rintro ⟨rest, rfl, hrest⟩
    exact .letter hrest

theorem matches_anything_iff {pieces : List Piece} {text : List Char} :
    Matches (.anything :: pieces) text ↔ AfterRun (Matches pieces) text := by
  constructor
  · rintro (_ | _ | ⟨hrun, hrest⟩)
    exact ⟨_, _, hrun, rfl, hrest⟩
  · rintro ⟨run, rest, hrun, rfl, hrest⟩
    exact .anything hrun hrest

theorem matches_below_iff {pieces : List Piece} {text : List Char} :
    Matches (.below :: pieces) text
      ↔ Matches pieces text
        ∨ AfterLetter '/' (AfterRun (Matches pieces)) text := by
  constructor
  · rintro (_ | _ | _ | hrest | ⟨hrun, hrest⟩)
    · exact Or.inl hrest
    · exact Or.inr ⟨_, rfl, _, _, hrun, rfl, hrest⟩
  · rintro (hrest | ⟨_, rfl, run, rest, hrun, rfl, hrest⟩)
    · exact .absent hrest
    · exact .slash hrun hrest

/-! ## Rows of marks -/

/-- For each place of a text, whether what stands from there on has a
property. -/
inductive Marks (p : List Char → Prop) : List Char → List Bool → Prop
  | nil {here : Bool} : (here = true ↔ p []) → Marks p [] [here]
  | cons {c : Char} {text : List Char} {here : Bool} {row : List Bool} :
      (here = true ↔ p (c :: text)) → Marks p text row →
      Marks p (c :: text) (here :: row)

variable {p q : List Char → Prop} {text : List Char} {row row' : List Bool}

theorem Marks.headD_iff (h : Marks p text row) :
    row.headD false = true ↔ p text := by
  cases h with
  | nil hhere => exact hhere
  | cons hhere _ => exact hhere

theorem Marks.congr (h : Marks p text row) (hpq : ∀ text, q text ↔ p text) :
    Marks q text row := by
  induction h with
  | nil hhere => exact .nil (hhere.trans (hpq []).symm)
  | cons hhere _ ih => exact .cons (hhere.trans (hpq _).symm) ih

theorem marks_ends : ∀ text : List Char, Marks (· = []) text (ends text)
  | [] => .nil (by simp)
  | _ :: text => .cons (by simp) (marks_ends text)

theorem Marks.overLetter (c : Char) (h : Marks p text row) :
    Marks (AfterLetter c p) text (overLetter c text row) := by
  induction h with
  | nil _ => exact .nil (by simp [AfterLetter])
  | @cons d text here row _ hrow ih =>
      refine .cons ?_ ih
      rw [Bool.and_eq_true, beq_iff_eq, hrow.headD_iff]
      constructor
      · rintro ⟨rfl, hrest⟩
        exact ⟨text, rfl, hrest⟩
      · rintro ⟨rest, heq, hrest⟩
        obtain ⟨rfl, rfl⟩ := List.cons.inj heq
        exact ⟨rfl, hrest⟩

theorem Marks.overRun (h : Marks p text row) :
    Marks (AfterRun p) text (overRun text row) := by
  induction h with
  | nil hhere =>
      refine .nil (hhere.trans ⟨fun hp => ⟨[], [], by simp, rfl, hp⟩, ?_⟩)
      rintro ⟨run, rest, -, heq, hp⟩
      obtain ⟨-, rfl⟩ := List.append_eq_nil_iff.mp heq.symm
      exact hp
  | @cons c text here row hhere _ ih =>
      refine .cons ?_ ih
      rw [afterRun_cons, Bool.or_eq_true, Bool.and_eq_true, bne_iff_ne, hhere,
        ih.headD_iff]

theorem Marks.or (h : Marks p text row) (h' : Marks q text row') :
    Marks (fun text => p text ∨ q text) text
      (List.zipWith (· || ·) row row') := by
  induction h generalizing row' with
  | nil hhere =>
      cases h' with
      | nil hhere' => exact .nil (by rw [Bool.or_eq_true, hhere, hhere'])
  | cons hhere _ ih =>
      cases h' with
      | cons hhere' hrow' =>
          exact .cons (by rw [Bool.or_eq_true, hhere, hhere']) (ih hrow')

/-! ## The matcher -/

/-- The row of the pieces marks the places from which they match. -/
theorem marks_matchesFrom (text : List Char) : ∀ pieces : List Piece,
    Marks (Matches pieces) text (matchesFrom text pieces)
  | [] => (marks_ends text).congr fun _ => matches_nil_iff
  | .letter c :: pieces =>
      ((marks_matchesFrom text pieces).overLetter c).congr fun _ =>
        matches_letter_iff
  | .anything :: pieces =>
      (marks_matchesFrom text pieces).overRun.congr fun _ =>
        matches_anything_iff
  | .below :: pieces =>
      have hrow := marks_matchesFrom text pieces
      (hrow.or (hrow.overRun.overLetter '/')).congr fun _ =>
        matches_below_iff

theorem selects_iff_matches {pattern : Pattern} {path : String} :
    pattern.selects path = true ↔ Matches pattern.pieces path.toList :=
  (marks_matchesFrom path.toList pattern.pieces).headD_iff

end ImportChart.Pattern
