import ImportChart.Proofs.CommentSegments

/-!
# Texts made of segments

A source text is a sequence of plain characters, comments and literals. Where it
is given as one, the text without comments is what each of its segments leaves
(`uncomment_textOf`): a segment is read as a whole if it fits before what
follows it (`FitsBefore`), and so the sequence is read from its head on.

Every text, made of closed segments or not, is rid of its comments at once:
reading again changes nothing (`uncomment_uncomment`). The second reader walks
through what the first one leaves and stands in plain source or within the same
literal as the first, who may be within a comment besides (`Within.shown`). No
comment is made when something is left out: behind a slash that is kept stands
the character that stood there.
-/

namespace ImportChart.Source

/-! ## Segments -/

/-- A stretch of source text that is read as a whole. -/
inductive Segment
  | plain (c : Char)
  | lineComment (text : List Char)
  | blockComment (text : List Char)
  | quoted (quote : Char) (text : List Char)
  | raw (text : List Char)

namespace Segment

def text : Segment → List Char
  | plain c => [c]
  | lineComment text => '/' :: '/' :: text
  | blockComment text => '/' :: '*' :: text ++ blockEnd
  | quoted quote text => quote :: text ++ [quote]
  | raw text => backquote :: text ++ [backquote]

/-- What is left of a segment: nothing of a line comment, a blank of a block comment,
which is a line feed if the comment holds one, and all of the others. -/
def kept : Segment → List Char
  | lineComment _ => []
  | blockComment text => [if '\n' ∈ text then '\n' else ' ']
  | segment => segment.text

/-- The segment is complete, and with `rest` behind it its end is where it seems
to be. -/
def FitsBefore (rest : List Char) : Segment → Prop
  | plain c => (c ≠ '"' ∧ c ≠ '\'' ∧ c ≠ backquote)
      ∧ (c = '/' → rest.head? ≠ some '/' ∧ rest.head? ≠ some '*')
  | lineComment text => '\n' ∉ text ∧ (rest = [] ∨ rest.head? = some '\n')
  | blockComment text => ¬blockEnd <:+: text
  | quoted quote text => (quote = '"' ∨ quote = '\'') ∧ QuotedText quote text
  | raw text => backquote ∉ text

theorem uncomment_text_append {segment : Segment} {rest : List Char}
    (h : segment.FitsBefore rest) :
    uncomment (segment.text ++ rest) = segment.kept ++ uncomment rest := by
  cases segment with
  | plain c => exact uncomment_cons_of_head? h.1 h.2
  | lineComment text =>
      obtain ⟨hfeed, rfl | hrest⟩ := h
      · rw [List.append_nil]
        exact uncomment_lastComment hfeed
      · obtain ⟨below, rfl⟩ := List.head?_eq_some_iff.mp hrest
        rw [uncomment_cons (by decide : IsPlain '\n')]
        exact uncomment_lineComment text below hfeed
  | blockComment text =>
      have hleaves := leaves_blockComment h rest
      simp only [blockGap, decide_eq_true_eq] at hleaves
      exact hleaves
  | quoted quote text => exact leaves_literal h.1 h.2 rest
  | raw text => exact leaves_raw h rest

end Segment

def textOf (segments : List Segment) : List Char := segments.flatMap Segment.text

/-- Each segment fits before the text of those behind it. -/
inductive IsSequence : List Segment → Prop
  | nil : IsSequence []
  | cons {segment : Segment} {segments : List Segment} :
      segment.FitsBefore (textOf segments) → IsSequence segments →
      IsSequence (segment :: segments)

theorem uncomment_textOf {segments : List Segment} (h : IsSequence segments) :
    uncomment (textOf segments) = segments.flatMap Segment.kept := by
  induction h with
  | nil => rfl
  | @cons segment segments hfits _ ih =>
      calc uncomment (textOf (segment :: segments))
          = segment.kept ++ uncomment (textOf segments) :=
            Segment.uncomment_text_append hfits
        _ = segment.kept ++ segments.flatMap Segment.kept := by rw [ih]

/-! ## Reading again -/

/-- Where a reader of the text without comments stands when the reader of the
text is within `place`. -/
def Within.shown : Within → Within
  | .code | .lineComment | .blockComment _ _ => .code
  | .quoted quote => .quoted quote
  | .escaped quote => .escaped quote
  | .raw => .raw

theorem isPlain_blockGap (feed : Bool) : IsPlain (blockGap feed) := by
  cases feed <;> decide

theorem Within.shown_after (c : Char) : (Within.after c).shown = Within.after c := by
  rw [Within.after]
  split
  · rfl
  · split <;> rfl

theorem head?_uncomment : ∀ {cs : List Char}, cs.head? ≠ some '/' →
    (uncomment cs).head? = cs.head?
  | [], _ => rfl
  | c :: cs, h => by
      have hc : c ≠ '/' := fun hslash => h (congrArg some hslash)
      rw [uncomment, uncommentFrom_code_cons fun hslash => absurd hslash hc]
      rfl

/-- The first reader leaves no comment, wherever it stands. -/
theorem uncommentFrom_uncommentFrom (place : Within) (cs : List Char) :
    uncommentFrom place.shown (uncommentFrom place cs) = uncommentFrom place cs := by
  fun_induction uncommentFrom place cs with
  | case1 => rfl
  | case2 _ ih => exact ih
  | case3 _ ih => exact ih
  | case4 c cs hline hblock ih =>
      -- Behind a slash that is kept the same character stands as before.
      rw [Within.shown_after] at ih
      have hslash : c = '/' → (uncommentFrom (.after c) cs).head? ≠ some '/'
          ∧ (uncommentFrom (.after c) cs).head? ≠ some '*' := by
        rintro rfl
        have hnext : cs.head? ≠ some '/' := fun hhead => by
          obtain ⟨ds, rfl⟩ := List.head?_eq_some_iff.mp hhead
          exact hline ds rfl rfl
        have hstar : cs.head? ≠ some '*' := fun hhead => by
          obtain ⟨ds, rfl⟩ := List.head?_eq_some_iff.mp hhead
          exact hblock ds rfl rfl
        have hhead : (uncommentFrom (.after '/') cs).head? = cs.head? :=
          head?_uncomment hnext
        rw [hhead]
        exact ⟨hnext, hstar⟩
      rw [Within.shown, uncommentFrom_code_cons hslash, ih]
  | case5 => rfl
  | case6 _ ih =>
      have hplain : IsPlain '\n' := by decide
      exact (uncomment_cons hplain _).trans (congrArg _ ih)
  | case7 _ _ _ ih => exact ih
  | case8 _ feed => exact uncomment_cons (isPlain_blockGap feed) []
  | case9 _ feed _ _ _ ih =>
      exact (uncomment_cons (isPlain_blockGap feed) _).trans (congrArg _ ih)
  | case10 _ _ _ _ _ ih => exact ih
  | case11 => rfl
  | case12 _ _ ih =>
      simp only [Within.shown] at ih ⊢
      rw [uncommentFrom, if_pos rfl, ih]
  | case13 _ _ _ hc hend ih =>
      simp only [Within.shown] at ih ⊢
      rw [uncommentFrom, if_neg hc, if_pos hend, ih]
  | case14 _ _ _ hc hend ih =>
      simp only [Within.shown] at ih ⊢
      rw [uncommentFrom, if_neg hc, if_neg hend, ih]
  | case15 => rfl
  | case16 _ _ _ ih =>
      simp only [Within.shown] at ih ⊢
      rw [uncommentFrom, ih]
  | case17 => rfl
  | case18 _ ih =>
      simp only [Within.shown] at ih ⊢
      rw [uncommentFrom, if_pos rfl, ih]
  | case19 _ _ hc ih =>
      simp only [Within.shown] at ih ⊢
      rw [uncommentFrom, if_neg hc, ih]

theorem uncomment_uncomment (cs : List Char) :
    uncomment (uncomment cs) = uncomment cs :=
  uncommentFrom_uncommentFrom .code cs

/-- A text made of segments is read segment by segment, and no text, whatever stays
open in it, changes when it is read again. -/
theorem uncomment_segmentwise :
    (∀ segments : List Segment, IsSequence segments →
        uncomment (textOf segments) = segments.flatMap Segment.kept)
      ∧ ∀ cs : List Char, uncomment (uncomment cs) = uncomment cs :=
  ⟨fun _ => uncomment_textOf, uncomment_uncomment⟩

/-- Comments that look closed or still open, and marks of one kind of segment within
another. -/
def crowdedSegments : List Segment :=
  [.plain 'x', .plain '/', .plain ' ', .blockComment "/".toList,
    .quoted '\'' "\\'".toList, .quoted '"' "// \\\" /*".toList,
    .raw "\n'//".toList, .blockComment "*\n*".toList, .lineComment " \" /*".toList,
    .plain '\n', .lineComment []]

theorem uncomment_segmentwise_crowdedSegments :
    IsSequence crowdedSegments
      ∧ uncomment (textOf crowdedSegments)
        = "x/  '\\''\"// \\\" /*\"\x60\n'//\x60\n\n".toList := by
  have hplain : ∀ {c : Char} {rest : List Char}, c ≠ '"' ∧ c ≠ '\'' ∧ c ≠ backquote →
      c ≠ '/' → (Segment.plain c).FitsBefore rest :=
    fun hquotes hslash => ⟨hquotes, fun heq => absurd heq hslash⟩
  have hescaped : QuotedText '\'' "\\'".toList := .escape (by decide) .nil
  have hstring : QuotedText '"' "// \\\" /*".toList :=
    .char (by decide) (by decide) (by decide) <| .char (by decide) (by decide) (by decide) <|
    .char (by decide) (by decide) (by decide) <| .escape (by decide) <|
    quotedText_of_not_mem (by decide) (by decide) (by decide)
  have hsequence : IsSequence crowdedSegments :=
    .cons (hplain (by decide) (by decide)) <| .cons ⟨by decide, by decide⟩ <|
    .cons (hplain (by decide) (by decide)) <|
    .cons (by decide : ¬blockEnd <:+: "/".toList) <|
    .cons ⟨Or.inr rfl, hescaped⟩ <| .cons ⟨Or.inl rfl, hstring⟩ <|
    .cons (by decide : backquote ∉ "\n'//".toList) <|
    .cons (by decide : ¬blockEnd <:+: "*\n*".toList) <|
    .cons ⟨by decide, Or.inr rfl⟩ <| .cons (hplain (by decide) (by decide)) <|
    .cons ⟨by decide, Or.inl rfl⟩ .nil
  exact ⟨hsequence, (uncomment_segmentwise.1 _ hsequence).trans (by decide)⟩

end ImportChart.Source
