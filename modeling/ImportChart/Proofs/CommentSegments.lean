import ImportChart.Proofs.LeftmostCut
import ImportChart.Source.Comment

/-!
# Comments, segment by segment

Reading a text without its comments goes segment by segment. `Leaves raw plain`
says that a segment leaves `plain` behind whatever follows it, and that the
reader is in plain source again after it; so segments compose
(`Leaves.append`). The segments are plain characters, comments and literals.

The other way round, a text starts with a comment, which ends or runs to the
end of the text, or with a character that is kept (`head_cases`,
`lineComment_cases`, `blockComment_cases`). No comment leaves a letter behind,
so a word at the head of the comment-free text is a word at the head of the
text (`exists_of_uncomment_eq_append`).
-/

namespace ImportChart.Source

/-! ## Segments -/

/-- The segment is read as `plain`, whatever follows it. -/
def Leaves (raw plain : List Char) : Prop :=
  ∀ rest, uncomment (raw ++ rest) = plain ++ uncomment rest

theorem leaves_nil : Leaves [] [] := fun _ => rfl

theorem Leaves.append {raw raw' plain plain' : List Char} (h : Leaves raw plain)
    (h' : Leaves raw' plain') : Leaves (raw ++ raw') (plain ++ plain') := by
  intro rest
  rw [List.append_assoc, h, h', List.append_assoc]

/-- A character that opens neither a comment nor a literal. -/
def IsPlain (c : Char) : Prop := c ≠ '/' ∧ c ≠ '"' ∧ c ≠ '\'' ∧ c ≠ backquote

instance (c : Char) : Decidable (IsPlain c) := by
  unfold IsPlain
  infer_instance

/-- Plain source is kept but for a slash that opens a comment with the next
character. -/
theorem uncommentFrom_code_cons {c : Char} {cs : List Char}
    (hslash : c = '/' → cs.head? ≠ some '/' ∧ cs.head? ≠ some '*') :
    uncommentFrom .code (c :: cs) = c :: uncommentFrom (.after c) cs := by
  rw [uncommentFrom]
  · rintro ds rfl rfl
    exact (hslash rfl).1 rfl
  · rintro ds rfl rfl
    exact (hslash rfl).2 rfl

theorem uncomment_cons_of_head? {c : Char} {cs : List Char}
    (hquotes : c ≠ '"' ∧ c ≠ '\'' ∧ c ≠ backquote)
    (hslash : c = '/' → cs.head? ≠ some '/' ∧ cs.head? ≠ some '*') :
    uncomment (c :: cs) = c :: uncomment cs := by
  obtain ⟨hdouble, hsingle, hback⟩ := hquotes
  have hafter : Within.after c = .code := by
    simp [Within.after, hdouble, hsingle, hback]
  rw [uncomment, uncommentFrom_code_cons hslash, hafter, uncomment]

theorem uncomment_cons {c : Char} (h : IsPlain c) (cs : List Char) :
    uncomment (c :: cs) = c :: uncomment cs :=
  uncomment_cons_of_head? h.2 fun hslash => absurd hslash h.1

theorem leaves_of_isPlain :
    ∀ {cs : List Char}, (∀ c ∈ cs, IsPlain c) → Leaves cs cs
  | [], _ => leaves_nil
  | c :: cs, h => by
      intro rest
      rw [List.cons_append, uncomment_cons (h c (List.mem_cons_self ..)),
        leaves_of_isPlain (fun d hd => h d (List.mem_cons_of_mem _ hd)) rest,
        List.cons_append]

/-! ## Literals -/

theorem leaves_raw {text : List Char} (h : backquote ∉ text) :
    Leaves (backquote :: text ++ [backquote])
      (backquote :: text ++ [backquote]) := by
  intro rest
  have hraw := uncomment_raw text rest h
  simpa using hraw

/-- What stands within a literal on one line: any characters but the quote, and
those behind a backslash whatever they are. -/
inductive QuotedText (quote : Char) : List Char → Prop
  | nil : QuotedText quote []
  | char {c : Char} {text : List Char} : c ≠ quote → c ≠ '\\' → c ≠ '\n' →
      QuotedText quote text → QuotedText quote (c :: text)
  | escape {c : Char} {text : List Char} : c ≠ '\n' →
      QuotedText quote text → QuotedText quote ('\\' :: c :: text)

theorem quotedText_of_not_mem {quote : Char} : ∀ {text : List Char},
    quote ∉ text → '\\' ∉ text → '\n' ∉ text → QuotedText quote text
  | [], _, _, _ => .nil
  | c :: text, hq, hs, hn => by
      simp only [List.mem_cons, not_or] at hq hs hn
      exact .char (Ne.symm hq.1) (Ne.symm hs.1) (Ne.symm hn.1)
        (quotedText_of_not_mem hq.2 hs.2 hn.2)

theorem uncommentFrom_quoted {quote : Char} {text : List Char}
    (h : QuotedText quote text) (hquote : quote ≠ '\\') (rest : List Char) :
    uncommentFrom (.quoted quote) (text ++ quote :: rest)
      = text ++ quote :: uncomment rest := by
  induction h with
  | nil => simp [uncommentFrom, hquote, uncomment]
  | char hq hs hn _ ih => simp [uncommentFrom, hq, hs, hn, ih]
  | escape _ _ ih => simp [uncommentFrom, ih]

/-- A literal on one line is kept as it is. -/
theorem leaves_literal {quote : Char} {text : List Char}
    (hquote : quote = '"' ∨ quote = '\'') (h : QuotedText quote text) :
    Leaves (quote :: text ++ [quote]) (quote :: text ++ [quote]) := by
  intro rest
  have hopen : ∀ cs, uncomment (quote :: cs)
      = quote :: uncommentFrom (.quoted quote) cs := by
    rcases hquote with rfl | rfl <;> exact fun _ => rfl
  have hslash : quote ≠ '\\' := by
    rcases hquote with rfl | rfl <;> decide
  rw [List.cons_append, List.cons_append, hopen, List.append_assoc,
    List.singleton_append, uncommentFrom_quoted h hslash]
  simp

/-- A double-quoted text on one line without escapes is kept as it is. -/
theorem leaves_quoted {text : List Char} (hq : '"' ∉ text) (hs : '\\' ∉ text)
    (hn : '\n' ∉ text) :
    Leaves ('"' :: text ++ ['"']) ('"' :: text ++ ['"']) :=
  leaves_literal (Or.inl rfl) (quotedText_of_not_mem hq hs hn)

/-! ## Comments -/

theorem leaves_lineComment {text : List Char} (h : '\n' ∉ text) :
    Leaves ('/' :: '/' :: text ++ ['\n']) ['\n'] := by
  intro rest
  have hline := uncomment_lineComment text rest h
  simpa using hline

/-- What ends a block comment. -/
def blockEnd : List Char := ['*', '/']

theorem not_blockEnd_infix_cons {c : Char} {cs : List Char}
    (h : ¬blockEnd <:+: c :: cs) :
    ¬blockEnd <:+: cs ∧ ¬(c = '*' ∧ cs.head? = some '/') := by
  constructor
  · exact fun htail => h (htail.trans (List.suffix_cons c cs).isInfix)
  · rintro ⟨rfl, hhead⟩
    obtain ⟨ds, rfl⟩ := List.head?_eq_some_iff.mp hhead
    exact h ⟨[], ds, rfl⟩

/-- Within a block comment nothing but its end ends it. The reader has just seen
a star only if the rest of the text does not make it the end. -/
theorem exists_blockComment_append : ∀ {text : List Char} (star feed : Bool),
    ¬blockEnd <:+: text → ¬(star = true ∧ text.head? = some '/') →
      ∃ star', ∀ rest, uncommentFrom (.blockComment star feed) (text ++ rest)
        = uncommentFrom
          (.blockComment star' (feed || decide ('\n' ∈ text))) rest
  | [], star, feed, _, _ => ⟨star, fun rest => by simp⟩
  | c :: cs, star, feed, hend, hstar => by
      obtain ⟨htail, hnext⟩ := not_blockEnd_infix_cons hend
      have hopen : ¬(star && c == '/') = true := by
        rw [Bool.and_eq_true, beq_iff_eq]
        simpa using hstar
      obtain ⟨star', hrest⟩ :=
        exists_blockComment_append (c == '*') (feed || c == '\n') htail
          (by simpa using hnext)
      have hfeed : (feed || c == '\n' || decide ('\n' ∈ cs))
          = (feed || decide ('\n' ∈ c :: cs)) := by
        by_cases hc : c = '\n'
        · simp [hc]
        · simp [beq_eq_false_iff_ne.mpr hc, Ne.symm hc]
      refine ⟨star', fun rest => ?_⟩
      rw [List.cons_append, uncommentFrom, if_neg hopen, hrest, hfeed]

theorem leaves_blockComment {text : List Char} (h : ¬blockEnd <:+: text) :
    Leaves ('/' :: '*' :: text ++ blockEnd)
      [blockGap (decide ('\n' ∈ text))] := by
  intro rest
  obtain ⟨star, hrest⟩ := exists_blockComment_append false false h (by simp)
  have hopen : uncomment ('/' :: '*' :: text ++ blockEnd ++ rest)
      = uncommentFrom (.blockComment false false)
        (text ++ (blockEnd ++ rest)) := by
    rw [← List.append_assoc]
    rfl
  rw [hopen, hrest]
  simp [blockEnd, uncommentFrom, uncomment]

/-! ## From the comment-free text back to the text -/

/-- What a text starts with: a comment, or a character that is kept. -/
theorem head_cases : ∀ cs : List Char,
    cs = [] ∨ (∃ rest, cs = '/' :: '/' :: rest)
      ∨ (∃ rest, cs = '/' :: '*' :: rest)
      ∨ ∃ c rest, cs = c :: rest
        ∧ uncomment cs = c :: uncommentFrom (.after c) rest
  | [] => Or.inl rfl
  | c :: cs => by
      by_cases hline : c = '/' ∧ cs.head? = some '/'
      · obtain ⟨rest, rfl⟩ := List.head?_eq_some_iff.mp hline.2
        exact Or.inr (Or.inl ⟨rest, by rw [hline.1]⟩)
      · by_cases hblock : c = '/' ∧ cs.head? = some '*'
        · obtain ⟨rest, rfl⟩ := List.head?_eq_some_iff.mp hblock.2
          exact Or.inr (Or.inr (Or.inl ⟨rest, by rw [hblock.1]⟩))
        · refine Or.inr (Or.inr (Or.inr ⟨c, cs, rfl, ?_⟩))
          exact uncommentFrom_code_cons fun hslash =>
            ⟨fun hhead => hline ⟨hslash, hhead⟩, fun hhead => hblock ⟨hslash, hhead⟩⟩

/-- A line comment ends with its line or with the text. -/
theorem lineComment_cases (cs : List Char) :
    uncomment ('/' :: '/' :: cs) = []
      ∨ ∃ text rest, '\n' ∉ text ∧ cs = text ++ '\n' :: rest
        ∧ uncomment ('/' :: '/' :: cs) = '\n' :: uncomment rest := by
  by_cases hfeed : '\n' ∈ cs
  · obtain ⟨text, rest, rfl, hfree⟩ := List.eq_append_cons_of_mem hfeed
    exact Or.inr ⟨text, rest, hfree, rfl, uncomment_lineComment text rest hfree⟩
  · refine Or.inl ?_
    have hskip : ∀ ds : List Char, '\n' ∉ ds →
        uncommentFrom .lineComment ds = [] := by
      intro ds
      induction ds with
      | nil => exact fun _ => rfl
      | cons d ds ih =>
          intro hds
          simp only [List.mem_cons, not_or] at hds
          simp [uncommentFrom, Ne.symm hds.1, ih hds.2]
    exact hskip cs hfeed

/-- Behind the last line of the text a line comment leaves nothing. -/
theorem uncomment_lastComment {text : List Char} (h : '\n' ∉ text) :
    uncomment ('/' :: '/' :: text) = [] := by
  rcases lineComment_cases text with hend | ⟨front, rest, -, rfl, -⟩
  · exact hend
  · exact absurd (List.mem_append_right front (List.mem_cons_self ..)) h

/-- A block comment ends with its first end or with the text. -/
theorem blockComment_cases (cs : List Char) :
    (∃ feed, uncomment ('/' :: '*' :: cs) = [blockGap feed])
      ∨ ∃ text rest feed, ¬blockEnd <:+: text ∧ cs = text ++ blockEnd ++ rest
        ∧ uncomment ('/' :: '*' :: cs) = blockGap feed :: uncomment rest := by
  cases hcut : Text.cutAt? blockEnd cs with
  | none =>
      have hfree : ¬blockEnd <:+: cs := by
        intro h
        have hfound := Text.contains_iff.mpr h
        simp [Text.contains, hcut] at hfound
      obtain ⟨star, hrest⟩ :=
        exists_blockComment_append false false hfree (by simp)
      have hopen := hrest []
      rw [List.append_nil] at hopen
      exact Or.inl ⟨_, hopen⟩
  | some cut =>
      obtain ⟨text, rest⟩ := cut
      obtain rfl := Text.append_of_cutAt? hcut
      have hfree : ¬blockEnd <:+: text := by
        rintro ⟨front, back, rfl⟩
        have hfirst :=
          Text.length_le_of_cutAt? hcut front (back ++ blockEnd ++ rest)
            (by simp)
        have hlength : blockEnd.length = 2 := rfl
        rw [List.length_append, List.length_append] at hfirst
        omega
      refine Or.inr ⟨text, rest, decide ('\n' ∈ text), hfree, rfl, ?_⟩
      have hleaves := leaves_blockComment hfree rest
      simpa using hleaves

/-- A letter, or whatever else is neither kept for a comment nor opens
anything. -/
def IsWordChar (c : Char) : Prop := IsPlain c ∧ c ≠ ' ' ∧ c ≠ '\n'

theorem exists_of_uncomment_eq_cons {d : Char} (hd : IsWordChar d)
    {cs more : List Char} (h : uncomment cs = d :: more) :
    ∃ rest, cs = d :: rest ∧ more = uncomment rest := by
  obtain ⟨hplain, hspace, hfeed⟩ := hd
  rcases head_cases cs with rfl | ⟨rest, rfl⟩ | ⟨rest, rfl⟩ |
    ⟨c, rest, rfl, hhead⟩
  · cases h
  · rcases lineComment_cases rest with hend | ⟨_, _, _, _, hend⟩
    · rw [hend] at h
      cases h
    · rw [hend] at h
      exact absurd (List.cons.inj h).1.symm hfeed
  · have hgap : ∀ feed, blockGap feed ≠ d := by
      intro feed
      cases feed
      · exact Ne.symm hspace
      · exact Ne.symm hfeed
    rcases blockComment_cases rest with ⟨feed, hend⟩ | ⟨_, _, feed, _, _, hend⟩
    · rw [hend] at h
      exact absurd (List.cons.inj h).1 (hgap feed)
    · rw [hend] at h
      exact absurd (List.cons.inj h).1 (hgap feed)
  · rw [hhead] at h
    obtain ⟨rfl, -⟩ := List.cons.inj h
    rw [← hhead, uncomment_cons hplain] at h
    exact ⟨rest, rfl, (List.cons.inj h).2.symm⟩

/-- A word at the head of the comment-free text stands at the head of the
text. -/
theorem exists_of_uncomment_eq_append : ∀ {word cs more : List Char},
    (∀ c ∈ word, IsWordChar c) → uncomment cs = word ++ more →
      ∃ rest, cs = word ++ rest ∧ more = uncomment rest
  | [], cs, _, _, h => ⟨cs, rfl, h.symm⟩
  | c :: word, cs, more, hword, h => by
      obtain ⟨ds, rfl, htail⟩ :=
        exists_of_uncomment_eq_cons (hword c (List.mem_cons_self ..)) h
      obtain ⟨rest, rfl, hrest⟩ := exists_of_uncomment_eq_append
        (fun d hd => hword d (List.mem_cons_of_mem _ hd)) htail.symm
      exact ⟨rest, rfl, hrest⟩

end ImportChart.Source
