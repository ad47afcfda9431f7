import ImportChart.Text.Blank

/-!
# Runs of one kind of characters

Readers skip or take characters of a kind for as long as they come. Where the
run ends is settled by the first character behind it (`StopsAt`). What is
dropped at both ends of a text leaves the characters of all other kinds
(`filter_dropBothWhile`), and a word of none but such characters as it is
(`dropBothWhile_append`). From a character of another kind on a trimmed text is
what it was, up to its end (`trim_append`).

Words are runs of characters that are no blanks (`words_append`), and the pieces
between separators hold none of them (`not_mem_of_mem_splitOn`); so lines are runs
of characters that are no line feeds (`lines_unlines_append`).
-/

namespace ImportChart.Source

open ImportChart.Text

/-! ## Where a run ends -/

/-- The text is empty or starts with a character outside of `p`. -/
def StopsAt (p : Char → Bool) (text : List Char) : Prop :=
  ∀ c cs, text = c :: cs → p c = false

theorem StopsAt.dropWhile {p : Char → Bool} :
    ∀ {text : List Char}, StopsAt p text → text.dropWhile p = text
  | [], _ => rfl
  | c :: cs, h => by
      rw [List.dropWhile_cons, h c cs rfl, if_neg Bool.false_ne_true]

theorem StopsAt.takeWhile {p : Char → Bool} :
    ∀ {text : List Char}, StopsAt p text → text.takeWhile p = []
  | [], _ => rfl
  | c :: cs, h => by
      rw [List.takeWhile_cons, h c cs rfl, if_neg Bool.false_ne_true]

theorem StopsAt.dropWhile_append {p : Char → Bool} {run text : List Char}
    (h : StopsAt p text) (hrun : ∀ c ∈ run, p c = true) :
    (run ++ text).dropWhile p = text := by
  rw [List.dropWhile_append_of_pos hrun, h.dropWhile]

theorem StopsAt.takeWhile_append {p : Char → Bool} {run text : List Char}
    (h : StopsAt p text) (hrun : ∀ c ∈ run, p c = true) :
    (run ++ text).takeWhile p = run := by
  rw [List.takeWhile_append_of_pos hrun, h.takeWhile, List.append_nil]

theorem stopsAt_cons {p : Char → Bool} {c : Char} (h : p c = false)
    (cs : List Char) :
    StopsAt p (c :: cs) := by
  intro d ds heq
  obtain ⟨rfl, -⟩ := List.cons.inj heq
  exact h

theorem stopsAt_of_forall {p : Char → Bool} {text : List Char}
    (h : ∀ c ∈ text, p c = false) : StopsAt p text :=
  fun c _ heq => h c (heq ▸ List.mem_cons_self)

theorem stopsAt_dropWhile (p : Char → Bool) (cs : List Char) :
    StopsAt p (cs.dropWhile p) := by
  intro c rest heq
  have hhead := List.head?_dropWhile_not p cs
  rw [heq] at hhead
  simpa using hhead

theorem StopsAt.append {p : Char → Bool} {text : List Char} (h : StopsAt p text)
    (hne : text ≠ []) (rest : List Char) : StopsAt p (text ++ rest) := by
  obtain ⟨c, cs, rfl⟩ := List.exists_cons_of_ne_nil hne
  exact stopsAt_cons (h c cs rfl) (cs ++ rest)

theorem StopsAt.of_append {p : Char → Bool} {front rest : List Char}
    (h : StopsAt p (front ++ rest)) : StopsAt p front := by
  rintro c cs rfl
  exact h c (cs ++ rest) rfl

theorem StopsAt.any_head? {p : Char → Bool} :
    ∀ {text : List Char}, StopsAt p text → text.head?.any p = false
  | [], _ => rfl
  | c :: cs, h => h c cs rfl

theorem all_head?_of_forall {p : Char → Bool} {cs : List Char}
    (h : ∀ c ∈ cs, p c = true) : cs.head?.all p = true := by
  cases cs with
  | nil => rfl
  | cons c cs => exact h c List.mem_cons_self

theorem all_head?_append {p : Char → Bool} {front back : List Char}
    (hfront : front.head?.all p = true) (hback : back.head?.all p = true) :
    (front ++ back).head?.all p = true := by
  cases front with
  | nil => exact hback
  | cons c cs => exact hfront

/-! ## Dropping at both ends -/

theorem filter_dropWhile {p q : Char → Bool}
    (h : ∀ c, p c = true → q c = false) :
    ∀ cs : List Char, (cs.dropWhile p).filter q = cs.filter q
  | [] => rfl
  | c :: cs => by
      rw [List.dropWhile_cons]
      split
      · next hc =>
          rw [filter_dropWhile h cs, List.filter_cons, h c hc,
            if_neg Bool.false_ne_true]
      · rfl

theorem filter_dropBothWhile {p q : Char → Bool}
    (h : ∀ c, p c = true → q c = false) (cs : List Char) :
    (dropBothWhile p cs).filter q = cs.filter q := by
  rw [dropBothWhile, dropEndWhile, List.filter_reverse, filter_dropWhile h,
    List.filter_reverse, List.reverse_reverse, filter_dropWhile h]

/-- A run at the end is dropped with what it ends. -/
theorem dropEndWhile_append_of_forall {p : Char → Bool} {run : List Char}
    (h : ∀ c ∈ run, p c = true) (front : List Char) :
    dropEndWhile p (front ++ run) = dropEndWhile p front := by
  have hreverse : ∀ c ∈ run.reverse, p c = true :=
    fun c hc => h c (List.mem_reverse.mp hc)
  rw [dropEndWhile, List.reverse_append, List.dropWhile_append_of_pos hreverse,
    dropEndWhile]

theorem dropEndWhile_of_stopsAt {p : Char → Bool} {front : List Char}
    (h : StopsAt p front.reverse) : dropEndWhile p front = front := by
  rw [dropEndWhile, h.dropWhile, List.reverse_reverse]

/-- What is dropped at the end is a run. -/
theorem exists_eq_dropEndWhile_append (p : Char → Bool) (cs : List Char) :
    ∃ run, cs = dropEndWhile p cs ++ run ∧ ∀ c ∈ run, p c = true := by
  refine ⟨(cs.reverse.takeWhile p).reverse, ?_, fun c hc => ?_⟩
  · rw [dropEndWhile, ← List.reverse_append, List.takeWhile_append_dropWhile,
      List.reverse_reverse]
  · exact List.all_eq_true.mp List.all_takeWhile c (List.mem_reverse.mp hc)

/-- What starts and ends with other characters is left. -/
theorem dropBothWhile_of_stopsAt {p : Char → Bool} {before text after : List Char}
    (hbefore : ∀ c ∈ before, p c = true) (hne : text ≠ [])
    (hfront : StopsAt p text) (hback : StopsAt p text.reverse)
    (hafter : ∀ c ∈ after, p c = true) :
    dropBothWhile p (before ++ (text ++ after)) = text := by
  rw [dropBothWhile, (hfront.append hne after).dropWhile_append hbefore,
    dropEndWhile_append_of_forall hafter, dropEndWhile_of_stopsAt hback]

theorem dropBothWhile_append {p : Char → Bool} {before word after : List Char}
    (hbefore : ∀ c ∈ before, p c = true) (hword : ∀ c ∈ word, p c = false)
    (hne : word ≠ []) (hafter : ∀ c ∈ after, p c = true) :
    dropBothWhile p (before ++ word ++ after) = word := by
  have hback : StopsAt p word.reverse :=
    stopsAt_of_forall fun c hc => hword c (List.mem_reverse.mp hc)
  rw [List.append_assoc]
  exact dropBothWhile_of_stopsAt hbefore hne (stopsAt_of_forall hword) hback hafter

theorem dropEndWhile_append {p : Char → Bool} {c : Char} (h : p c = false)
    (front back : List Char) :
    dropEndWhile p (front ++ c :: back) = front ++ c :: dropEndWhile p back := by
  have hstops : StopsAt p (c :: front.reverse) := stopsAt_cons h _
  rw [dropEndWhile, List.reverse_append, List.reverse_cons, List.append_assoc,
    List.singleton_append, List.dropWhile_append]
  split
  · next hempty =>
      rw [List.isEmpty_iff] at hempty
      rw [hstops.dropWhile, dropEndWhile, hempty]
      simp
  · rw [dropEndWhile]
    simp

theorem dropEndWhile_prefix_self (p : Char → Bool) (cs : List Char) :
    dropEndWhile p cs <+: cs := by
  rw [← List.reverse_suffix, dropEndWhile, List.reverse_reverse]
  exact List.dropWhile_suffix p

theorem trim_append {c : Char} (h : isBlank c = false) (front back : List Char) :
    trim (front ++ c :: back)
      = trimStart front ++ c :: dropEndWhile isBlank back := by
  have hstops : StopsAt isBlank (c :: back) := stopsAt_cons h back
  have hfront : (front ++ c :: back).dropWhile isBlank
      = trimStart front ++ c :: back := by
    rw [List.dropWhile_append]
    split
    · next hempty =>
        rw [List.isEmpty_iff] at hempty
        rw [hstops.dropWhile, trimStart, hempty, List.nil_append]
    · rfl
  rw [trim, dropBothWhile, hfront, dropEndWhile_append h]

/-- A trimmed text does not start with a blank. -/
theorem stopsAt_trim (cs : List Char) : StopsAt isBlank (trim cs) := by
  obtain ⟨run, heq, -⟩ := exists_eq_dropEndWhile_append isBlank (trimStart cs)
  have hstops : StopsAt isBlank (trimStart cs) := stopsAt_dropWhile isBlank cs
  rw [heq] at hstops
  exact hstops.of_append

theorem stopsAt_reverse_trim (cs : List Char) :
    StopsAt isBlank (trim cs).reverse := by
  rw [trim, dropBothWhile, dropEndWhile, List.reverse_reverse]
  exact stopsAt_dropWhile isBlank _

theorem trim_append_of_stopsAt {blanks cs : List Char}
    (hblanks : ∀ c ∈ blanks, isBlank c = true) (h : StopsAt isBlank cs) :
    trim (blanks ++ cs) = dropEndWhile isBlank cs := by
  rw [trim, dropBothWhile, h.dropWhile_append hblanks]

theorem trim_of_blanks {blanks : List Char}
    (h : ∀ c ∈ blanks, isBlank c = true) : trim blanks = [] := by
  have hstops : StopsAt isBlank [] := fun _ _ heq => absurd heq.symm (by simp)
  have hnone := trim_append_of_stopsAt h hstops
  rw [List.append_nil] at hnone
  exact hnone

theorem isBlank_of_mem_takeWhile {cs : List Char} :
    ∀ c ∈ cs.takeWhile isBlank, isBlank c = true :=
  List.all_eq_true.mp List.all_takeWhile

theorem exists_eq_append_trim (cs : List Char) : ∃ before after,
    cs = before ++ trim cs ++ after ∧ (∀ c ∈ before, isBlank c = true)
      ∧ ∀ c ∈ after, isBlank c = true := by
  obtain ⟨after, hback, hafter⟩ :=
    exists_eq_dropEndWhile_append isBlank (trimStart cs)
  refine ⟨cs.takeWhile isBlank, after, ?_, isBlank_of_mem_takeWhile, hafter⟩
  calc cs
      = cs.takeWhile isBlank ++ trimStart cs :=
        List.takeWhile_append_dropWhile.symm
    _ = cs.takeWhile isBlank ++ (trim cs ++ after) := congrArg _ hback
    _ = cs.takeWhile isBlank ++ trim cs ++ after :=
        (List.append_assoc _ _ _).symm

theorem trim_append_blanks {blanks : List Char}
    (h : ∀ c ∈ blanks, isBlank c = true) (cs : List Char) :
    trim (cs ++ blanks) = trim cs := by
  rw [trim, dropBothWhile, List.dropWhile_append]
  split
  · next hempty =>
      have hnone : (blanks ++ []).dropWhile isBlank = [] :=
        List.dropWhile_append_of_pos h
      rw [List.append_nil] at hnone
      rw [List.isEmpty_iff] at hempty
      rw [hnone, trim, dropBothWhile, hempty]
  · exact dropEndWhile_append_of_forall h _

theorem trim_dropEndWhile (cs : List Char) :
    trim (dropEndWhile isBlank cs) = trim cs := by
  obtain ⟨blanks, heq, hblanks⟩ := exists_eq_dropEndWhile_append isBlank cs
  have htrim := trim_append_blanks hblanks (dropEndWhile isBlank cs)
  rw [← heq] at htrim
  exact htrim.symm

/-! ## Words -/

theorem words_append_cons {c : Char} (h : isBlank c = true)
    (front back : List Char) :
    words (front ++ c :: back) = words front ++ words back := by
  rw [words, List.splitOnP_append_cons front back h, List.filter_append]
  rfl

theorem words_blanks_append : ∀ {blanks : List Char},
    (∀ c ∈ blanks, isBlank c = true) → ∀ cs, words (blanks ++ cs) = words cs
  | [], _, _ => rfl
  | c :: blanks, h, cs => by
      obtain ⟨hc, hblanks⟩ := List.forall_mem_cons.mp h
      have hsplit := words_append_cons hc [] (blanks ++ cs)
      rw [List.nil_append] at hsplit
      rw [List.cons_append, hsplit, words_blanks_append hblanks]
      rfl

theorem words_of_blanks {blanks : List Char}
    (h : ∀ c ∈ blanks, isBlank c = true) : words blanks = [] := by
  have hnone := words_blanks_append h []
  rwa [List.append_nil] at hnone

theorem words_eq_singleton {word : List Char} (hne : word ≠ [])
    (hword : ∀ c ∈ word, isBlank c = false) : words word = [word] := by
  rw [words, List.splitOnP_eq_singleton hword]
  simp [hne]

/-- A word ends where a blank follows. -/
theorem words_append {word rest : List Char} (hne : word ≠ [])
    (hword : ∀ c ∈ word, isBlank c = false)
    (hrest : rest.head?.all isBlank = true) :
    words (word ++ rest) = word :: words rest := by
  have hone := words_eq_singleton hne hword
  cases rest with
  | nil => rw [List.append_nil, hone]; rfl
  | cons c cs =>
      have hnone := words_append_cons hrest [] cs
      rw [List.nil_append] at hnone
      rw [words_append_cons hrest, hone, hnone]
      rfl

/-- A text that does not start with a blank starts with a word. -/
theorem exists_eq_word_append {c : Char} (h : isBlank c = false)
    (cs : List Char) : ∃ word rest, c :: cs = word ++ rest ∧ word ≠ []
      ∧ (∀ d ∈ word, isBlank d = false) ∧ rest.head?.all isBlank = true := by
  refine ⟨(c :: cs).takeWhile (!isBlank ·), (c :: cs).dropWhile (!isBlank ·),
    List.takeWhile_append_dropWhile.symm, by simp [h], fun d hd => ?_, ?_⟩
  · have hkept := List.all_eq_true.mp List.all_takeWhile d hd
    rwa [Bool.not_eq_true'] at hkept
  · have hstops := stopsAt_dropWhile (!isBlank ·) (c :: cs)
    cases hrest : (c :: cs).dropWhile (!isBlank ·) with
    | nil => rfl
    | cons d ds =>
        have hblank := hstops d ds hrest
        rwa [Bool.not_eq_false'] at hblank

theorem words_append_blanks {blanks : List Char}
    (h : ∀ c ∈ blanks, isBlank c = true) (cs : List Char) :
    words (cs ++ blanks) = words cs := by
  cases blanks with
  | nil => rw [List.append_nil]
  | cons c blanks =>
      obtain ⟨hc, hblanks⟩ := List.forall_mem_cons.mp h
      rw [words_append_cons hc, words_of_blanks hblanks, List.append_nil]

theorem words_trim (cs : List Char) : words (trim cs) = words cs := by
  obtain ⟨before, after, heq, hbefore, hafter⟩ := exists_eq_append_trim cs
  calc words (trim cs)
      = words (before ++ trim cs) := (words_blanks_append hbefore _).symm
    _ = words (before ++ trim cs ++ after) := (words_append_blanks hafter _).symm
    _ = words cs := by rw [← heq]

/-- A word is a stretch of the text. -/
theorem infix_of_head?_words {cs word : List Char}
    (h : (words cs).head? = some word) : word <:+: cs := by
  have hsplit : cs.takeWhile isBlank ++ cs.dropWhile isBlank = cs :=
    List.takeWhile_append_dropWhile
  have hstops := stopsAt_dropWhile isBlank cs
  rw [← hsplit, words_blanks_append isBlank_of_mem_takeWhile] at h
  cases hrest : cs.dropWhile isBlank with
  | nil =>
      rw [hrest] at h
      cases h
  | cons c rest =>
      obtain ⟨first, more, heq, hne, hplain, hmore⟩ :=
        exists_eq_word_append (hstops c rest hrest) rest
      rw [hrest, heq, words_append hne hplain hmore] at h
      obtain rfl := Option.some.inj h
      rw [hrest, heq] at hsplit
      exact ⟨_, more, by rw [List.append_assoc, hsplit]⟩

/-- Without words there are only blanks. -/
theorem words_eq_nil_iff {cs : List Char} : words cs = [] ↔ trim cs = [] := by
  constructor
  · intro hwords
    have hstops := stopsAt_dropWhile isBlank cs
    have hafter : words (cs.dropWhile isBlank) = [] := by
      rw [← words_blanks_append (@isBlank_of_mem_takeWhile cs),
        List.takeWhile_append_dropWhile, hwords]
    cases hrest : cs.dropWhile isBlank with
    | nil => rw [trim, dropBothWhile, hrest, dropEndWhile]; rfl
    | cons c rest =>
        obtain ⟨word, more, hword, hne, hplain, hmore⟩ :=
          exists_eq_word_append (hstops c rest hrest) rest
        rw [hrest, hword, words_append hne hplain hmore] at hafter
        cases hafter
  · intro htrim
    rw [← words_trim, htrim]
    rfl

/-! ## Pieces -/

/-- No piece of a text holds the character at which the text is cut. -/
theorem not_mem_of_mem_splitOn {separator : Char} {cs piece : List Char}
    (h : piece ∈ cs.splitOn separator) : separator ∉ piece := by
  by_cases hmem : separator ∈ cs
  · obtain ⟨first, rest, heq, hfirst⟩ := List.eq_append_cons_of_mem hmem
    have hshort : rest.length < cs.length := by
      rw [heq, List.length_append, List.length_cons]
      omega
    rw [heq, List.splitOn_append_cons_self_of_not_mem hfirst] at h
    rcases List.mem_cons.mp h with rfl | hrest
    · exact hfirst
    · exact not_mem_of_mem_splitOn hrest
  · rw [List.splitOn_eq_singleton hmem, List.mem_singleton] at h
    rwa [h]
termination_by cs.length

/-! ## Lines -/

/-- The lines, each with a line feed behind it. -/
def unlines (ls : List (List Char)) : List Char := ls.flatMap (· ++ ['\n'])

theorem unlines_cons_append (line : List Char) (ls : List (List Char))
    (rest : List Char) :
    unlines (line :: ls) ++ rest = line ++ '\n' :: (unlines ls ++ rest) := by
  simp [unlines]

theorem lines_append_cons {line : List Char} (h : '\n' ∉ line)
    (rest : List Char) : lines (line ++ '\n' :: rest) = line :: lines rest :=
  List.splitOn_append_cons_self_of_not_mem h rest

theorem lines_of_not_mem {line : List Char} (h : '\n' ∉ line) :
    lines line = [line] :=
  List.splitOn_eq_singleton h

theorem lines_unlines_append : ∀ {ls : List (List Char)},
    (∀ line ∈ ls, '\n' ∉ line) → ∀ rest, lines (unlines ls ++ rest) = ls ++ lines rest
  | [], _, _ => rfl
  | line :: ls, h, rest => by
      obtain ⟨hline, hls⟩ := List.forall_mem_cons.mp h
      rw [unlines_cons_append, lines_append_cons hline,
        lines_unlines_append hls rest]
      rfl

/-- A text starts with its first line. -/
theorem exists_lines_append {line rest : List Char} (h : '\n' ∉ line)
    (hrest : rest = [] ∨ ∃ below, rest = '\n' :: below) :
    ∃ more, lines (line ++ rest) = line :: more := by
  rcases hrest with rfl | ⟨below, rfl⟩
  · rw [List.append_nil]
    exact ⟨[], lines_of_not_mem h⟩
  · exact ⟨lines below, lines_append_cons h below⟩

theorem feed_not_mem_of_mem_lines {cs line : List Char} (h : line ∈ lines cs) :
    '\n' ∉ line :=
  not_mem_of_mem_splitOn h

end ImportChart.Source
