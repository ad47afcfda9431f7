import ImportChart.Proofs.HeaderConstraints

/-!
# Option lines

A file without an expression is judged by its option lines, `// +build a,b c`.
They are a conjunction: each of them holds by one of its options, an option by
all of its terms. What a line says is told here by its text, put together from
terms and commas, options and blanks (`IsOptionLine`), and what the lines come to
by the values of the terms (`OptionsHold`).

The reader cuts the text at blanks and commas instead, and what it finds between
the cuts are the options and their terms (`spellsOptions_iff`). It asks for the
converse of what the lines say: whether some line has the tag `ignore` in each
of its options. So above a clause that follows on blank lines and line comments
the file is set aside exactly if its option lines do not hold when the tag does
not and all other terms do (`isSetAside_iff_not_optionsHold`).
-/

namespace ImportChart.Source

open ImportChart.Text

/-! ## What a line says -/

/-- A text that may stand between commas. -/
def IsTermText (term : List Char) : Prop :=
  ∀ c ∈ term, isBlank c = false ∧ c ≠ ','

/-- The terms of an option, with commas in between. -/
inductive SpellsTerms : List (List Char) → List Char → Prop
  | last {term : List Char} : IsTermText term → SpellsTerms [term] term
  | comma {term rest : List Char} {terms : List (List Char)} : IsTermText term →
      SpellsTerms terms rest → SpellsTerms (term :: terms) (term ++ ',' :: rest)

/-- The options of a line, with blanks in front of each. -/
inductive SpellsOptions : List (List (List Char)) → List Char → Prop
  | done {blanks : List Char} : (∀ c ∈ blanks, isBlank c = true) →
      SpellsOptions [] blanks
  | option {blanks option rest : List Char} {terms : List (List Char)}
      {options : List (List (List Char))} : blanks ≠ [] →
      (∀ c ∈ blanks, isBlank c = true) → option ≠ [] → SpellsTerms terms option →
      SpellsOptions options rest →
      SpellsOptions (terms :: options) (blanks ++ (option ++ rest))

/-- The line is a comment of the form `// +build`, with `rest` behind it. -/
def IsBuildComment (rest line : List Char) : Prop :=
  ∃ indent gap, line = indent ++ "//".toList ++ gap ++ "+build".toList ++ rest
    ∧ (∀ c ∈ indent, isBlank c = true) ∧ ∀ c ∈ gap, isBlank c = true

/-- The line gives options, at least one. -/
def IsOptionLine (options : List (List (List Char))) (line : List Char) : Prop :=
  options ≠ [] ∧ ∃ rest, IsBuildComment rest line ∧ SpellsOptions options rest

/-- The line is such a comment without options: only blanks follow, or what
follows does not start with one. -/
def LacksOptions (line : List Char) : Prop :=
  ∃ rest, IsBuildComment rest line
    ∧ ((∀ c ∈ rest, isBlank c = true)
      ∨ ∃ c cs, rest = c :: cs ∧ isBlank c = false)

/-- All lines that give options hold, each by an option all of whose terms are
true. -/
def OptionsHold (isTrue : List Char → Prop) (ls : List (List Char)) : Prop :=
  ∀ line ∈ ls, ∀ options, IsOptionLine options line →
    ∃ option ∈ options, ∀ term ∈ option, isTrue term

/-! ## Cutting at blanks and commas -/

theorem SpellsTerms.splitOn_eq {terms : List (List Char)} {option : List Char}
    (h : SpellsTerms terms option) : option.splitOn ',' = terms := by
  induction h with
  | last hterm =>
      exact List.splitOn_eq_singleton fun hmem => (hterm ',' hmem).2 rfl
  | comma hterm _ ih =>
      have hcomma := fun hmem => (hterm ',' hmem).2 rfl
      rw [List.splitOn_append_cons_self_of_not_mem hcomma, ih]

theorem SpellsTerms.isBlank_eq_false {terms : List (List Char)}
    {option : List Char} (h : SpellsTerms terms option) :
    ∀ c ∈ option, isBlank c = false := by
  induction h with
  | last hterm => exact fun c hc => (hterm c hc).1
  | comma hterm _ ih =>
      intro c hc
      rcases List.mem_append.mp hc with hc | hc
      · exact (hterm c hc).1
      · rcases List.mem_cons.mp hc with rfl | hc
        · decide
        · exact ih c hc

/-- Any text without blanks is put together from terms. -/
theorem exists_spellsTerms (option : List Char)
    (h : ∀ c ∈ option, isBlank c = false) : ∃ terms, SpellsTerms terms option := by
  by_cases hcomma : ',' ∈ option
  · obtain ⟨term, rest, heq, hterm⟩ := List.eq_append_cons_of_mem hcomma
    have hshort : rest.length < option.length := by
      rw [heq, List.length_append, List.length_cons]
      omega
    rw [heq, List.forall_mem_append, List.forall_mem_cons] at h
    obtain ⟨terms, hterms⟩ := exists_spellsTerms rest h.2.2
    refine ⟨term :: terms, heq ▸ .comma (fun c hc => ⟨h.1 c hc, ?_⟩) hterms⟩
    exact fun hmem => hterm (hmem ▸ hc)
  · refine ⟨[option], .last fun c hc => ⟨h c hc, ?_⟩⟩
    exact fun hmem => hcomma (hmem ▸ hc)
termination_by option.length

/-- Blanks stand in front of the first option. -/
theorem SpellsOptions.all_head? {options : List (List (List Char))}
    {rest : List Char} (h : SpellsOptions options rest) :
    rest.head?.all isBlank = true := by
  cases h with
  | done hblanks => exact all_head?_of_forall hblanks
  | @option blanks _ _ _ _ hne hblanks =>
      obtain ⟨c, cs, rfl⟩ := List.exists_cons_of_ne_nil hne
      exact hblanks c List.mem_cons_self

/-- The options of a text are its words, and their terms lie between the
commas. -/
theorem SpellsOptions.eq_map {options : List (List (List Char))}
    {rest : List Char} (h : SpellsOptions options rest) :
    options = (words rest).map (·.splitOn ',') := by
  induction h with
  | done hblanks => rw [words_of_blanks hblanks]; rfl
  | option _ hblanks hne hterms hrest ih =>
      rw [words_blanks_append hblanks,
        words_append hne hterms.isBlank_eq_false hrest.all_head?,
        List.map_cons, hterms.splitOn_eq, ← ih]

/-- Any text that starts with a blank, if at all, is put together from
options. -/
theorem exists_spellsOptions (rest : List Char)
    (h : rest.head?.all isBlank = true) :
    ∃ options, SpellsOptions options rest := by
  have hsplit : rest.takeWhile isBlank ++ rest.dropWhile isBlank = rest :=
    List.takeWhile_append_dropWhile
  have hstops := stopsAt_dropWhile isBlank rest
  cases hafter : rest.dropWhile isBlank with
  | nil =>
      rw [hafter, List.append_nil] at hsplit
      exact ⟨[], hsplit ▸ .done isBlank_of_mem_takeWhile⟩
  | cons c cs =>
      have hc := hstops c cs hafter
      have hblanks : rest.takeWhile isBlank ≠ [] := by
        intro hnil
        rw [hnil, hafter, List.nil_append] at hsplit
        rw [← hsplit] at h
        exact Bool.eq_false_iff.mp hc h
      obtain ⟨word, more, hword, hne, hplain, hmore⟩ :=
        exists_eq_word_append hc cs
      rw [hafter, hword] at hsplit
      have hshort : more.length < rest.length := by
        have hpos := List.length_pos_iff.mpr hne
        rw [← hsplit, List.length_append, List.length_append]
        omega
      obtain ⟨options, hoptions⟩ := exists_spellsOptions more hmore
      obtain ⟨terms, hterms⟩ := exists_spellsTerms word hplain
      exact ⟨terms :: options, hsplit ▸
        .option hblanks isBlank_of_mem_takeWhile hne hterms hoptions⟩
termination_by rest.length

theorem spellsOptions_iff {options : List (List (List Char))}
    {rest : List Char} : SpellsOptions options rest
      ↔ rest.head?.all isBlank = true
        ∧ options = (words rest).map (·.splitOn ',') := by
  constructor
  · intro h
    exact ⟨h.all_head?, h.eq_map⟩
  · rintro ⟨hhead, rfl⟩
    obtain ⟨options, hoptions⟩ := exists_spellsOptions rest hhead
    rwa [← hoptions.eq_map]

/-! ## Reading a line -/

/-- The options that are read have the tag `ignore` in each of them, and there is
at least one. -/
theorem SpellsOptions.ignores_iff {options : List (List (List Char))}
    {rest : List Char} (h : SpellsOptions options rest) :
    optionLineIgnores (trim rest) = true
      ↔ options ≠ [] ∧ ∀ option ∈ options, ignoreTag ∈ option := by
  rw [optionLineIgnores, words_trim, h.eq_map, List.forall_mem_map]
  simp only [Bool.and_eq_true, Bool.not_eq_true', List.isEmpty_eq_false_iff,
    List.all_eq_true, List.contains_iff_mem, ne_eq, List.map_eq_nil_iff,
    words_eq_nil_iff]

/-- What is read of a line that may have blanks around it. -/
theorem optionsOf?_trim_iff {line text : List Char} :
    optionsOf? (trim line) = some text
      ↔ ∃ rest, IsBuildComment rest line ∧ rest.head?.all isBlank = true
        ∧ text = trim rest := by
  rw [optionsOf?_eq_some_iff]
  constructor
  · rintro ⟨gap, rest, htrim, hgap, hrest, rfl⟩
    obtain ⟨indent, after, hline, hindent, hafter⟩ := exists_eq_append_trim line
    refine ⟨rest ++ after, ⟨indent, gap, ?_, hindent, hgap⟩, ?_,
      (trim_append_blanks hafter rest).symm⟩
    · rw [hline, htrim]
      simp only [List.append_assoc]
    · exact all_head?_append hrest (all_head?_of_forall hafter)
  · rintro ⟨rest, ⟨indent, gap, rfl, hindent, hgap⟩, hrest, rfl⟩
    have hstops : StopsAt isBlank
        ("//".toList ++ gap ++ "+build".toList ++ rest) :=
      stopsAt_cons (by decide : isBlank '/' = false) _
    have htrim : trim (indent ++ "//".toList ++ gap ++ "+build".toList ++ rest)
        = "//".toList ++ gap ++ "+build".toList ++ dropEndWhile isBlank rest := by
      rw [← dropEndWhile_buildComment, ← trim_append_of_stopsAt hindent hstops]
      simp only [List.append_assoc]
    exact ⟨gap, dropEndWhile isBlank rest, htrim, hgap,
      all_head?_of_prefix (dropEndWhile_prefix_self isBlank rest) hrest,
      (trim_dropEndWhile rest).symm⟩

/-- A line that sets its file aside gives options, all of them with the tag
`ignore`. -/
theorem exists_optionsOf?_iff {line : List Char} :
    (∃ text, optionsOf? (trim line) = some text ∧ optionLineIgnores text = true)
      ↔ ∃ options, IsOptionLine options line
        ∧ ∀ option ∈ options, ignoreTag ∈ option := by
  simp only [optionsOf?_trim_iff]
  constructor
  · rintro ⟨text, ⟨rest, hcomment, hrest, rfl⟩, hignores⟩
    obtain ⟨options, hoptions⟩ := exists_spellsOptions rest hrest
    obtain ⟨hne, hall⟩ := hoptions.ignores_iff.mp hignores
    exact ⟨options, ⟨hne, rest, hcomment, hoptions⟩, hall⟩
  · rintro ⟨options, ⟨hne, rest, hcomment, hoptions⟩, hall⟩
    exact ⟨trim rest, ⟨rest, hcomment, hoptions.all_head?, rfl⟩,
      hoptions.ignores_iff.mpr ⟨hne, hall⟩⟩

/-- The blanks of a comment end where its signs stand. -/
theorem IsBuildComment.unique {line rest rest' : List Char}
    (h : IsBuildComment rest line) (h' : IsBuildComment rest' line) :
    rest = rest' := by
  obtain ⟨indent, gap, heq, hindent, hgap⟩ := h
  obtain ⟨indent', gap', heq', hindent', hgap'⟩ := h'
  have hline : indent ++ '/' :: '/' :: (gap ++ '+' :: ("build".toList ++ rest))
      = indent' ++ '/' :: '/' :: (gap' ++ '+' :: ("build".toList ++ rest')) := by
    have hboth := heq.symm.trans heq'
    simpa using hboth
  have hslash : ¬isBlank '/' = true := by decide
  have hplus : ¬isBlank '+' = true := by decide
  obtain ⟨-, -, hcomment⟩ := run_append_inj hslash hslash hindent hindent' hline
  obtain ⟨-, -, hbuild⟩ :=
    run_append_inj hplus hplus hgap hgap' (List.cons.inj hcomment).2
  exact List.append_cancel_left hbuild

theorem LacksOptions.optionsHold {line : List Char} (h : LacksOptions line)
    (isTrue : List Char → Prop) : OptionsHold isTrue [line] := by
  obtain ⟨rest, hcomment, hrest⟩ := h
  intro other hother options hline
  obtain rfl := List.mem_singleton.mp hother
  obtain ⟨hne, rest', hcomment', hoptions⟩ := hline
  obtain rfl := hcomment.unique hcomment'
  rcases hrest with hblanks | ⟨c, cs, rfl, hc⟩
  · rw [hoptions.eq_map, words_of_blanks hblanks] at hne
    exact absurd rfl hne
  · exact absurd hoptions.all_head? (Bool.eq_false_iff.mp hc)

/-! ## Lines above the clause -/

/-- A blank line, or a line comment with any indentation. -/
inductive IsLeadLine : List Char → Prop
  | blank {line : List Char} : '\n' ∉ line → (∀ c ∈ line, isBlank c = true) →
      IsLeadLine line
  | comment {indent text : List Char} : '\n' ∉ indent → '\n' ∉ text →
      (∀ c ∈ indent, isBlank c = true) →
      IsLeadLine (indent ++ '/' :: '/' :: text)

/-- The text starts with a line that starts with a package clause, indented or
not. -/
def StartsWithClause (text : List Char) : Prop :=
  ∃ indent gap name body, text = indent ++ (packageWord ++ (gap ++ (name ++ body)))
    ∧ '\n' ∉ indent ∧ (∀ c ∈ indent, isBlank c = true)
    ∧ Gap isBlank gap ∧ gap ≠ [] ∧ IsName name

theorem IsLeadLine.feed_not_mem {line : List Char} (h : IsLeadLine line) :
    '\n' ∉ line := by
  cases h with
  | blank hfeed _ => exact hfeed
  | comment hindent htext _ => simp [hindent, htext]

theorem IsLeadLine.noClause {line : List Char} (h : IsLeadLine line) :
    ¬packageWord <+: trim line := by
  cases h with
  | blank _ hblanks =>
      rw [trim_of_blanks hblanks]
      decide
  | @comment indent text _ _ hindent =>
      have hslash : trim (indent ++ '/' :: '/' :: text)
          = '/' :: dropEndWhile isBlank ('/' :: text) := by
        rw [trim_append_of_stopsAt hindent (stopsAt_cons (by decide) _)]
        exact dropEndWhile_append (by decide) [] ('/' :: text)
      rw [hslash]
      exact fun hword => absurd (List.cons_prefix_cons.mp hword).1 (by decide)

theorem gap_blanks_append {blanks rest : List Char}
    (h : ∀ c ∈ blanks, isBlank c = true) (hrest : Gap isBlank rest) :
    Gap isBlank (blanks ++ rest) := by
  induction blanks with
  | nil => exact hrest
  | cons c blanks ih =>
      obtain ⟨hc, hblanks⟩ := List.forall_mem_cons.mp h
      exact .char hc (ih hblanks)

/-- Blank lines and line comments are white space and comments. -/
theorem gap_unlines_append {ls : List (List Char)}
    (hls : ∀ line ∈ ls, IsLeadLine line) {rest : List Char}
    (hrest : Gap isBlank rest) : Gap isBlank (unlines ls ++ rest) := by
  induction ls with
  | nil => exact hrest
  | cons line ls ih =>
      obtain ⟨hline, hmore⟩ := List.forall_mem_cons.mp hls
      have hgap := ih hmore
      rw [unlines_cons_append]
      cases hline with
      | blank _ hblanks =>
          exact gap_blanks_append hblanks (.char (by decide) hgap)
      | comment _ htext hindent =>
          rw [List.append_assoc]
          refine gap_blanks_append hindent ?_
          have hcomment := Gap.lineComment htext hgap
          simpa using hcomment

theorem linesAbovePackage_unlines_append {ls : List (List Char)}
    (hls : ∀ line ∈ ls, IsLeadLine line) (rest : List Char) :
    linesAbovePackage (unlines ls ++ rest)
      = ls.map trim ++ linesAbovePackage rest := by
  have hfeed : ∀ line ∈ ls, '\n' ∉ line := fun line hline =>
    (hls line hline).feed_not_mem
  have hwords : ∀ line ∈ ls.map trim,
      (!"package".toList.isPrefixOf line) = true := by
    refine List.forall_mem_map.mpr fun line hline => ?_
    rw [Bool.not_eq_true', Bool.eq_false_iff, ne_eq, List.isPrefixOf_iff_prefix]
    exact (hls line hline).noClause
  rw [linesAbovePackage, lines_unlines_append hfeed, List.map_append,
    List.takeWhile_append_of_pos hwords]
  rfl

/-- Without an expression a file is set aside by one of its lines. -/
theorem ignores_ofText_iff {text : List Char}
    (h : ∀ line ∈ linesAbovePackage text, ¬"//go:build".toList <+: line) :
    (Constraints.ofText text).ignores = true
      ↔ ∃ line ∈ linesAbovePackage text, ∃ options,
          optionsOf? line = some options ∧ optionLineIgnores options = true := by
  have hnone : (linesAbovePackage text).findSome? expressionOf? = none := by
    refine List.findSome?_eq_none_iff.mpr fun line hline => ?_
    rw [← Option.not_isSome_iff_eq_none, expressionOf?_isSome_iff]
    exact h line hline
  rw [Constraints.ignores, Constraints.ofText, hnone, Option.map_none]
  simp only [List.any_map, List.any_eq_true, List.mem_filterMap,
    Function.comp_apply, String.toList_ofList]
  constructor
  · rintro ⟨options, ⟨line, hline, hread⟩, hignores⟩
    exact ⟨line, hline, options, hread, hignores⟩
  · rintro ⟨line, hline, options, hread, hignores⟩
    exact ⟨options, ⟨line, hline, hread⟩, hignores⟩

/-- A file whose clause follows on blank lines and line comments can be read,
and its constraints are those of its text. -/
theorem exists_header_of_startsWithClause {source : String}
    {ls : List (List Char)} {rest : List Char}
    (hsource : source.toList = unlines ls ++ rest)
    (hls : ∀ line ∈ ls, IsLeadLine line) (hclause : StartsWithClause rest) :
    ∃ header, FileHeader.ofText? source = some header
      ∧ header.constraints = Constraints.ofText source.toList
      ∧ linesAbovePackage source.toList = ls.map trim := by
  obtain ⟨indent, gap, name, body, rfl, hfeed, hindent, hgap, hne, hname⟩ :=
    hclause
  have hindentGap : Gap isBlank (indent ++ []) := gap_blanks_append hindent .nil
  rw [List.append_nil] at hindentGap
  obtain ⟨pieces, hpieces⟩ :=
    gap_iff_exists_leadText.mp (gap_unlines_append hls hindentGap)
  let head : Head := ⟨pieces, gap, name, hgap, hne, hname⟩
  have htext : source.toList = head.withBody body := by
    rw [hsource, Head.withBody, ← hpieces]
    simp only [List.append_assoc]
    rfl
  obtain ⟨header, hheader, hconstraints⟩ := head.exists_ofText? body
  rw [← htext, String.ofList_toList] at hheader
  rw [← htext] at hconstraints
  refine ⟨header, hheader, hconstraints, ?_⟩
  rw [hsource, linesAbovePackage_unlines_append hls,
    linesAbovePackage_clause hindent hfeed, List.append_nil]

theorem not_optionsHold_iff {ls : List (List Char)} :
    ¬OptionsHold (· ≠ ignoreTag) ls
      ↔ ∃ line ∈ ls, ∃ options, IsOptionLine options line
        ∧ ∀ option ∈ options, ignoreTag ∈ option := by
  simp only [OptionsHold, Classical.not_forall, not_exists, not_and, exists_prop,
    ne_eq, Classical.not_not, exists_eq_right]

/-- Below blank lines and line comments without an expression, a file is set
aside if and only if its option lines do not hold when the tag `ignore` does not
and all other terms do, negated ones among them. A line without options, or with
more letters behind `+build`, has no say. -/
theorem isSetAside_iff_not_optionsHold {source : String} {ls : List (List Char)}
    {rest : List Char} (hsource : source.toList = unlines ls ++ rest)
    (hls : ∀ line ∈ ls, IsLeadLine line)
    (hexpression : ∀ line ∈ ls, ¬"//go:build".toList <+: trim line)
    (hclause : StartsWithClause rest) :
    (∃ header, FileHeader.ofText? source = some header
      ∧ (header.isSetAside = true ↔ ¬OptionsHold (· ≠ ignoreTag) ls))
      ∧ ∀ line, LacksOptions line → ∀ isTrue, OptionsHold isTrue [line] := by
  refine ⟨?_, fun line hlacks isTrue => hlacks.optionsHold isTrue⟩
  obtain ⟨header, hheader, hconstraints, hlines⟩ :=
    exists_header_of_startsWithClause hsource hls hclause
  refine ⟨header, hheader, ?_⟩
  have hnone : ∀ line ∈ linesAbovePackage source.toList,
      ¬"//go:build".toList <+: line := by
    rw [hlines]
    exact List.forall_mem_map.mpr hexpression
  rw [FileHeader.isSetAside, hconstraints, ignores_ofText_iff hnone, hlines,
    not_optionsHold_iff]
  constructor
  · rintro ⟨_, hmem, hread⟩
    obtain ⟨line, hline, rfl⟩ := List.mem_map.mp hmem
    exact ⟨line, hline, exists_optionsOf?_iff.mp hread⟩
  · rintro ⟨line, hline, hoptions⟩
    exact ⟨trim line, List.mem_map_of_mem hline,
      exists_optionsOf?_iff.mpr hoptions⟩

/-- Comments with and without options; all options of one of them have the tag. -/
def guardedLines : List (List Char) :=
  ["// Generates tables.".toList, "\t".toList, "// +build linux !ignore".toList,
    "\t//+build ignore,linux ignore\r".toList, "// +buildtags ignore".toList,
    "// +build ".toList, []]

theorem isSetAside_iff_not_optionsHold_guardedLines :
    (∀ line ∈ guardedLines, IsLeadLine line)
      ∧ (∀ line ∈ guardedLines, ¬"//go:build".toList <+: trim line)
      ∧ StartsWithClause "package main\n".toList
      ∧ ∃ header, FileHeader.ofText? (String.ofList
          (unlines guardedLines ++ "package main\n".toList)) = some header
        ∧ header.isSetAside = true
        ∧ ¬OptionsHold (· ≠ ignoreTag) guardedLines := by
  have hls : ∀ line ∈ guardedLines, IsLeadLine line := by
    have hplain : ∀ text, '\n' ∉ text → IsLeadLine ('/' :: '/' :: text) :=
      fun text htext => @IsLeadLine.comment [] text List.not_mem_nil htext
        (List.forall_mem_nil _)
    have hblank : IsLeadLine "\t".toList :=
      .blank (by decide) (List.all_eq_true.mp (by decide))
    have hindented : IsLeadLine "\t//+build ignore,linux ignore\r".toList :=
      @IsLeadLine.comment ['\t'] _ (by decide) (by decide)
        (List.all_eq_true.mp (by decide))
    simp only [guardedLines, List.forall_mem_cons]
    exact ⟨hplain _ (by decide), hblank, hplain _ (by decide), hindented,
      hplain _ (by decide), hplain _ (by decide),
      .blank (by decide) (List.forall_mem_nil _), List.forall_mem_nil _⟩
  have hexpression : ∀ line ∈ guardedLines, ¬"//go:build".toList <+: trim line := by
    decide +kernel
  have hclause : StartsWithClause "package main\n".toList :=
    ⟨[], [' '], "main".toList, ['\n'], rfl, by decide,
      List.all_eq_true.mp (by decide), .char (by decide) .nil, by decide,
      isName_cons (by decide) (by decide)⟩
  obtain ⟨⟨header, hheader, hiff⟩, -⟩ :=
    isSetAside_iff_not_optionsHold String.toList_ofList hls hexpression hclause
  have hoptions : IsOptionLine ["ignore,linux".toList.splitOn ',', [ignoreTag]]
      "\t//+build ignore,linux ignore\r".toList := by
    refine ⟨List.cons_ne_nil _ _, " ignore,linux ignore\r".toList,
      ⟨['\t'], [], by decide, List.all_eq_true.mp (by decide),
        List.forall_mem_nil _⟩, ?_⟩
    exact spellsOptions_iff.mpr ⟨by decide, by decide⟩
  have hfails : ¬OptionsHold (· ≠ ignoreTag) guardedLines :=
    not_optionsHold_iff.mpr ⟨_, by decide, _, hoptions, by decide⟩
  exact ⟨hls, hexpression, hclause, header, hheader, hiff.mpr hfails, hfails⟩

end ImportChart.Source
