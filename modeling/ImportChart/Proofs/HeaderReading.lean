import ImportChart.Proofs.SpecReading

/-!
# Headers are read whatever their layout

A declaration is read as its paths, wherever it stands (`Declaration.leaves`),
and the reader ends where no further declaration starts. That it does not go
on is the converse of reading: the word that the reader finds in the
comment-free text stands in the text itself, behind a gap
(`exists_gap_of_dropWhile`). So the declarations are read one after the other
(`AfterName.importPaths`), and the header with them (`ofText?_of_sourceText`).
-/

namespace ImportChart.Source

open ImportChart.Text

/-! ## Declarations -/

theorem isName_importWord : IsName importWord :=
  isName_cons (by decide) (by decide : importWord.all isNameChar = true)

theorem importDecl?_spec {after : List Char}
    (hafter : StopsAt isNameStart after)
    (hopen : ∀ body, trimStart after ≠ '(' :: body) :
    importDecl? (importWord ++ after)
      = (spec? (trimStart after)).map fun read => ([read.1], read.2) := by
  have hword : afterHead? "import".toList (importWord ++ after) = some after :=
    afterHead?_eq_some_iff.mpr rfl
  rw [importDecl?, hword]
  simp only [hafter.any_head?, if_neg Bool.false_ne_true]

theorem importDecl?_group {after body rest : List Char}
    (hafter : StopsAt isNameStart after)
    (hopen : trimStart after = '(' :: body ++ ')' :: rest)
    (hbody : ')' ∉ body) :
    importDecl? (importWord ++ after) = some (literals body, rest) := by
  have hword : afterHead? "import".toList (importWord ++ after) = some after :=
    afterHead?_eq_some_iff.mpr rfl
  have hinside : ∀ c ∈ body, (c != ')') = true := fun c hc =>
    bne_iff_ne.mpr fun heq => hbody (heq ▸ hc)
  have hend : StopsAt (· != ')') (')' :: rest) := stopsAt_cons (by decide) rest
  rw [importDecl?, hword]
  simp only [hafter.any_head?, if_neg Bool.false_ne_true, hopen,
    List.cons_append]
  rw [hend.takeWhile_append hinside, hend.dropWhile_append hinside]
  rfl

theorem isNameStart_of_isBlank {c : Char} (h : isBlank c = true) :
    isNameStart c = false := by
  have hchar := isNameChar_of_isBlank h
  rw [isNameChar, Bool.or_eq_false_iff] at hchar
  exact hchar.1

theorem not_isQuote_of_isSeparator {c : Char} (h : isSeparator c = true) :
    ¬IsQuote c := by
  rintro (rfl | rfl)
  · exact ne_of_kind h (by decide) rfl
  · exact ne_of_kind h (by decide) rfl

/-- In a group the literals are the paths, and nothing in it closes the
group. -/
theorem Group.leaves {body : List Char} {paths : List (List Char)}
    (h : Group body paths) :
    ∃ plain, Leaves body plain ∧ ')' ∉ plain ∧ literals plain = paths := by
  have hseparators : ∀ {seps : List Char}, (∀ c ∈ seps, isSeparator c = true) →
      ')' ∉ seps ∧ ∀ rest, literals (seps ++ rest) = literals rest := by
    intro seps hseps
    refine ⟨fun hmem => absurd (hseps _ hmem) (by decide), ?_⟩
    exact literals_append fun c hc => not_isQuote_of_isSeparator (hseps c hc)
  induction h with
  | done hgap =>
      obtain ⟨seps, hleaves, hseps, -⟩ := hgap.leaves_separators
      obtain ⟨hclosed, hpassed⟩ := hseparators hseps
      refine ⟨seps, hleaves, hclosed, ?_⟩
      have hnone := hpassed []
      rwa [List.append_nil, literals] at hnone
  | spec hgap hspec _ ih =>
      obtain ⟨seps, hgapLeaves, hseps, -⟩ := hgap.leaves_separators
      obtain ⟨hsepsClosed, hpassed⟩ := hseparators hseps
      obtain ⟨specPlain, hspecLeaves, hplain, -⟩ := hspec.leaves
      obtain ⟨morePlain, hmoreLeaves, hmoreClosed, hmore⟩ := ih
      refine ⟨seps ++ specPlain ++ morePlain,
        (hgapLeaves.append hspecLeaves).append hmoreLeaves, ?_, ?_⟩
      · simp only [List.mem_append, not_or]
        exact ⟨⟨hsepsClosed, hplain.closed⟩, hmoreClosed⟩
      · rw [List.append_assoc, hpassed, hplain.literals, hmore]

/-- A declaration is read as its paths, up to its end. -/
theorem Declaration.leaves {decl : List Char} {paths : List (List Char)}
    (h : Declaration decl paths) :
    ∃ after, Leaves decl (importWord ++ after)
      ∧ ∀ rest, importDecl? (importWord ++ after ++ rest)
        = some (paths, rest) := by
  cases h with
  | @single gap spec path hgap hspec hapart =>
      obtain ⟨blanks, hgapLeaves, hblanks, hkept⟩ := hgap.leaves_blanks
      obtain ⟨plain, hspecLeaves, hplain, hhead⟩ := hspec.leaves
      obtain ⟨c, cs, hc, hblank, hparenthesis⟩ := hplain.opens
      refine ⟨blanks ++ plain,
        isName_importWord.leaves.append (hgapLeaves.append hspecLeaves), ?_⟩
      intro rest
      have htrim : trimStart (blanks ++ plain ++ rest) = plain ++ rest := by
        rw [List.append_assoc, hc]
        exact (stopsAt_cons hblank (cs ++ rest)).dropWhile_append hblanks
      have hafter : StopsAt isNameStart (blanks ++ plain ++ rest) := by
        cases blanks with
        | cons b bs =>
            exact stopsAt_cons
              (isNameStart_of_isBlank (hblanks b (List.mem_cons_self ..))) _
        | nil =>
            -- without a gap the spec itself comes next, with no identifier
            rw [List.nil_append, hc]
            refine stopsAt_cons (Bool.eq_false_iff.mpr fun hstart => ?_) _
            rw [hc] at hhead
            obtain ⟨ds, hspecHead⟩ := List.head?_eq_some_iff.mp hhead.symm
            exact hkept (hapart c ds hspecHead hstart) rfl
      rw [List.append_assoc, importDecl?_spec hafter, htrim, hplain.spec? rest,
        Option.map_some]
      rintro body heq
      rw [htrim, hc] at heq
      exact hparenthesis (List.cons.inj heq).1
  | @group gap body _ hgap hbody =>
      obtain ⟨blanks, hgapLeaves, hblanks, -⟩ := hgap.leaves_blanks
      obtain ⟨plain, hbodyLeaves, hclosed, hliterals⟩ := hbody.leaves
      have hleftLeaves : Leaves ['('] ['('] :=
        leaves_of_isPlain (by simp [IsPlain, backquote])
      have hrightLeaves : Leaves [')'] [')'] :=
        leaves_of_isPlain (by simp [IsPlain, backquote])
      refine ⟨blanks ++ '(' :: plain ++ [')'], ?_, fun rest => ?_⟩
      · have hleaves := (isName_importWord.leaves.append hgapLeaves).append
          (hleftLeaves.append (hbodyLeaves.append hrightLeaves))
        simpa using hleaves
      · have htext : importWord ++ (blanks ++ '(' :: plain ++ [')']) ++ rest
            = importWord ++ (blanks ++ ('(' :: plain ++ ')' :: rest)) := by
          simp
        have htrim : trimStart (blanks ++ ('(' :: plain ++ ')' :: rest))
            = '(' :: plain ++ ')' :: rest :=
          (stopsAt_cons (by decide) _).dropWhile_append hblanks
        have hafter :
            StopsAt isNameStart (blanks ++ ('(' :: plain ++ ')' :: rest)) := by
          cases blanks with
          | nil => exact stopsAt_cons (by decide) _
          | cons b bs =>
              exact stopsAt_cons
                (isNameStart_of_isBlank (hblanks b (List.mem_cons_self ..))) _
        rw [htext, importDecl?_group hafter htrim hclosed, hliterals]

/-! ## Where the declarations end -/

/-- Separators at the head of the comment-free text are left by a gap, unless
nothing follows them. -/
theorem exists_gap_of_dropWhile {c : Char} {more : List Char} :
    ∀ cs : List Char, (uncomment cs).dropWhile isSeparator = c :: more →
      ∃ gap tail, Gap isSeparator gap ∧ cs = gap ++ tail
        ∧ uncomment tail = c :: more := by
  intro cs
  induction h : cs.length using Nat.strongRecOn generalizing cs with
  | ind n ih =>
      subst h
      intro hdrop
      -- a separator in front is dropped, and what is behind it is shorter
      have hskip : ∀ {d : Char} {rest : List Char}, isSeparator d = true →
          uncomment cs = d :: uncomment rest → rest.length < cs.length →
          ∃ gap tail, Gap isSeparator gap ∧ rest = gap ++ tail
            ∧ uncomment tail = c :: more := by
        intro d rest hd heq hlen
        rw [heq, List.dropWhile_cons, if_pos hd] at hdrop
        exact ih _ hlen rest rfl hdrop
      rcases head_cases cs with rfl | ⟨rest, rfl⟩ | ⟨rest, rfl⟩ |
        ⟨d, rest, rfl, hhead⟩
      · cases hdrop
      · rcases lineComment_cases rest with hend | ⟨text, rest, htext, rfl, hend⟩
        · rw [hend] at hdrop
          cases hdrop
        · obtain ⟨gap, tail, hgap, rfl, htail⟩ :=
            hskip (by decide) hend (by simp; omega)
          exact ⟨_, tail, hgap.lineComment htext, by simp, htail⟩
      · have hgapChar : ∀ feed, isSeparator (blockGap feed) = true := by
          decide
        rcases blockComment_cases rest with
          ⟨feed, hend⟩ | ⟨text, rest, feed, htext, rfl, hend⟩
        · rw [hend, List.dropWhile_cons, if_pos (hgapChar feed)] at hdrop
          cases hdrop
        · obtain ⟨gap, tail, hgap, rfl, htail⟩ :=
            hskip (hgapChar feed) hend (by simp; omega)
          exact ⟨_, tail, hgap.blockComment htext, by simp, htail⟩
      · by_cases hd : isSeparator d = true
        · have hplain := uncomment_cons (isPlain_of_isSeparator hd) rest
          obtain ⟨gap, tail, hgap, rfl, htail⟩ := hskip hd hplain (by simp)
          exact ⟨d :: gap, tail, hgap.char hd, rfl, htail⟩
        · rw [hhead, List.dropWhile_cons, if_neg hd] at hdrop
          exact ⟨[], d :: rest, Gap.nil, rfl, hhead.trans hdrop⟩

/-- After the word and a character that may go on with an identifier, no
declaration is read: the character starts no identifier and no path. -/
theorem importDecl?_eq_none {c : Char} (h : isNameChar c = true)
    (cs : List Char) :
    importDecl? (importWord ++ c :: cs) = none := by
  by_cases hstart : isNameStart c = true
  · have hword : afterHead? "import".toList (importWord ++ c :: cs)
        = some (c :: cs) :=
      afterHead?_eq_some_iff.mpr rfl
    rw [importDecl?, hword]
    exact if_pos hstart
  · have htrim : trimStart (c :: cs) = c :: cs :=
      (stopsAt_cons (isBlank_of_isNameChar h) cs).dropWhile
    have halias : afterAlias (c :: cs) = c :: cs := by
      have hnone : identifier? (c :: cs) = none := if_neg hstart
      unfold afterAlias
      rw [hnone]
      split
      · next heq => cases heq
      · next heq => cases heq
      · next rest _ heq =>
          exact absurd (List.cons.inj heq).1 (ne_of_kind h (by decide))
      · rfl
    rw [importDecl?_spec (stopsAt_cons (Bool.eq_false_iff.mpr hstart) cs),
      htrim, spec?, halias, literal?_eq_none (not_isQuote_of_isNameChar h),
      Option.map_none]
    rw [htrim]
    exact fun body heq => ne_of_kind h (by decide) (List.cons.inj heq).1

theorem importPaths_eq_nil {cs : List Char}
    (h : importDecl? (cs.dropWhile isSeparator) = none) :
    importPaths cs = [] := by
  rw [importPaths]
  split
  · rfl
  · next heq =>
      rw [h] at heq
      cases heq

/-- Nothing is read from a text that does not start with the word of a
declaration. -/
theorem importPaths_of_not_startsWithImport {text : List Char}
    (h : ¬StartsWithImport text) :
    importPaths (uncomment text) = [] := by
  refine importPaths_eq_nil ?_
  cases hword :
      afterHead? "import".toList ((uncomment text).dropWhile isSeparator) with
  | none => rw [importDecl?, hword]
  | some after =>
      have hdrop := afterHead?_eq_some_iff.mp hword
      obtain ⟨gap, tail, hgap, rfl, htail⟩ := exists_gap_of_dropWhile text hdrop
      have hletters : ∀ c ∈ importWord, IsWordChar c := fun c hc =>
        isWordChar_of_isNameChar (isName_importWord.2 c hc)
      obtain ⟨rest, rfl, rfl⟩ := exists_of_uncomment_eq_append hletters htail
      have hnext : ∃ c cs, rest = c :: cs ∧ isNameChar c = true := by
        refine Classical.byContradiction fun hnone =>
          h ⟨gap, rest, hgap, by simp, ?_⟩
        intro c cs heq
        exact Bool.eq_false_iff.mpr fun hc => hnone ⟨c, cs, heq, hc⟩
      obtain ⟨c, cs, rfl, hc⟩ := hnext
      rw [hdrop, uncomment_cons (isWordChar_of_isNameChar hc).1]
      exact importDecl?_eq_none hc _

/-! ## All declarations -/

theorem importPaths_of_importDecl? {cs rest : List Char}
    {paths : List (List Char)}
    (h : importDecl? (cs.dropWhile isSeparator) = some (paths, rest)) :
    importPaths cs = paths ++ importPaths rest := by
  rw [importPaths]
  split
  · next heq =>
      rw [h] at heq
      cases heq
  · next paths' rest' heq =>
      obtain ⟨rfl, rfl⟩ := Prod.mk.inj (Option.some.inj (h.symm.trans heq))
      rfl

theorem importPaths_append {seps : List Char}
    (h : ∀ c ∈ seps, isSeparator c = true) (cs : List Char) :
    importPaths (seps ++ cs) = importPaths cs := by
  have hdrop : (seps ++ cs).dropWhile isSeparator = cs.dropWhile isSeparator :=
    List.dropWhile_append_of_pos h
  cases hread : importDecl? (cs.dropWhile isSeparator) with
  | none => rw [importPaths_eq_nil hread, importPaths_eq_nil (hdrop ▸ hread)]
  | some read =>
      rw [importPaths_of_importDecl? hread,
        importPaths_of_importDecl? (hdrop ▸ hread)]

/-- The declarations behind the package name are read one after the other, each
in full, and the name ends before them. -/
theorem AfterName.importPaths {more : List Char} {paths : List (List Char)}
    (h : AfterName more paths) :
    importPaths (uncomment more) = paths
      ∧ StopsAt isNameChar (uncomment more) := by
  have hstops : ∀ {seps : List Char}, (∀ c ∈ seps, isSeparator c = true) →
      StopsAt isNameChar seps := by
    rintro _ hseps c cs rfl
    exact isNameChar_of_isSeparator (hseps c (List.mem_cons_self ..))
  induction h with
  | @rest gap rest hgap hne hrest =>
      obtain ⟨seps, hleaves, hseps, hkept⟩ := hgap.leaves_separators
      rw [hleaves rest]
      refine ⟨?_, (hstops hseps).append (hkept hne) _⟩
      rw [importPaths_append hseps, importPaths_of_not_startsWithImport hrest]
  | @lastComment gap text hgap htext =>
      obtain ⟨seps, hleaves, hseps, -⟩ := hgap.leaves_separators
      rw [hleaves, uncomment_lastComment htext]
      refine ⟨?_, ?_⟩
      · rw [importPaths_append hseps]
        exact importPaths_eq_nil rfl
      · rw [List.append_nil]
        exact hstops hseps
  | @declaration gap decl more paths paths' hgap hne hdecl _ ih =>
      obtain ⟨seps, hgapLeaves, hseps, hkept⟩ := hgap.leaves_separators
      obtain ⟨after, hdeclLeaves, hread⟩ := hdecl.leaves
      have htext : uncomment (gap ++ decl ++ more)
          = seps ++ (importWord ++ after ++ uncomment more) := by
        rw [List.append_assoc, hgapLeaves, hdeclLeaves]
      have hdrop : (importWord ++ after ++ uncomment more).dropWhile isSeparator
          = importWord ++ after ++ uncomment more :=
        (stopsAt_cons (by decide) _ : StopsAt isSeparator ('i' :: _)).dropWhile
      rw [htext]
      refine ⟨?_, (hstops hseps).append (hkept hne) _⟩
      rw [importPaths_append hseps,
        importPaths_of_importDecl? (by rw [hdrop]; exact hread _), ih.1]

/-! ## The header -/

theorem clauseFrom?_of_clause? {cs : List Char} {read : List Char × List Char}
    (h : clause? cs = some read) : clauseFrom? true cs = some read := by
  cases cs with
  | nil => cases h
  | cons c cs => rw [clauseFrom?, if_pos rfl, h]

theorem isName_packageWord : IsName packageWord :=
  isName_cons (by decide) (by decide : packageWord.all isNameChar = true)

/-- The name of the package and what follows it, in a text without comments. -/
theorem clause?_append {lead gap name rest : List Char}
    (hlead : ∀ c ∈ lead, isBlank c = true) (hgap : ∀ c ∈ gap, isBlank c = true)
    (hne : gap ≠ []) (hname : IsName name) (hrest : StopsAt isNameChar rest) :
    clause? (lead ++ (packageWord ++ (gap ++ (name ++ rest))))
      = some (name, rest) := by
  obtain ⟨b, bs, rfl⟩ := List.exists_cons_of_ne_nil hne
  obtain ⟨hb, hbs⟩ := List.forall_mem_cons.mp hgap
  have hread := hname.identifier? hrest
  obtain ⟨⟨c, cs, rfl, hstart⟩, -⟩ := hname
  have hfirst : isBlank c = false :=
    isBlank_of_isNameChar (isNameChar_of_isNameStart hstart)
  have hlead :
      trimStart (lead ++ (packageWord ++ (b :: bs ++ (c :: cs ++ rest))))
        = packageWord ++ (b :: bs ++ (c :: cs ++ rest)) := by
    have hstops : ∀ cs, StopsAt isBlank ('p' :: cs) := stopsAt_cons (by decide)
    exact (hstops _).dropWhile_append hlead
  have hword :
      afterHead? "package".toList
          (packageWord ++ (b :: bs ++ (c :: cs ++ rest)))
        = some (b :: bs ++ (c :: cs ++ rest)) :=
    afterHead?_eq_some_iff.mpr rfl
  have hname : trimStart (bs ++ (c :: cs ++ rest)) = c :: cs ++ rest :=
    (stopsAt_cons hfirst _).dropWhile_append hbs
  rw [clause?, hlead, hword]
  simp only [List.cons_append, if_pos hb]
  rw [← List.cons_append, hname, hread]

/-- A file is read as the name and the paths that its text declares, whatever
white space, comments, alias forms and groups the text is laid out with. -/
theorem ofText?_of_sourceText {text name : List Char} {paths : List (List Char)}
    (h : SourceText text name paths) :
    FileHeader.ofText? (String.ofList text) = some {
      package := String.ofList name
      imports := paths.map String.ofList
      constraints := Constraints.ofText text } := by
  obtain ⟨hlead, hgap, hne, hname, hmore⟩ := h
  obtain ⟨leadPlain, hleadLeaves, hleadBlank, -⟩ := hlead.leaves_blanks
  obtain ⟨gapPlain, hgapLeaves, hgapBlank, hkept⟩ := hgap.leaves_blanks
  obtain ⟨hpaths, hstops⟩ := hmore.importPaths
  have hclause := clauseFrom?_of_clause?
    (clause?_append hleadBlank hgapBlank (hkept hne) hname hstops)
  have hleaves := (hleadLeaves.append isName_packageWord.leaves).append
    (hgapLeaves.append hname.leaves)
  rename_i lead gap more
  have hplain : uncomment (lead ++ packageWord ++ gap ++ name ++ more)
      = leadPlain
        ++ (packageWord ++ (gapPlain ++ (name ++ uncomment more))) := by
    simpa using hleaves more
  rw [FileHeader.ofText?, String.toList_ofList, hplain, hclause]
  simp only [Option.bind_eq_bind, Option.bind_some, hpaths]
  rfl

/-- Comments around the word, a group with two forms of alias, and a closing
parenthesis in a comment. -/
def crowded : String := "//go\npackage /**/ m;import(_ `a`/* ) */. \"b\")\nx"

theorem sourceText_crowded :
    SourceText crowded.toList ['m'] [['a'], ['b']] := by
  have hblank : ∀ c, isBlank c = true →
      ∀ {gap}, Gap isBlank gap → Gap isBlank (c :: gap) :=
    fun _ hc _ => Gap.char hc
  have hlead : Gap isBlank ('/' :: '/' :: ['g', 'o'] ++ ['\n'] ++ []) :=
    Gap.lineComment (by decide) Gap.nil
  have hgap : Gap isBlank (' ' :: ('/' :: '*' :: [] ++ blockEnd ++ [' '])) :=
    hblank ' ' (by decide)
      (Gap.blockComment (by decide) (hblank ' ' (by decide) Gap.nil))
  have hunder :
      Spec ((['_'] ++ [' ']) ++ (backquote :: ['a'] ++ [backquote])) ['a'] :=
    Spec.mk
      (Alias.name (isName_cons (by decide) (by decide))
        (hblank ' ' (by decide) Gap.nil) (by decide))
      (Literal.raw (by simp [IsPath, backquote]))
  have hdot : Spec ('.' :: [' '] ++ ('"' :: ['b'] ++ ['"'])) ['b'] :=
    Spec.mk (Alias.dot (hblank ' ' (by decide) Gap.nil))
      (Literal.quoted (by simp [IsPath, backquote]))
  have hcomment :
      Gap isSeparator ('/' :: '*' :: [' ', ')', ' '] ++ blockEnd ++ []) :=
    Gap.blockComment (by decide) Gap.nil
  have hgroup := Declaration.group Gap.nil
    (Group.spec Gap.nil hunder (Group.spec hcomment hdot (Group.done Gap.nil)))
  have hrest : ¬StartsWithImport ['x'] := by
    rintro ⟨gap, rest, hgap, heq, -⟩
    cases hgap with
    | nil => exact absurd (List.cons.inj heq).1 (by decide)
    | char hc _ =>
        obtain ⟨rfl, -⟩ := List.cons.inj heq
        exact absurd hc (by decide)
    | lineComment _ _ => exact absurd (List.cons.inj heq).1 (by decide)
    | blockComment _ _ => exact absurd (List.cons.inj heq).1 (by decide)
  have hsemicolon : Gap isSeparator [';'] := Gap.char (by decide) Gap.nil
  have hfeed : Gap isSeparator ['\n'] := Gap.char (by decide) Gap.nil
  have hmore := AfterName.declaration hsemicolon (by decide) hgroup
    (AfterName.rest hfeed (by decide) hrest)
  have hname : IsName ['m'] := isName_cons (by decide) (by decide)
  exact SourceText.mk hlead hgap (by decide) hname hmore

theorem ofText?_of_sourceText_crowded :
    SourceText crowded.toList ['m'] [['a'], ['b']]
      ∧ FileHeader.ofText? (String.ofList crowded.toList) = some {
        package := "m"
        imports := ["a", "b"]
        constraints := Constraints.ofText crowded.toList } :=
  ⟨sourceText_crowded, ofText?_of_sourceText sourceText_crowded⟩

end ImportChart.Source
