import ImportChart.Proofs.HeaderReading

/-!
# Where build constraints are read

Above its package clause a file holds white space and comments, in any mix: a
list of pieces (`gap_iff_exists_leadText`). The reader of constraints goes
through this text line by line, up to the first line that starts with the word
of the clause, and does not ask in which comment a line stands.

So it reads the line comments that open their lines, and these alone, if two
things hold: the clause opens its line, and no line within a block comment looks
like a constraint or like the clause (`Head.IsQuiet`). Then the text behind the
clause has no say (`Head.constraints_of_isQuiet`). Without them a block comment
can give a constraint or hide one, and so can the body of the file
(`constraints_from_elsewhere`).
-/

namespace ImportChart.Source

open ImportChart.Text

/-! ## Lines -/

/-- The constraints of the lines above a package clause, each without the blanks
around it. -/
def Constraints.ofLines (lines : List (List Char)) : Constraints where
  expression := (lines.findSome? expressionOf?).map String.ofList
  optionLines := (lines.filterMap optionsOf?).map String.ofList

/-- A line that gives a constraint. -/
def isConstraint (line : List Char) : Bool :=
  (expressionOf? line).isSome || (optionsOf? line).isSome

/-- The lines above the clause of a text that give a constraint. -/
def constraintLines (text : List Char) : List (List Char) :=
  (linesAbovePackage text).filter isConstraint

theorem filterMap_filter_isConstraint {α : Type}
    {read : List Char → Option α}
    (hread : ∀ line, isConstraint line = false → read line = none)
    (lines : List (List Char)) :
    (lines.filter isConstraint).filterMap read = lines.filterMap read := by
  have hkept : (fun line => if isConstraint line = true then read line else none)
      = read := by
    funext line
    by_cases h : isConstraint line = true
    · rw [if_pos h]
    · rw [if_neg h, hread line (Bool.eq_false_iff.mpr h)]
  rw [List.filterMap_filter, hkept]

theorem isConstraint_eq_false_iff {line : List Char} :
    isConstraint line = false
      ↔ expressionOf? line = none ∧ optionsOf? line = none := by
  rw [isConstraint, Bool.or_eq_false_iff, Option.isSome_eq_false_iff,
    Option.isSome_eq_false_iff, Option.isNone_iff_eq_none,
    Option.isNone_iff_eq_none]

/-- Only lines that give a constraint count. -/
theorem ofLines_eq_of_filter_eq {lines others : List (List Char)}
    (h : lines.filter isConstraint = others.filter isConstraint) :
    Constraints.ofLines lines = Constraints.ofLines others := by
  have hexpression : ∀ line, isConstraint line = false →
      expressionOf? line = none :=
    fun _ hline => (isConstraint_eq_false_iff.mp hline).1
  have hoptions : ∀ line, isConstraint line = false → optionsOf? line = none :=
    fun _ hline => (isConstraint_eq_false_iff.mp hline).2
  rw [Constraints.ofLines, Constraints.ofLines, ← List.head?_filterMap,
    ← List.head?_filterMap, ← filterMap_filter_isConstraint hexpression lines,
    ← filterMap_filter_isConstraint hexpression others,
    ← filterMap_filter_isConstraint hoptions lines,
    ← filterMap_filter_isConstraint hoptions others, h]

/-! ## Quiet lines -/

/-- A line that neither gives a constraint nor starts with the word of a
clause. -/
structure IsQuiet (line : List Char) : Prop where
  noClause : ¬packageWord <+: line
  noConstraint : isConstraint line = false

theorem isQuiet_iff {line : List Char} :
    IsQuiet line ↔ ¬packageWord <+: line ∧ isConstraint line = false :=
  ⟨fun h => ⟨h.noClause, h.noConstraint⟩, fun h => ⟨h.1, h.2⟩⟩

instance : DecidablePred IsQuiet := fun _ => decidable_of_iff _ isQuiet_iff.symm

theorem expressionOf?_isSome_iff {line : List Char} :
    (expressionOf? line).isSome = true ↔ "//go:build".toList <+: line := by
  rw [expressionOf?, Option.isSome_map, afterHead?]
  split
  · next h => simpa [List.isPrefixOf_iff_prefix] using h
  · next h => simpa [List.isPrefixOf_iff_prefix] using h

theorem optionsOf?_eq_some_iff {line options : List Char} :
    optionsOf? line = some options
      ↔ ∃ blanks rest, line = "//".toList ++ blanks ++ "+build".toList ++ rest
        ∧ (∀ c ∈ blanks, isBlank c = true) ∧ rest.head?.all isBlank = true
        ∧ options = trim rest := by
  constructor
  · intro h
    obtain ⟨comment, hcomment, h⟩ := Option.bind_eq_some_iff.mp h
    obtain ⟨rest, hrest, h⟩ := Option.bind_eq_some_iff.mp h
    split at h
    · next hblank =>
        refine ⟨comment.takeWhile isBlank, rest, ?_, isBlank_of_mem_takeWhile,
          hblank, (Option.some.inj h).symm⟩
        rw [afterHead?_eq_some_iff.mp hcomment, List.append_assoc,
          List.append_assoc, ← afterHead?_eq_some_iff.mp hrest, trimStart,
          List.takeWhile_append_dropWhile]
    · cases h
  · rintro ⟨blanks, rest, rfl, hblanks, hrest, rfl⟩
    have hcomment : afterHead? "//".toList
        ("//".toList ++ blanks ++ "+build".toList ++ rest)
          = some (blanks ++ ("+build".toList ++ rest)) :=
      afterHead?_eq_some_iff.mpr (by simp)
    have hstops : StopsAt isBlank ("+build".toList ++ rest) :=
      stopsAt_cons (by decide) _
    have hbuild : trimStart (blanks ++ ("+build".toList ++ rest))
        = "+build".toList ++ rest :=
      hstops.dropWhile_append hblanks
    have hoptions :
        afterHead? "+build".toList ("+build".toList ++ rest) = some rest :=
      afterHead?_eq_some_iff.mpr rfl
    rw [optionsOf?, hcomment, Option.bind_eq_bind, Option.bind_some, hbuild,
      hoptions, Option.bind_some, if_pos hrest]

theorem optionsOf?_isSome_iff {line : List Char} :
    (optionsOf? line).isSome = true
      ↔ ∃ blanks rest, line = "//".toList ++ blanks ++ "+build".toList ++ rest
        ∧ (∀ c ∈ blanks, isBlank c = true) ∧ rest.head?.all isBlank = true := by
  rw [Option.isSome_iff_exists]
  constructor
  · rintro ⟨options, h⟩
    obtain ⟨blanks, rest, hline, hblanks, hrest, -⟩ :=
      optionsOf?_eq_some_iff.mp h
    exact ⟨blanks, rest, hline, hblanks, hrest⟩
  · rintro ⟨blanks, rest, hline, hblanks, hrest⟩
    exact ⟨trim rest,
      optionsOf?_eq_some_iff.mpr ⟨blanks, rest, hline, hblanks, hrest, rfl⟩⟩

theorem isConstraint_iff {line : List Char} :
    isConstraint line = true ↔ "//go:build".toList <+: line
      ∨ ∃ blanks rest, line = "//".toList ++ blanks ++ "+build".toList ++ rest
        ∧ (∀ c ∈ blanks, isBlank c = true) ∧ rest.head?.all isBlank = true := by
  rw [isConstraint, Bool.or_eq_true, expressionOf?_isSome_iff,
    optionsOf?_isSome_iff]

/-- A line that is a constraint starts as a line comment does. -/
theorem slashes_prefix_of_isConstraint {line : List Char}
    (h : isConstraint line = true) : "//".toList <+: line := by
  rcases isConstraint_iff.mp h with hexpression | ⟨blanks, rest, rfl, -, -⟩
  · exact (by decide : "//".toList <+: "//go:build".toList).trans hexpression
  · rw [List.append_assoc, List.append_assoc]
    exact List.prefix_append _ _

theorem isQuiet_nil : IsQuiet [] := ⟨by decide, by decide⟩

/-- A line that a block comment opens says nothing, whatever it holds. -/
theorem isQuiet_of_blockComment (cs : List Char) : IsQuiet ('/' :: '*' :: cs) where
  noClause h := absurd (List.cons_prefix_cons.mp h).1 (by decide)
  noConstraint := by
    refine Bool.eq_false_iff.mpr fun h => ?_
    have hslashes := (List.cons_prefix_cons.mp (slashes_prefix_of_isConstraint h)).2
    exact absurd (List.cons_prefix_cons.mp hslashes).1 (by decide)

/-- A prefix that ends in a character that is kept is still one when the end of
the line is trimmed. -/
theorem prefix_dropEndWhile {line : List Char} (word : List Char) (c : Char)
    (h : isBlank c = false) (hstart : word ++ [c] <+: line) :
    word ++ [c] <+: dropEndWhile isBlank line := by
  obtain ⟨rest, rfl⟩ := hstart
  rw [List.append_assoc, List.singleton_append, dropEndWhile_append h]
  exact ⟨dropEndWhile isBlank rest, by simp⟩

theorem all_head?_of_prefix {p : Char → Bool} {front text : List Char}
    (hstart : front <+: text) (h : text.head?.all p = true) :
    front.head?.all p = true := by
  cases front with
  | nil => rfl
  | cons c cs =>
      obtain ⟨rest, rfl⟩ := hstart
      exact h

/-- What makes a line a constraint stands before the first star. -/
theorem isConstraint_of_append_star {line rest : List Char}
    (h : isConstraint (line ++ '*' :: rest) = true) :
    isConstraint line = true := by
  refine isConstraint_iff.mpr ?_
  rcases isConstraint_iff.mp h with
    hexpression | ⟨blanks, options, heq, hblanks, hoptions⟩
  · exact Or.inl (prefix_of_prefix_append (by decide) hexpression)
  · have hnoStar : '*' ∉ "//".toList ++ blanks ++ "+build".toList := by
      have hblank : '*' ∉ blanks := fun hmem =>
        absurd (hblanks '*' hmem) (by decide)
      simp [hblank]
    obtain ⟨more, rfl⟩ := prefix_of_prefix_append hnoStar ⟨options, heq.symm⟩
    rw [List.append_assoc, List.append_cancel_left_eq] at heq
    exact Or.inr ⟨blanks, more, rfl, hblanks,
      all_head?_of_prefix ⟨'*' :: rest, heq⟩ hoptions⟩

theorem dropEndWhile_buildComment (blanks options : List Char) :
    dropEndWhile isBlank ("//".toList ++ blanks ++ "+build".toList ++ options)
      = "//".toList ++ blanks ++ "+build".toList
        ++ dropEndWhile isBlank options := by
  have hend := dropEndWhile_append (p := isBlank) (c := 'd') (by decide)
    ("//".toList ++ blanks ++ "+buil".toList) options
  simpa using hend

/-- A constraint stays one when the end of its line is trimmed. -/
theorem isConstraint_dropEndWhile {line : List Char}
    (h : isConstraint line = true) :
    isConstraint (dropEndWhile isBlank line) = true := by
  refine isConstraint_iff.mpr ?_
  rcases isConstraint_iff.mp h with
    hexpression | ⟨blanks, options, rfl, hblanks, hoptions⟩
  · exact Or.inl (prefix_dropEndWhile "//go:buil".toList 'd' (by decide)
      hexpression)
  · exact Or.inr ⟨blanks, dropEndWhile isBlank options,
      dropEndWhile_buildComment blanks options, hblanks,
      all_head?_of_prefix (dropEndWhile_prefix_self isBlank options) hoptions⟩

/-- A line of a block comment that says nothing says nothing either with the end
of the comment and all that follows. -/
theorem IsQuiet.append_star {line : List Char} (h : IsQuiet (trim line))
    (back : List Char) : IsQuiet (trim (line ++ '*' :: back)) := by
  have htrim : trim line = dropEndWhile isBlank (trimStart line) := rfl
  rw [htrim] at h
  rw [trim_append (by decide)]
  refine ⟨fun hclause => h.noClause ?_, Bool.eq_false_iff.mpr fun hline => ?_⟩
  · have hword := prefix_of_prefix_append (by decide) hclause
    exact prefix_dropEndWhile "packag".toList 'e' (by decide) hword
  · have hkept := isConstraint_dropEndWhile (isConstraint_of_append_star hline)
    exact Bool.eq_false_iff.mp h.noConstraint hkept

/-! ## Line by line -/

theorem linesAbovePackage_append {line : List Char} (h : '\n' ∉ line)
    (rest : List Char) :
    linesAbovePackage (line ++ '\n' :: rest)
      = if packageWord <+: trim line then []
        else trim line :: linesAbovePackage rest := by
  rw [linesAbovePackage, lines_append_cons h, List.map_cons, List.takeWhile_cons]
  by_cases hclause : packageWord <+: trim line
  · have hword : "package".toList.isPrefixOf (trim line) = true :=
      List.isPrefixOf_iff_prefix.mpr hclause
    rw [if_pos hclause, hword]
    rfl
  · have hword : "package".toList.isPrefixOf (trim line) = false :=
      Bool.eq_false_iff.mpr fun h => hclause (List.isPrefixOf_iff_prefix.mp h)
    rw [if_neg hclause, hword]
    rfl

/-- A quiet line is passed over. -/
theorem IsQuiet.constraintLines_append {line : List Char}
    (hquiet : IsQuiet (trim line)) (h : '\n' ∉ line) (rest : List Char) :
    constraintLines (line ++ '\n' :: rest) = constraintLines rest := by
  rw [constraintLines, linesAbovePackage_append h, if_neg hquiet.noClause,
    List.filter_cons, if_neg (Bool.eq_false_iff.mp hquiet.noConstraint)]
  rfl

/-- A line comment that opens its line is read. -/
theorem constraintLines_lineComment {blanks text : List Char}
    (hblanks : ∀ c ∈ blanks, isBlank c = true) (hfeed : '\n' ∉ blanks)
    (htext : '\n' ∉ text) (rest : List Char) :
    constraintLines (blanks ++ '/' :: '/' :: text ++ '\n' :: rest)
      = [trim ('/' :: '/' :: text)].filter isConstraint
        ++ constraintLines rest := by
  have hstops : StopsAt isBlank ('/' :: '/' :: text) :=
    stopsAt_cons (by decide) _
  have htrim : trim (blanks ++ '/' :: '/' :: text)
      = trim ('/' :: '/' :: text) := by
    rw [trim_append_of_stopsAt hblanks hstops]
    exact (trim_append_of_stopsAt (List.forall_mem_nil _) hstops).symm
  have hslash : trim ('/' :: '/' :: text)
      = '/' :: dropEndWhile isBlank ('/' :: text) :=
    trim_append (by decide) [] ('/' :: text)
  have hclause : ¬packageWord <+: trim (blanks ++ '/' :: '/' :: text) := by
    rw [htrim, hslash]
    exact fun h => absurd (List.cons_prefix_cons.mp h).1 (by decide)
  rw [constraintLines, linesAbovePackage_append (by simp [hfeed, htext]),
    if_neg hclause, htrim, ← List.singleton_append, List.filter_append]
  rfl

/-- At the line of the clause the reader stops. -/
theorem linesAbovePackage_clause {blanks : List Char}
    (hblanks : ∀ c ∈ blanks, isBlank c = true) (hfeed : '\n' ∉ blanks)
    (rest : List Char) :
    linesAbovePackage (blanks ++ (packageWord ++ rest)) = [] := by
  have hclause : ∀ more,
      packageWord <+: trim (blanks ++ (packageWord ++ more)) := by
    intro more
    have hstops : StopsAt isBlank (packageWord ++ more) :=
      stopsAt_cons (by decide : isBlank 'p' = false) _
    rw [trim_append_of_stopsAt hblanks hstops]
    exact prefix_dropEndWhile "packag".toList 'e' (by decide)
      (List.prefix_append _ _)
  have hword : '\n' ∉ packageWord := by decide
  by_cases hrest : '\n' ∈ rest
  · obtain ⟨more, after, rfl, hmore⟩ := List.eq_append_cons_of_mem hrest
    have hline : blanks ++ (packageWord ++ (more ++ '\n' :: after))
        = (blanks ++ (packageWord ++ more)) ++ '\n' :: after := by
      simp only [List.append_assoc]
    rw [hline, linesAbovePackage_append (by simp [hfeed, hword, hmore]),
      if_pos (hclause more)]
  · have hlines : lines (blanks ++ (packageWord ++ rest))
        = [blanks ++ (packageWord ++ rest)] :=
      lines_of_not_mem (by simp [hfeed, hword, hrest])
    have hstart : "package".toList.isPrefixOf
        (trim (blanks ++ (packageWord ++ rest))) = true :=
      List.isPrefixOf_iff_prefix.mpr (hclause rest)
    rw [linesAbovePackage, hlines, List.map_singleton, List.takeWhile_cons,
      hstart]
    rfl

theorem constraintLines_clause {blanks : List Char}
    (hblanks : ∀ c ∈ blanks, isBlank c = true) (hfeed : '\n' ∉ blanks)
    (rest : List Char) :
    constraintLines (blanks ++ (packageWord ++ rest)) = [] := by
  rw [constraintLines, linesAbovePackage_clause hblanks hfeed]
  rfl

/-- Behind quiet lines the text goes on as if only the last of them, without its
line feed, stood there. -/
theorem exists_last_line (text : List Char)
    (h : ∀ line ∈ lines text, IsQuiet (trim line)) :
    ∃ last, '\n' ∉ last ∧ IsQuiet (trim last)
      ∧ ∀ rest, constraintLines (text ++ rest)
        = constraintLines (last ++ rest) := by
  by_cases hfeed : '\n' ∈ text
  · obtain ⟨line, more, heq, hline⟩ := List.eq_append_cons_of_mem hfeed
    have hshort : more.length < text.length := by
      rw [heq, List.length_append, List.length_cons]
      omega
    rw [heq, lines_append_cons hline, List.forall_mem_cons] at h
    obtain ⟨last, hlast, hquiet, hsame⟩ := exists_last_line more h.2
    refine ⟨last, hlast, hquiet, fun rest => ?_⟩
    rw [heq, List.append_assoc, List.cons_append,
      h.1.constraintLines_append hline, hsame]
  · rw [lines_of_not_mem hfeed, List.forall_mem_singleton] at h
    exact ⟨text, hfeed, h, fun _ => rfl⟩
termination_by text.length

/-! ## Piece by piece -/

/-- A piece of the text above a package clause. A line comment ends with its
line, a block comment at the first end. -/
inductive LeadPiece
  | blank (c : Char) (isBlank_c : isBlank c = true)
  | lineComment (text : List Char) (feed_not_mem : '\n' ∉ text)
  | blockComment (text : List Char) (noEnd : ¬blockEnd <:+: text)

namespace LeadPiece

def text : LeadPiece → List Char
  | blank c _ => [c]
  | lineComment text _ => '/' :: '/' :: text ++ ['\n']
  | blockComment text _ => '/' :: '*' :: text ++ blockEnd

/-- Whether only blanks stand on the line behind a piece, when `fresh` tells it
of the place before the piece. -/
def leavesFresh (fresh : Bool) : LeadPiece → Bool
  | blank c _ => fresh || c == '\n'
  | lineComment _ _ => true
  | blockComment _ _ => false

/-- A line comment that opens its line, without the blanks around it. -/
def opening (fresh : Bool) : LeadPiece → List (List Char)
  | lineComment text _ => if fresh then [trim ('/' :: '/' :: text)] else []
  | _ => []

/-- No line within a block comment looks like a constraint or like a clause. -/
def IsQuiet : LeadPiece → Prop
  | blockComment text _ => ∀ line ∈ (lines text).tail, Source.IsQuiet (trim line)
  | _ => True

instance : DecidablePred LeadPiece.IsQuiet
  | blank _ _ => .isTrue trivial
  | lineComment _ _ => .isTrue trivial
  | blockComment text _ =>
    inferInstanceAs
      (Decidable (∀ line ∈ (lines text).tail, Source.IsQuiet (trim line)))

end LeadPiece

/-- The text above a package clause. -/
def leadText (pieces : List LeadPiece) : List Char :=
  pieces.flatMap LeadPiece.text

/-- The line comments that open their lines. -/
def openings : Bool → List LeadPiece → List (List Char)
  | _, [] => []
  | fresh, piece :: pieces =>
    piece.opening fresh ++ openings (piece.leavesFresh fresh) pieces

/-- Whether the clause behind the pieces opens its line. -/
def endsFresh (pieces : List LeadPiece) : Bool :=
  pieces.foldl LeadPiece.leavesFresh true

theorem gap_leadText : ∀ pieces : List LeadPiece, Gap isBlank (leadText pieces)
  | [] => .nil
  | .blank _ hc :: pieces => .char hc (gap_leadText pieces)
  | .lineComment _ htext :: pieces =>
      .lineComment htext (gap_leadText pieces)
  | .blockComment _ htext :: pieces =>
      .blockComment htext (gap_leadText pieces)

/-- Any mix of white space and comments is made of pieces. -/
theorem gap_iff_exists_leadText {lead : List Char} :
    Gap isBlank lead ↔ ∃ pieces, lead = leadText pieces := by
  constructor
  · intro h
    induction h with
    | nil => exact ⟨[], rfl⟩
    | char hc _ ih =>
        obtain ⟨pieces, rfl⟩ := ih
        exact ⟨.blank _ hc :: pieces, rfl⟩
    | lineComment htext _ ih =>
        obtain ⟨pieces, rfl⟩ := ih
        exact ⟨.lineComment _ htext :: pieces, rfl⟩
    | blockComment htext _ ih =>
        obtain ⟨pieces, rfl⟩ := ih
        exact ⟨.blockComment _ htext :: pieces, rfl⟩
  · rintro ⟨pieces, rfl⟩
    exact gap_leadText pieces

/-- `Before fresh front`: `front` stands on a line before the next piece. It is
blank, or what it holds keeps the line quiet whatever comes. -/
def Before (fresh : Bool) (front : List Char) : Prop :=
  '\n' ∉ front ∧ if fresh then ∀ c ∈ front, isBlank c = true
    else ∀ back, IsQuiet (trim (front ++ back))

theorem before_nil : Before true [] := ⟨by simp, by simp⟩

theorem Before.append_blank {fresh : Bool} {front : List Char} {c : Char}
    (h : Before fresh front) (hc : isBlank c = true) (hne : c ≠ '\n') :
    Before fresh (front ++ [c]) := by
  refine ⟨by simp [h.1, Ne.symm hne], ?_⟩
  cases fresh with
  | true => simpa [or_imp, forall_and, hc] using h.2
  | false => exact fun back => by simpa using h.2 ([c] ++ back)

/-- A line before a line feed is quiet. -/
theorem Before.isQuiet {fresh : Bool} {front : List Char}
    (h : Before fresh front) : IsQuiet (trim front) := by
  cases fresh with
  | true =>
      rw [trim_of_blanks h.2]
      exact isQuiet_nil
  | false => simpa using h.2 []

/-- A line on which a block comment starts is quiet. -/
theorem Before.isQuiet_blockComment {fresh : Bool} {front : List Char}
    (h : Before fresh front) (back : List Char) :
    IsQuiet (trim (front ++ '/' :: '*' :: back)) := by
  cases fresh with
  | true =>
      rw [trim_append_of_stopsAt h.2 (stopsAt_cons (by decide) _)]
      have hkept := dropEndWhile_append (p := isBlank) (c := '*') (by decide)
        ['/'] back
      rw [List.singleton_append] at hkept
      rw [hkept]
      exact isQuiet_of_blockComment _
  | false => exact h.2 _

/-- Whatever a block comment holds, if it is quiet the line behind it is quiet
too, and the reader has met no constraint. -/
theorem Before.exists_blockComment {fresh : Bool} {front text : List Char}
    (h : Before fresh front)
    (hquiet : ∀ line ∈ (lines text).tail, IsQuiet (trim line)) :
    ∃ front', Before false front' ∧ ∀ rest,
      constraintLines (front ++ ('/' :: '*' :: text ++ blockEnd ++ rest))
        = constraintLines (front' ++ rest) := by
  by_cases hfeed : '\n' ∈ text
  · obtain ⟨line, more, rfl, hline⟩ := List.eq_append_cons_of_mem hfeed
    rw [lines_append_cons hline, List.tail_cons] at hquiet
    obtain ⟨last, hlast, hlastQuiet, hsame⟩ := exists_last_line more hquiet
    refine ⟨last ++ blockEnd, ⟨by simp [hlast, blockEnd], fun back => ?_⟩, ?_⟩
    · rw [List.append_assoc]
      exact hlastQuiet.append_star _
    · intro rest
      have htext : front ++ ('/' :: '*' :: (line ++ '\n' :: more) ++ blockEnd ++ rest)
          = (front ++ '/' :: '*' :: line) ++ '\n' :: (more ++ (blockEnd ++ rest)) := by
        simp
      rw [htext, (h.isQuiet_blockComment line).constraintLines_append
        (by simp [h.1, hline]), hsame, List.append_assoc]
  · refine ⟨front ++ ('/' :: '*' :: text ++ blockEnd),
      ⟨by simp [h.1, hfeed, blockEnd], fun back => ?_⟩, fun rest => ?_⟩
    · have hopen := h.isQuiet_blockComment (text ++ blockEnd ++ back)
      simpa using hopen
    · simp only [List.append_assoc]

/-- Of each piece the reader meets the line comment that opens its line, if it is
one, and no other constraint. -/
theorem Before.exists_piece {fresh : Bool} {front : List Char}
    {piece : LeadPiece} (h : Before fresh front) (hquiet : piece.IsQuiet) :
    ∃ front', Before (piece.leavesFresh fresh) front' ∧ ∀ rest,
      constraintLines (front ++ (piece.text ++ rest))
        = (piece.opening fresh).filter isConstraint
          ++ constraintLines (front' ++ rest) := by
  cases piece with
  | blank c hc =>
      by_cases hfeed : c = '\n'
      · -- the line ends, and a new one starts
        subst hfeed
        have hfresh : (LeadPiece.blank '\n' hc).leavesFresh fresh = true := by
          simp [LeadPiece.leavesFresh]
        rw [hfresh]
        exact ⟨[], before_nil, h.isQuiet.constraintLines_append h.1⟩
      · have hfresh : (LeadPiece.blank c hc).leavesFresh fresh = fresh := by
          simp [LeadPiece.leavesFresh, hfeed]
        rw [hfresh]
        refine ⟨front ++ [c], h.append_blank hc hfeed, fun rest => ?_⟩
        rw [List.append_assoc]
        rfl
  | lineComment text hfeed =>
      refine ⟨[], before_nil, fun rest => ?_⟩
      have hline : front ++ ((LeadPiece.lineComment text hfeed).text ++ rest)
          = front ++ '/' :: '/' :: text ++ '\n' :: rest := by
        simp [LeadPiece.text]
      rw [hline]
      cases fresh with
      | true => exact constraintLines_lineComment h.2 h.1 hfeed rest
      | false =>
          exact (h.2 ('/' :: '/' :: text)).constraintLines_append
            (by simp [h.1, hfeed]) rest
  | blockComment text hend => exact h.exists_blockComment hquiet

/-- From any place above the clause on the reader meets the line comments that
open their lines, and no other constraint. -/
theorem constraintLines_leadText : ∀ {pieces : List LeadPiece} {fresh : Bool}
    {front : List Char}, (∀ piece ∈ pieces, piece.IsQuiet) →
    pieces.foldl LeadPiece.leavesFresh fresh = true → Before fresh front →
    ∀ rest, constraintLines (front ++ (leadText pieces ++ (packageWord ++ rest)))
      = (openings fresh pieces).filter isConstraint
  | [], fresh, front, _, hfresh, hfront, rest => by
      obtain rfl : fresh = true := hfresh
      exact constraintLines_clause hfront.2 hfront.1 rest
  | piece :: pieces, fresh, front, hquiet, hfresh, hfront, rest => by
      obtain ⟨hpiece, hpieces⟩ := List.forall_mem_cons.mp hquiet
      obtain ⟨front', hfront', hstep⟩ := hfront.exists_piece hpiece
      have hrest := constraintLines_leadText hpieces hfresh hfront' rest
      rw [openings, List.filter_append, ← hrest, ← hstep, leadText,
        List.flatMap_cons, List.append_assoc]
      rfl

/-! ## The constraints of a file -/

/-- The head of a file: what stands above its package clause, and the clause. -/
structure Head where
  pieces : List LeadPiece
  gap : List Char
  name : List Char
  isGap : Gap isBlank gap
  gap_ne_nil : gap ≠ []
  isName : IsName name

namespace Head

variable (head : Head)

/-- The text of a file with this head. -/
def withBody (body : List Char) : List Char :=
  leadText head.pieces ++ (packageWord ++ (head.gap ++ (head.name ++ body)))

/-- The clause opens its line, and no line within a block comment looks like a
constraint or like a clause. -/
structure IsQuiet : Prop where
  opensLine : endsFresh head.pieces = true
  pieces_isQuiet : ∀ piece ∈ head.pieces, piece.IsQuiet

/-- A file with a head can be read, whatever its body. -/
theorem exists_ofText? (body : List Char) :
    ∃ header, FileHeader.ofText? (String.ofList (head.withBody body)) = some header
      ∧ header.constraints = Constraints.ofText (head.withBody body) := by
  obtain ⟨lead, hleadLeaves, hleadBlank, -⟩ :=
    (gap_leadText head.pieces).leaves_blanks
  obtain ⟨gap, hgapLeaves, hgapBlank, hkept⟩ := head.isGap.leaves_blanks
  -- the name goes on for as long as the body lets it
  let run := (uncomment body).takeWhile isNameChar
  let rest := (uncomment body).dropWhile isNameChar
  have hbody : uncomment body = run ++ rest :=
    List.takeWhile_append_dropWhile.symm
  have hlong : IsName (head.name ++ run) := by
    obtain ⟨⟨c, cs, hname, hstart⟩, hchars⟩ := head.isName
    refine ⟨⟨c, cs ++ run, by rw [hname]; rfl, hstart⟩, fun d hd => ?_⟩
    rcases List.mem_append.mp hd with hd | hd
    · exact hchars d hd
    · exact List.all_eq_true.mp List.all_takeWhile d hd
  have hclause := clauseFrom?_of_clause? (clause?_append hleadBlank hgapBlank
    (hkept head.gap_ne_nil) hlong (stopsAt_dropWhile isNameChar (uncomment body)))
  have hplain : uncomment (head.withBody body)
      = lead ++ (packageWord ++ (gap ++ (head.name ++ run ++ rest))) := by
    rw [withBody, hleadLeaves, isName_packageWord.leaves, hgapLeaves,
      head.isName.leaves, hbody, List.append_assoc]
  refine ⟨{
    package := String.ofList (head.name ++ run)
    imports := (importPaths rest).map String.ofList
    constraints := Constraints.ofText (head.withBody body) }, ?_, rfl⟩
  rw [FileHeader.ofText?, String.toList_ofList, hplain, hclause]
  rfl

variable {head}

/-- The constraints of a file come from the line comments above its clause that
open their lines, and from nothing else, if the head is quiet: neither what a
block comment holds nor anything behind the clause changes them, or whether the
file is set aside. -/
theorem constraints_of_isQuiet (h : head.IsQuiet) (body : List Char) :
    ∃ header, FileHeader.ofText? (String.ofList (head.withBody body)) = some header
      ∧ header.constraints = .ofLines (openings true head.pieces)
      ∧ header.isSetAside
        = (Constraints.ofLines (openings true head.pieces)).ignores := by
  obtain ⟨header, hheader, hconstraints⟩ := head.exists_ofText? body
  have hlines : constraintLines (head.withBody body)
      = (openings true head.pieces).filter isConstraint :=
    constraintLines_leadText h.pieces_isQuiet h.opensLine before_nil
      (head.gap ++ (head.name ++ body))
  have hread : header.constraints = .ofLines (openings true head.pieces) := by
    rw [hconstraints]
    exact ofLines_eq_of_filter_eq hlines
  exact ⟨header, hheader, hread, by rw [FileHeader.isSetAside, hread]⟩

end Head

theorem not_infix_of_not_mem {c : Char} {text : List Char} (hc : c ∈ blockEnd)
    (h : c ∉ text) : ¬blockEnd <:+: text :=
  fun hend => h (hend.subset hc)

theorem isBlank_space : isBlank ' ' = true := by decide

/-- The clause `package x` below the pieces. -/
def headBelow (pieces : List LeadPiece) : Head where
  pieces := pieces
  gap := [' ']
  name := ['x']
  isGap := .char isBlank_space .nil
  gap_ne_nil := by decide
  isName := isName_cons (by decide) (by decide)

/-- A constraint below a block comment that names the package. -/
def guardedHead : Head := headBelow [
  .blockComment "Docs of\n * package x\n".toList
    (not_infix_of_not_mem (c := '/') (by decide) (by decide)),
  .blank '\n' (by decide),
  .lineComment "go:build ignore".toList (by decide),
  .blank '\n' (by decide)]

theorem Head.constraints_of_isQuiet_guardedHead :
    guardedHead.IsQuiet
      ∧ ("/*Docs of\n * package x\n*/\n//go:build ignore\n\n"
          ++ "package x\n\n//go:build linux").toList
        = guardedHead.withBody "\n\n//go:build linux".toList
      ∧ ∃ header, FileHeader.ofText? (String.ofList
          (guardedHead.withBody "\n\n//go:build linux".toList)) = some header
        ∧ header.constraints.expression = some "ignore"
        ∧ header.isSetAside = true := by
  have hquiet : guardedHead.IsQuiet := ⟨by decide, by decide⟩
  obtain ⟨header, hheader, hconstraints, hignores⟩ :=
    Head.constraints_of_isQuiet hquiet "\n\n//go:build linux".toList
  refine ⟨hquiet, rfl, header, hheader, ?_, ?_⟩
  · rw [hconstraints]
    decide +kernel
  · rw [hignores]
    decide +kernel

/-- The clause behind a block comment on its line. -/
def crampedHead : Head := headBelow [
  .blockComment [] (by decide),
  .blank ' ' isBlank_space]

/-- No line comment, but a block comment with a constraint in it. -/
def supplyingHead : Head := headBelow [
  .blockComment "\n//go:build ignore\n".toList
    (not_infix_of_not_mem (c := '*') (by decide) (by decide)),
  .blank '\n' (by decide)]

/-- A constraint below a block comment with a clause in it. -/
def hidingHead : Head := headBelow [
  .blockComment "\npackage docs\n".toList
    (not_infix_of_not_mem (c := '*') (by decide) (by decide)),
  .blank '\n' (by decide),
  .lineComment "go:build ignore".toList (by decide),
  .blank '\n' (by decide)]

def Head.isSetAside? (head : Head) (body : List Char) : Option Bool :=
  (FileHeader.ofText? (String.ofList (head.withBody body))).map
    FileHeader.isSetAside

/-- What the body or a block comment holds can set a file aside, and can keep a
file that a line comment sets aside. -/
theorem constraints_from_elsewhere :
    (crampedHead.isSetAside? "\n".toList = some false
        ∧ crampedHead.isSetAside? "\n//go:build ignore\n".toList = some true)
      ∧ (openings true supplyingHead.pieces = []
        ∧ supplyingHead.isSetAside? "\n".toList = some true)
      ∧ (openings true hidingHead.pieces = ["//go:build ignore".toList]
        ∧ (Constraints.ofLines (openings true hidingHead.pieces)).ignores = true
        ∧ hidingHead.isSetAside? "\n".toList = some false) := by
  decide +kernel

end ImportChart.Source
