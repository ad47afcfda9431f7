import ImportChart.Module.Directive
import ImportChart.Proofs.CharacterClasses
import ImportChart.Proofs.CharacterRuns
import ImportChart.Proofs.LeftmostCut
import Mathlib.Data.Bool.AllAny
import Mathlib.Data.Option.Basic

/-!
# Module lines

The line that names the module is told here by its text: the keyword, the path
behind blanks or in quotes, and perhaps a comment (`IsModuleLine`). The reader
takes the first line that it can read so. Lines above it are passed over as long
as the word they start with is another one (`leadingWord_of_directive?`), and
lines below it are not read, so a text that declares a path is read as declaring
it (`pathOfText?_of_declares`).

Whatever else a text holds, a path that is found stands in front of the first
comment of its line (`infix_of_directive?`), so it is not empty and has neither a
line feed nor two slashes in a row (`plain_of_pathOfText?`).
-/

namespace ImportChart.Module

open ImportChart.Text ImportChart.Source

/-! ## Texts that declare a path -/

/-- The letters, numbers and underscores that a line starts with, behind
blanks. -/
def leadingWord (line : List Char) : List Char :=
  (trimStart line).takeWhile isNameChar

/-- A path that can be written both bare and between quotes. -/
structure IsModulePath (path : List Char) : Prop where
  ne_nil : path ≠ []
  plain : ∀ c ∈ path, isBlank c = false ∧ isQuote c = false
  noComment : ¬"//".toList <:+: path
  noGroup : ¬['('] <+: path

/-- How the path is written behind the keyword and `gap`: bare if the gap sets it
off, or between two equal quotes. -/
inductive Spells (path gap : List Char) : List Char → Prop
  | bare : gap ≠ [] → Spells path gap path
  | quoted {quote : Char} : isQuote quote = true →
      Spells path gap (quote :: (path ++ [quote]))

/-- Blanks, and behind at least one of them perhaps a comment. -/
def IsLineEnd (ending : List Char) : Prop :=
  ∃ blanks comment, ending = blanks ++ comment
    ∧ (∀ c ∈ blanks, isBlank c = true)
    ∧ (comment = [] ∨ blanks ≠ [] ∧ "//".toList <+: comment)

/-- The line consists of the keyword, the path and what sets them off. -/
def IsModuleLine (path line : List Char) : Prop :=
  ∃ indent gap spelled ending,
    line = indent ++ ("module".toList ++ (gap ++ (spelled ++ ending)))
      ∧ (∀ c ∈ indent, isBlank c = true) ∧ (∀ c ∈ gap, isBlank c = true)
      ∧ Spells path gap spelled ∧ IsLineEnd ending

/-- A module line for the path, below lines that start with other words. Anything
may follow on the lines below it. -/
def Declares (path text : List Char) : Prop :=
  ∃ above line rest, text = unlines above ++ (line ++ rest)
    ∧ (∀ other ∈ above, '\n' ∉ other ∧ leadingWord other ≠ "module".toList)
    ∧ '\n' ∉ line ∧ IsModuleLine path line
    ∧ (rest = [] ∨ ∃ below, rest = '\n' :: below)

/-! ## What a directive consists of -/

theorem eq_of_isQuote {c : Char} (h : isQuote c = true) : c = '"' ∨ c = '\x60' := by
  rwa [isQuote, Bool.or_eq_true, beq_iff_eq, beq_iff_eq] at h

theorem isNameChar_of_isQuote {c : Char} (h : isQuote c = true) :
    isNameChar c = false := by
  rcases eq_of_isQuote h with rfl | rfl <;> decide

/-- What stands in front of a comment starts with the keyword, and a blank or a
quote ends it. -/
theorem directive?_eq_some_iff {line path : List Char} :
    directive? line = some path
      ↔ ∃ rest, trim (before "//".toList line) = "module".toList ++ rest
        ∧ (rest.head?.any fun c => isBlank c || isQuote c) = true
        ∧ valueText? (trim rest) = some path ∧ path ≠ [] := by
  simp only [directive?, Option.bind_eq_bind, Option.bind_eq_some_iff,
    afterHead?_eq_some_iff, Option.guard_eq_some', exists_const, Option.pure_def,
    Option.some.injEq, exists_eq_right_right]

/-- The path that is read is a stretch of what it is read from. -/
theorem infix_of_valueText? {value path : List Char}
    (h : valueText? value = some path) : path <:+: value := by
  cases value with
  | nil => cases h
  | cons c cs =>
      rw [valueText?] at h
      split at h
      · split at h
        · obtain rfl := Option.some.inj h
          exact (List.dropLast_prefix cs).isInfix.trans
            (List.suffix_cons c cs).isInfix
        · cases h
      · split at h
        · cases h
        · exact infix_of_head?_words h

theorem infix_trim (cs : List Char) : trim cs <:+: cs := by
  obtain ⟨before, after, heq, -, -⟩ := exists_eq_append_trim cs
  exact ⟨before, after, heq.symm⟩

/-- A path is found in front of the first comment. -/
theorem infix_of_directive? {line path : List Char}
    (h : directive? line = some path) : path <:+: before "//".toList line := by
  obtain ⟨rest, hrest, -, hvalue, -⟩ := directive?_eq_some_iff.mp h
  have hwithin : path <:+: "module".toList ++ rest :=
    ((infix_of_valueText? hvalue).trans (infix_trim rest)).trans
      (List.suffix_append _ rest).isInfix
  rw [← hrest] at hwithin
  exact hwithin.trans (infix_trim _)

/-- A line with a path starts with the keyword. -/
theorem leadingWord_of_directive? {line path : List Char}
    (h : directive? line = some path) : leadingWord line = "module".toList := by
  obtain ⟨rest, hrest, hend, -, -⟩ := directive?_eq_some_iff.mp h
  obtain ⟨c, cs, rfl, hc⟩ : ∃ c cs, rest = c :: cs
      ∧ (isBlank c || isQuote c) = true := by
    cases rest with
    | nil => cases hend
    | cons c cs => exact ⟨c, cs, rfl, hend⟩
  obtain ⟨indent, after, hbefore, hindent, -⟩ :=
    exists_eq_append_trim (before "//".toList line)
  obtain ⟨comment, hline⟩ := prefix_before "//".toList line
  have hstart : line = indent ++ ("module".toList ++ (c :: (cs ++ after ++ comment))) := by
    rw [← hline, hbefore, hrest]
    simp only [List.append_assoc, List.cons_append]
  have hkeyword : ∀ d ∈ "module".toList, isNameChar d = true :=
    List.all_eq_true.mp (by decide)
  have hm : StopsAt isBlank ("module".toList ++ (c :: (cs ++ after ++ comment))) :=
    stopsAt_cons (by decide) _
  have hstop : isNameChar c = false := by
    rw [Bool.or_eq_true] at hc
    rcases hc with hc | hc
    · exact isNameChar_of_isBlank hc
    · exact isNameChar_of_isQuote hc
  rw [leadingWord, trimStart, hstart, hm.dropWhile_append hindent]
  exact (stopsAt_cons hstop _).takeWhile_append hkeyword

/-! ## Reading a module line -/

theorem isBlank_of_isQuote {c : Char} (h : isQuote c = true) :
    isBlank c = false := by
  rcases eq_of_isQuote h with rfl | rfl <;> decide

theorem slash_not_mem_of_blanks {blanks : List Char}
    (h : ∀ c ∈ blanks, isBlank c = true) : '/' ∉ blanks :=
  fun hmem => ne_of_kind (h _ hmem) (by decide) rfl

theorem not_mem_slashes {c : Char} (h : c ≠ '/') : c ∉ "//".toList := by
  have hslashes : "//".toList = ['/', '/'] := rfl
  rw [hslashes, List.mem_cons, List.mem_singleton, or_self]
  exact h

section Spelling

variable {path gap spelled : List Char}

theorem Spells.isBlank_eq_false (h : Spells path gap spelled)
    (hpath : IsModulePath path) : ∀ c ∈ spelled, isBlank c = false := by
  have hplain : ∀ c ∈ path, isBlank c = false := fun c hc => (hpath.plain c hc).1
  cases h with
  | bare => exact hplain
  | quoted hquote =>
      have hblank := isBlank_of_isQuote hquote
      rw [List.forall_mem_cons, List.forall_mem_append]
      exact ⟨hblank, hplain, List.forall_mem_singleton.mpr hblank⟩

theorem Spells.ne_nil (h : Spells path gap spelled) (hpath : IsModulePath path) :
    spelled ≠ [] := by
  cases h with
  | bare => exact hpath.ne_nil
  | quoted => exact List.cons_ne_nil _ _

/-- A blank or a quote stands behind the keyword. -/
theorem Spells.any_head? (h : Spells path gap spelled)
    (hgap : ∀ c ∈ gap, isBlank c = true) :
    ((gap ++ spelled).head?.any fun c => isBlank c || isQuote c) = true := by
  cases gap with
  | nil =>
      cases h with
      | bare hne => exact absurd rfl hne
      | quoted hquote => exact Bool.or_eq_true_iff.mpr (Or.inr hquote)
  | cons c cs =>
      have hc := hgap c List.mem_cons_self
      exact Bool.or_eq_true_iff.mpr (Or.inl hc)

theorem Spells.valueText?_eq (h : Spells path gap spelled) (hpath : IsModulePath path) :
    valueText? spelled = some path := by
  cases h with
  | bare =>
      obtain ⟨c, cs, rfl⟩ := List.exists_cons_of_ne_nil hpath.ne_nil
      have hquote := (hpath.plain c List.mem_cons_self).2
      have hgroup : (c == '(') = false := by
        refine beq_eq_false_iff_ne.mpr fun hc => hpath.noGroup ?_
        exact hc ▸ List.prefix_append [c] cs
      have hword : words (c :: cs) = [c :: cs] :=
        words_eq_singleton hpath.ne_nil fun d hd => (hpath.plain d hd).1
      rw [valueText?, hquote, hgroup, hword]
      rfl
  | @quoted quote hquote =>
      have hlast : (path ++ [quote]).getLast? = some quote :=
        List.getLast?_concat
      rw [valueText?, if_pos hquote, hlast, if_pos (beq_self_eq_true _),
        List.dropLast_concat]

/-- The comment starts at the end of the line. -/
theorem IsLineEnd.exists_before {front ending : List Char} (h : IsLineEnd ending)
    (hfront : ¬"//".toList <:+: front) :
    ∃ blanks, before "//".toList (front ++ ending) = front ++ blanks
      ∧ ∀ c ∈ blanks, isBlank c = true := by
  obtain ⟨blanks, comment, rfl, hblanks, hcomment⟩ := h
  have hnone : before "//".toList comment = [] := by
    rcases hcomment with rfl | ⟨-, text, rfl⟩
    · rfl
    · exact before_append (by decide) text
  refine ⟨blanks, ?_, hblanks⟩
  -- The first blank keeps a slash at the end of `front` apart from the comment.
  cases blanks with
  | nil =>
      obtain rfl : comment = [] :=
        hcomment.resolve_right fun hset => hset.1 rfl
      rw [List.nil_append, List.append_nil, before_of_not_infix hfront]
  | cons c cs =>
      obtain ⟨hc, hcs⟩ := List.forall_mem_cons.mp hblanks
      have hslash := slash_not_mem_of_blanks hcs
      have hrest : before "//".toList (cs ++ comment) = cs := by
        have hcut : before "//".toList (cs ++ comment)
            = cs ++ before "//".toList comment := before_append_of_not_mem hslash _
        rw [hcut, hnone, List.append_nil]
      have hkey := not_mem_slashes (ne_of_kind hc (by decide))
      rw [List.cons_append, before_append_cons (by decide) hkey hfront, hrest]

theorem Spells.exists_before {ending : List Char} (h : Spells path gap spelled)
    (hpath : IsModulePath path) (hend : IsLineEnd ending) :
    ∃ blanks, before "//".toList (spelled ++ ending) = spelled ++ blanks
      ∧ ∀ c ∈ blanks, isBlank c = true := by
  cases h with
  | bare => exact hend.exists_before hpath.noComment
  | @quoted quote hquote =>
      have hnone : ¬"//".toList <:+: [] := by decide
      have hkey := not_mem_slashes (ne_of_kind hquote (by decide))
      obtain ⟨blanks, hbefore, hblanks⟩ := hend.exists_before hnone
      rw [List.nil_append, List.nil_append] at hbefore
      refine ⟨blanks, ?_, hblanks⟩
      calc before "//".toList (quote :: (path ++ [quote]) ++ ending)
          = before "//".toList ([] ++ quote :: (path ++ quote :: ending)) := by
            simp only [List.cons_append, List.append_assoc, List.nil_append]
        _ = quote :: (path ++ quote :: blanks) := by
            rw [before_append_cons (by decide) hkey hnone,
              before_append_cons (by decide) hkey hpath.noComment, hbefore,
              List.nil_append]
        _ = quote :: (path ++ [quote]) ++ blanks := by
            simp only [List.cons_append, List.append_assoc, List.nil_append]

end Spelling

/-- No comment starts in front of the path. -/
theorem before_keyword_append {indent gap : List Char}
    (hindent : ∀ c ∈ indent, isBlank c = true) (hgap : ∀ c ∈ gap, isBlank c = true)
    (cs : List Char) :
    before "//".toList (indent ++ ("module".toList ++ (gap ++ cs)))
      = indent ++ ("module".toList ++ (gap ++ before "//".toList cs)) := by
  have hskip {front : List Char} (h : '/' ∉ front) (back : List Char) :
      before "//".toList (front ++ back) = front ++ before "//".toList back :=
    before_append_of_not_mem h back
  rw [hskip (slash_not_mem_of_blanks hindent), hskip (by decide),
    hskip (slash_not_mem_of_blanks hgap)]

theorem IsModuleLine.directive?_eq {path line : List Char} (hpath : IsModulePath path)
    (h : IsModuleLine path line) : directive? line = some path := by
  obtain ⟨indent, gap, spelled, ending, rfl, hindent, hgap, hspelled, hend⟩ := h
  obtain ⟨blanks, hbefore, hblanks⟩ := hspelled.exists_before hpath hend
  have hne := hspelled.ne_nil hpath
  have hplain := hspelled.isBlank_eq_false hpath
  have hfront : StopsAt isBlank ("module".toList ++ (gap ++ spelled)) :=
    stopsAt_cons (by decide) _
  have hback : StopsAt isBlank ("module".toList ++ (gap ++ spelled)).reverse := by
    have hlast : StopsAt isBlank spelled.reverse :=
      stopsAt_of_forall fun c hc => hplain c (List.mem_reverse.mp hc)
    rw [← List.append_assoc, List.reverse_append]
    exact hlast.append (List.reverse_ne_nil_iff.mpr hne) _
  refine directive?_eq_some_iff.mpr ⟨gap ++ spelled, ?_, ?_, ?_, hpath.ne_nil⟩
  · rw [before_keyword_append hindent hgap, hbefore, ← List.append_assoc gap,
      ← List.append_assoc "module".toList]
    exact dropBothWhile_of_stopsAt hindent (List.cons_ne_nil _ _) hfront hback
      hblanks
  · exact hspelled.any_head? hgap
  · have htrim : trim (gap ++ spelled ++ []) = spelled :=
      dropBothWhile_append hgap hplain hne (List.forall_mem_nil _)
    rw [List.append_nil] at htrim
    rw [htrim, hspelled.valueText?_eq hpath]

/-! ## Reading a text -/

/-- The first module line decides. -/
theorem pathOfText?_of_declares {text path : String} (hpath : IsModulePath path.toList)
    (h : Declares path.toList text.toList) : pathOfText? text = some path := by
  obtain ⟨above, line, rest, htext, habove, hline, hmodule, hrest⟩ := h
  obtain ⟨below, hlines⟩ := exists_lines_append hline hrest
  have hfound : (lines text.toList).findSome? directive? = some path.toList := by
    refine List.findSome?_eq_some_iff.mpr ⟨above, line, below, ?_, ?_, ?_⟩
    · rw [htext, lines_unlines_append fun other hother => (habove other hother).1,
        hlines]
    · exact hmodule.directive?_eq hpath
    · intro other hother
      refine Option.eq_none_iff_forall_ne_some.mpr fun found hdirective => ?_
      exact (habove other hother).2 (leadingWord_of_directive? hdirective)
  rw [pathOfText?, hfound, Option.map_some, String.ofList_toList]

/-- A path that is found is not empty, and it was part of a line, in front of
any comment. -/
theorem plain_of_pathOfText? {text path : String}
    (h : pathOfText? text = some path) :
    path ≠ "" ∧ '\n' ∉ path.toList ∧ ¬"//".toList <:+: path.toList := by
  obtain ⟨found, hfound, rfl⟩ := Option.map_eq_some_iff.mp h
  obtain ⟨line, hline, hdirective⟩ := List.exists_of_findSome?_eq_some hfound
  obtain ⟨-, -, -, -, hne⟩ := directive?_eq_some_iff.mp hdirective
  have hwithin := infix_of_directive? hdirective
  rw [String.toList_ofList]
  refine ⟨?_, fun hfeed => ?_, fun hslashes => ?_⟩
  · intro hempty
    exact hne (String.ofList_eq_empty_iff.mp hempty)
  · have hmem := (prefix_before _ line).isInfix.subset (hwithin.subset hfeed)
    exact feed_not_mem_of_mem_lines hline hmem
  · exact not_infix_before (by decide) line (hslashes.trans hwithin)

/-- A text that declares a path is read as declaring it, and whatever the text, a
path that is read is not empty and has neither a line feed nor two slashes in a
row. -/
theorem pathOfText?_reads_moduleLine :
    (∀ text path : String, IsModulePath path.toList → Declares path.toList text.toList →
        pathOfText? text = some path)
      ∧ ∀ text path : String, pathOfText? text = some path →
        path ≠ "" ∧ '\n' ∉ path.toList ∧ ¬"//".toList <:+: path.toList :=
  ⟨fun _ _ => pathOfText?_of_declares, fun _ _ => plain_of_pathOfText?⟩

/-- Lines that only look like module lines, above and below one with CRLF. -/
def quotedModuleText : String :=
  "// module a\n\nmodules x.io/a\n\t(module b)\r\n  module\x60x.io/m\x60 // \"b\"\r\nmodule c\n"

theorem pathOfText?_reads_moduleLine_quoted :
    IsModulePath "x.io/m".toList
      ∧ Declares "x.io/m".toList quotedModuleText.toList
      ∧ pathOfText? quotedModuleText = some "x.io/m"
      ∧ "x.io/m" ≠ "" ∧ '\n' ∉ "x.io/m".toList
      ∧ ¬"//".toList <:+: "x.io/m".toList := by
  have hpath : IsModulePath "x.io/m".toList :=
    ⟨by decide, List.all_iff_forall_prop.mp (by decide), by decide +kernel,
      by decide⟩
  have hend : IsLineEnd " // \"b\"\r".toList :=
    ⟨[' '], "// \"b\"\r".toList, rfl, List.all_eq_true.mp (by decide),
      Or.inr ⟨by decide, by decide⟩⟩
  have hline : IsModuleLine "x.io/m".toList
      "  module\x60x.io/m\x60 // \"b\"\r".toList :=
    ⟨[' ', ' '], [], _, _, rfl, List.all_eq_true.mp (by decide),
      List.forall_mem_nil _, @Spells.quoted _ _ '\x60' (by decide), hend⟩
  have hdeclares : Declares "x.io/m".toList quotedModuleText.toList :=
    ⟨["// module a".toList, [], "modules x.io/a".toList, "\t(module b)\r".toList],
      _, "\nmodule c\n".toList, rfl, by decide +kernel, by decide, hline,
      Or.inr ⟨_, rfl⟩⟩
  obtain ⟨hreads, hplain⟩ := pathOfText?_reads_moduleLine
  have hfound := hreads _ _ hpath hdeclares
  exact ⟨hpath, hdeclares, hfound, hplain _ _ hfound⟩

end ImportChart.Module
