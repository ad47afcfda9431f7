import ImportChart.Proofs.CharacterRuns
import ImportChart.Proofs.HeaderGrammar

/-!
# Specs are read whatever their layout

The reader works on the text without its comments, so each piece of the
grammar is taken in two steps: what it leaves behind when comments are
dropped, and what the reader makes of that. A mix of white space and comments
leaves characters that may be skipped, at least one if it is not empty
(`Gap.leaves`). A spec leaves its alias, blanks and its literal, and that is
read as the path of the spec, alone and in a group (`Spec.leaves`).
-/

namespace ImportChart.Source

open ImportChart.Text

/-! ## Gaps -/

section

variable {p : Char → Bool} (hblank : ∀ c, isBlank c = true → p c = true)
  (hseparator : ∀ c, p c = true → isSeparator c = true)

include hblank hseparator

/-- A gap leaves characters of its kind, and it leaves some unless it is
empty. -/
theorem Gap.leaves {gap : List Char} (h : Gap p gap) :
    ∃ plain, Leaves gap plain ∧ (∀ c ∈ plain, p c = true)
      ∧ (gap ≠ [] → plain ≠ []) := by
  induction h with
  | nil => exact ⟨[], leaves_nil, by simp, id⟩
  | @char c gap hc _ ih =>
      obtain ⟨plain, hleaves, hplain, -⟩ := ih
      have hsingle : Leaves [c] [c] := leaves_of_isPlain fun d hd => by
        rw [List.mem_singleton.mp hd]
        exact isPlain_of_isSeparator (hseparator c hc)
      exact ⟨c :: plain, hsingle.append hleaves,
        List.forall_mem_cons.mpr ⟨hc, hplain⟩, by simp⟩
  | lineComment htext _ ih =>
      obtain ⟨plain, hleaves, hplain, -⟩ := ih
      exact ⟨'\n' :: plain, (leaves_lineComment htext).append hleaves,
        List.forall_mem_cons.mpr ⟨hblank _ (by decide), hplain⟩, by simp⟩
  | @blockComment text gap htext _ ih =>
      obtain ⟨plain, hleaves, hplain, -⟩ := ih
      have hgap : ∀ feed, p (blockGap feed) = true := fun feed =>
        hblank _ (by cases feed <;> decide)
      exact ⟨blockGap _ :: plain, (leaves_blockComment htext).append hleaves,
        List.forall_mem_cons.mpr ⟨hgap _, hplain⟩, by simp⟩

end

theorem Gap.leaves_blanks {gap : List Char} (h : Gap isBlank gap) :
    ∃ plain, Leaves gap plain ∧ (∀ c ∈ plain, isBlank c = true)
      ∧ (gap ≠ [] → plain ≠ []) :=
  h.leaves (fun _ => id) fun _ => isSeparator_of_isBlank

theorem Gap.leaves_separators {gap : List Char} (h : Gap isSeparator gap) :
    ∃ plain, Leaves gap plain ∧ (∀ c ∈ plain, isSeparator c = true)
      ∧ (gap ≠ [] → plain ≠ []) :=
  h.leaves (fun _ => isSeparator_of_isBlank) fun _ => id

/-! ## Names and literals -/

theorem isName_cons {c : Char} {cs : List Char} (hstart : isNameStart c = true)
    (hall : (c :: cs).all isNameChar = true) : IsName (c :: cs) :=
  ⟨⟨c, cs, rfl, hstart⟩, List.all_eq_true.mp hall⟩

theorem IsName.leaves {name : List Char} (h : IsName name) : Leaves name name :=
  leaves_of_isPlain fun c hc => (isWordChar_of_isNameChar (h.2 c hc)).1

/-- An identifier is read up to the first character that cannot be part of
it. -/
theorem IsName.identifier? {name rest : List Char} (h : IsName name)
    (hrest : StopsAt isNameChar rest) :
    identifier? (name ++ rest) = some (name, rest) := by
  obtain ⟨⟨c, cs, rfl, hstart⟩, hname⟩ := h
  have hcs : ∀ d ∈ cs, isNameChar d = true :=
    fun d hd => hname d (List.mem_cons_of_mem _ hd)
  rw [List.cons_append, Text.identifier?, if_pos hstart,
    hrest.takeWhile_append hcs, hrest.dropWhile_append hcs]

theorem quotedText?_append : ∀ {path : List Char},
    '"' ∉ path → '\\' ∉ path → '\n' ∉ path →
    ∀ rest, quotedText? (path ++ '"' :: rest) = some (path, rest)
  | [], _, _, _, rest => by
      rw [List.nil_append, quotedText?.eq_def]
      rfl
  | c :: path, hq, hs, hn, rest => by
      simp only [List.mem_cons, not_or] at hq hs hn
      rw [List.cons_append, quotedText?.eq_def]
      simp only [if_neg (Ne.symm hq.1), if_neg (Ne.symm hn.1),
        if_neg (Ne.symm hs.1)]
      rw [quotedText?_append hq.2 hs.2 hn.2, Option.map_some]

theorem rawText?_append : ∀ {path : List Char}, backquote ∉ path →
    ∀ rest, rawText? (path ++ backquote :: rest) = some (path, rest)
  | [], _, rest => by simp [rawText?, backquote]
  | c :: path, h, rest => by
      simp only [List.mem_cons, not_or] at h
      have hc : c ≠ '\x60' := Ne.symm h.1
      rw [List.cons_append, rawText?, if_neg hc, rawText?_append h.2,
        Option.map_some]

/-- Whether a character opens a literal. -/
def IsQuote (c : Char) : Prop := c = '"' ∨ c = backquote

theorem Literal.leaves {literal path : List Char} (h : Literal literal path) :
    Leaves literal literal := by
  cases h with
  | quoted hpath => exact leaves_quoted hpath.1 hpath.2.2.1 hpath.2.2.2.1
  | raw hpath => exact leaves_raw hpath.2.1

theorem Literal.exists_quote {literal path : List Char}
    (h : Literal literal path) :
    ∃ c cs, literal = c :: cs ∧ IsQuote c := by
  cases h with
  | quoted _ => exact ⟨_, _, rfl, Or.inl rfl⟩
  | raw _ => exact ⟨_, _, rfl, Or.inr rfl⟩

theorem Literal.literal? {literal path : List Char} (h : Literal literal path)
    (rest : List Char) : literal? (literal ++ rest) = some (path, rest) := by
  cases h with
  | quoted hpath =>
      obtain ⟨hq, -, hs, hn, -⟩ := hpath
      simp only [List.cons_append, List.append_assoc, List.nil_append,
        Source.literal?]
      exact quotedText?_append hq hs hn rest
  | raw hpath =>
      obtain ⟨-, hb, -, -, -⟩ := hpath
      simp only [List.cons_append, List.append_assoc, List.nil_append,
        Source.literal?]
      exact rawText?_append hb rest

theorem Literal.parenthesis_not_mem {literal path : List Char}
    (h : Literal literal path) :
    ')' ∉ literal := by
  cases h with
  | quoted hpath => simp [hpath.2.2.2.2]
  | raw hpath => simp [hpath.2.2.2.2, backquote]

theorem literal?_eq_none {c : Char} (h : ¬IsQuote c) (cs : List Char) :
    literal? (c :: cs) = none := by
  have hdouble : c ≠ '"' := fun heq => h (Or.inl heq)
  have hback : c ≠ '\x60' := fun heq => h (Or.inr heq)
  rw [literal?, if_neg hdouble, if_neg hback]

/-! ## Literals one after the other -/

theorem literals_of_literal? {cs text rest : List Char}
    (h : literal? cs = some (text, rest)) :
    literals cs = text :: literals rest := by
  cases cs with
  | nil => cases h
  | cons c cs =>
      rw [literals]
      split
      · next text' rest' h' =>
          obtain ⟨rfl, rfl⟩ := Prod.mk.inj (Option.some.inj (h.symm.trans h'))
          rfl
      · next h' =>
          rw [h] at h'
          cases h'

theorem literals_cons {c : Char} (h : ¬IsQuote c) (cs : List Char) :
    literals (c :: cs) = literals cs := by
  rw [literals]
  split
  · next h' =>
      rw [literal?_eq_none h] at h'
      cases h'
  · rfl

theorem literals_append : ∀ {run : List Char}, (∀ c ∈ run, ¬IsQuote c) → ∀ rest,
    literals (run ++ rest) = literals rest
  | [], _, _ => rfl
  | c :: run, h, rest => by
      rw [List.cons_append, literals_cons (h c (List.mem_cons_self ..)),
        literals_append (fun d hd => h d (List.mem_cons_of_mem _ hd))]

/-! ## Specs -/

theorem isBlank_of_isQuote {c : Char} (h : IsQuote c) : isBlank c = false := by
  rcases h with rfl | rfl <;> decide

theorem not_isQuote_of_isBlank {c : Char} (h : isBlank c = true) :
    ¬IsQuote c := by
  intro hquote
  rw [isBlank_of_isQuote hquote] at h
  cases h

theorem not_isQuote_of_isNameChar {c : Char} (h : isNameChar c = true) :
    ¬IsQuote c := by
  rintro (rfl | rfl)
  · exact ne_of_kind h (by decide) rfl
  · exact ne_of_kind h (by decide) rfl

/-- A comment-free alias: a single spec is read past it, and in a group it is
passed over. -/
structure IsPlainAlias (plain : List Char) : Prop where
  opens : ∀ c cs, plain = c :: cs → isBlank c = false ∧ c ≠ '('
  inert : ∀ c ∈ plain, ¬IsQuote c ∧ c ≠ ')'
  passed : ∀ c cs, IsQuote c → afterAlias (plain ++ c :: cs) = c :: cs

theorem afterAlias_name {name blanks rest : List Char} (hname : IsName name)
    (hblanks : ∀ c ∈ blanks, isBlank c = true) (hne : blanks ≠ [])
    (hrest : StopsAt isBlank rest) :
    afterAlias (name ++ (blanks ++ rest)) = rest := by
  obtain ⟨b, bs, rfl⟩ := List.exists_cons_of_ne_nil hne
  obtain ⟨hb, hbs⟩ := List.forall_mem_cons.mp hblanks
  have hread :=
    hname.identifier? (stopsAt_cons (isNameChar_of_isBlank hb) (bs ++ rest))
  unfold afterAlias
  rw [List.cons_append, hread]
  simp only [if_pos hb]
  exact hrest.dropWhile_append hbs

theorem isPlainAlias_nil : IsPlainAlias [] where
  opens := by simp
  inert := by simp
  passed := by
    rintro c cs (rfl | rfl)
    · rfl
    · rfl

theorem isPlainAlias_name {name blanks : List Char} (hname : IsName name)
    (hblanks : ∀ c ∈ blanks, isBlank c = true) (hne : blanks ≠ []) :
    IsPlainAlias (name ++ blanks) := by
  refine ⟨?_, ?_, ?_⟩
  · obtain ⟨⟨d, ds, rfl, hstart⟩, -⟩ := hname
    intro c cs heq
    obtain ⟨rfl, -⟩ := List.cons.inj heq
    have hchar := isNameChar_of_isNameStart hstart
    exact ⟨isBlank_of_isNameChar hchar, ne_of_kind hchar (by decide)⟩
  · intro c hc
    rcases List.mem_append.mp hc with hc | hc
    · exact ⟨not_isQuote_of_isNameChar (hname.2 c hc),
        ne_of_kind (hname.2 c hc) (by decide)⟩
    · have hblank := hblanks c hc
      refine ⟨not_isQuote_of_isBlank hblank, ?_⟩
      exact ne_of_kind hblank (by decide)
  · intro c cs hquote
    rw [List.append_assoc]
    exact afterAlias_name hname hblanks hne
      (stopsAt_cons (isBlank_of_isQuote hquote) cs)

theorem isPlainAlias_dot {blanks : List Char}
    (hblanks : ∀ c ∈ blanks, isBlank c = true) :
    IsPlainAlias ('.' :: blanks) := by
  refine ⟨?_, ?_, ?_⟩
  · intro c cs heq
    obtain ⟨rfl, -⟩ := List.cons.inj heq
    decide
  · refine List.forall_mem_cons.mpr
      ⟨by simp [IsQuote, backquote], fun c hc => ?_⟩
    have hblank := hblanks c hc
    refine ⟨not_isQuote_of_isBlank hblank, ?_⟩
    exact ne_of_kind hblank (by decide)
  · intro c cs hquote
    exact (stopsAt_cons (isBlank_of_isQuote hquote) cs).dropWhile_append hblanks

theorem Alias.leaves {before : List Char} (h : Alias before) :
    ∃ plain, Leaves before plain ∧ IsPlainAlias plain
      ∧ plain.head? = before.head? := by
  cases h with
  | none => exact ⟨[], leaves_nil, isPlainAlias_nil, rfl⟩
  | @name name gap hname hgap hne =>
      obtain ⟨blanks, hleaves, hblanks, hkept⟩ := hgap.leaves_blanks
      refine ⟨name ++ blanks, hname.leaves.append hleaves,
        isPlainAlias_name hname hblanks (hkept hne), ?_⟩
      obtain ⟨⟨c, cs, rfl, -⟩, -⟩ := hname
      rfl
  | @dot gap hgap =>
      obtain ⟨blanks, hleaves, hblanks, -⟩ := hgap.leaves_blanks
      have hdot : Leaves ['.'] ['.'] :=
        leaves_of_isPlain (by simp [IsPlain, backquote])
      exact ⟨'.' :: blanks, hdot.append hleaves, isPlainAlias_dot hblanks, rfl⟩

/-- A comment-free spec, as it is read alone and in a group. -/
structure IsPlainSpec (plain path : List Char) : Prop where
  opens : ∃ c cs, plain = c :: cs ∧ isBlank c = false ∧ c ≠ '('
  closed : ')' ∉ plain
  spec? : ∀ rest, spec? (plain ++ rest) = some (path, rest)
  literals : ∀ rest, literals (plain ++ rest) = path :: literals rest

theorem IsPlainAlias.append {plain literal path : List Char}
    (halias : IsPlainAlias plain) (hliteral : Literal literal path) :
    IsPlainSpec (plain ++ literal) path := by
  obtain ⟨q, qs, hq, hquote⟩ := hliteral.exists_quote
  refine ⟨?_, ?_, ?_, ?_⟩
  · cases plain with
    | nil =>
        have hopen : q ≠ '(' := by
          rcases hquote with rfl | rfl
          · decide
          · decide
        exact ⟨q, qs, hq, isBlank_of_isQuote hquote, hopen⟩
    | cons c cs => exact ⟨c, cs ++ literal, rfl, halias.opens c cs rfl⟩
  · intro hmem
    rcases List.mem_append.mp hmem with hmem | hmem
    · exact (halias.inert _ hmem).2 rfl
    · exact hliteral.parenthesis_not_mem hmem
  · intro rest
    have hafter :
        afterAlias (plain ++ (literal ++ rest)) = literal ++ rest := by
      rw [hq]
      exact halias.passed q (qs ++ rest) hquote
    rw [List.append_assoc, Source.spec?, hafter, hliteral.literal? rest]
  · intro rest
    rw [List.append_assoc, literals_append fun c hc => (halias.inert c hc).1]
    exact literals_of_literal? (hliteral.literal? rest)

theorem Spec.leaves {spec path : List Char} (h : Spec spec path) :
    ∃ plain, Leaves spec plain ∧ IsPlainSpec plain path
      ∧ plain.head? = spec.head? := by
  obtain @⟨before, literal, _, hbefore, hliteral⟩ := h
  obtain ⟨plain, hleaves, halias, hhead⟩ := hbefore.leaves
  refine ⟨plain ++ literal, hleaves.append hliteral.leaves,
    halias.append hliteral, ?_⟩
  rw [List.head?_append, List.head?_append, hhead]

end ImportChart.Source
