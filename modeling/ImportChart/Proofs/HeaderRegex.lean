import ImportChart.Proofs.CharacterClasses
import ImportChart.Proofs.Regex

/-!
# The regular expressions of a header

Package clauses, import specs and the literals of a group can be told by regular
expressions. The readers of a header go through the text once and never turn
back, and they read what the matches of the expressions read: a clause the
leftmost match of its expression that starts a line (`clauseFrom?_eq`), a spec
the match of its expression at the head of the text (`spec?_eq`), and a group
all matches of the expression of a literal (`literals_eq`).

That nothing is lost by not turning back has one reason throughout. Where an
expression repeats something, what comes next cannot start like one more round:
blanks are no letters, and a quote closes a literal and is no part of it.
-/

namespace ImportChart.Source

open Text

/-! ## Names -/

def nameStart : Regex := .oneOf [.letters, .char '_']

def nameChar : Regex := .oneOf [.letters, .numbers, .char '_']

def nameRegex : Regex := .seq nameStart (.star nameChar)

theorem runs_nameStart : nameStart.runs = one isNameStart := by
  funext cs
  have hclass : (fun c => [ClassItem.letters, .char '_'].any (·.holds c))
      = isNameStart := by
    funext c
    simp [ClassItem.holds, isNameStart, Bool.or_comm]
  rw [nameStart, Regex.runs, hclass]

theorem runs_nameChar : nameChar.runs = one isNameChar := by
  funext cs
  have hclass : (fun c => [ClassItem.letters, .numbers, .char '_'].any (·.holds c))
      = isNameChar := by
    funext c
    simp only [ClassItem.holds, isNameChar, isNameStart, List.any_cons,
      List.any_nil, Bool.or_false]
    cases isLetter c <;> cases isNumber c <;> cases c == '_' <;> rfl
  rw [nameChar, Regex.runs, hclass]

/-- A name in a group is the identifier at the head of the text. -/
theorem read?_capture_name (cs : List Char) :
    (Regex.capture nameRegex).read? cs = identifier? cs := by
  rw [Regex.read?, Regex.runs, nameRegex, Regex.runs, Regex.runs_star,
    runs_nameStart, runs_nameChar]
  cases cs with
  | nil => rfl
  | cons c cs =>
      rw [one, identifier?]
      split
      · rw [followed_singleton, List.head?_map, List.head?_map, head?_rounds_one]
        rfl
      · rfl

/-! ## The package clause -/

def clauseRegex : Regex :=
  .seq (.star .blank) (.seq (.word "package".toList)
    (.seq (.plus .blank) (.capture nameRegex)))

theorem runs_blank : Regex.blank.runs = one isBlank := rfl

theorem runs_capture_name_of_blank {c : Char} (h : isBlank c = true)
    (cs : List Char) : (Regex.capture nameRegex).runs (c :: cs) = [] := by
  have hstart : isNameStart c = false := by
    refine Bool.eq_false_iff.mpr fun hstart => ?_
    rw [isBlank_of_isNameChar (isNameChar_of_isNameStart hstart)] at h
    cases h
  rw [Regex.runs, nameRegex, Regex.runs, runs_nameStart, one, hstart]
  rfl

theorem clause?_eq (cs : List Char) : clause? cs = clauseRegex.read? cs := by
  have hword : ∀ (c : Char) (cs : List Char), isBlank c = true →
      (Regex.seq (.word "package".toList)
        (.seq (.plus .blank) (.capture nameRegex))).runs (c :: cs) = [] :=
    fun c cs hblank =>
      Regex.runs_seq_word_of_ne (ne_of_kind hblank (by decide)) _ _ cs
  rw [clause?, clauseRegex, Regex.read?_star_seq runs_blank hword,
    Regex.read?_seq_word]
  show _ = (afterHead? "package".toList (trimStart cs)).bind _
  cases afterHead? "package".toList (trimStart cs) with
  | none => rfl
  | some rest =>
      cases rest with
      | nil =>
          rw [Option.bind_some, Regex.read?, Regex.runs_plus_seq_nil runs_blank]
          rfl
      | cons c rest =>
          rw [Option.bind_some, Regex.read?_plus_seq runs_blank
            (fun _ _ hblank => runs_capture_name_of_blank hblank _),
            read?_capture_name]
          rfl

/-- The clause of a text is the leftmost match that starts a line. -/
theorem clauseFrom?_eq :
    "(?m)^".toList ++ clauseRegex.text
        = "(?m)^\\s*package\\s+([\\p\x7bL\x7d_][\\p\x7bL\x7d\\p\x7bN\x7d_]*)".toList
      ∧ ∀ (atStart : Bool) (cs : List Char),
        clauseFrom? atStart cs = clauseRegex.readLine? atStart cs := by
  refine ⟨by decide +kernel, fun atStart cs => ?_⟩
  induction cs generalizing atStart with
  | nil =>
      have hnone : clauseRegex.read? [] = none := by rw [← clause?_eq]; rfl
      rw [clauseFrom?, Regex.readLine?, hnone, ite_self]
  | cons c cs ih =>
      rw [clauseFrom?, Regex.readLine?, clause?_eq]
      cases if atStart then clauseRegex.read? (c :: cs) else none with
      | some read => rfl
      | none => exact ih (c == '\n')

/-! ## Literals -/

/-- A character between double quotes, or a backslash with the next one. -/
def quotedStep : Regex :=
  .group (.either (.noneOf [.char '"', .char '\\', .char '\n'])
    (.seq (.word ['\\']) .any))

def rawStep : Regex := .noneOf [.char backquote]

/-- What repeats a step between two marks. -/
def enclosed (mark : Char) (step : Regex) : Regex :=
  .seq (.word [mark]) (.seq (.capture (.star step)) (.word [mark]))

def literalRegex : Regex := .either (enclosed '"' quotedStep) (enclosed backquote rawStep)

theorem runs_quotedStep_nil : quotedStep.runs [] = [] := rfl

theorem runs_quotedStep_plain {c : Char} (hquote : c ≠ '"') (hline : c ≠ '\n')
    (hescape : c ≠ '\\') (cs : List Char) :
    quotedStep.runs (c :: cs) = [⟨[c], [], cs⟩] := by
  rw [quotedStep, Regex.runs, Regex.runs, Regex.runs_seq_word_of_ne hescape]
  simp [Regex.runs, one, ClassItem.holds, hquote, hline, hescape]

theorem runs_quotedStep_escape (cs : List Char) :
    quotedStep.runs ('\\' :: cs)
      = (one (· != '\n') cs).map (Run.andThen ⟨['\\'], [], cs⟩) := by
  rw [quotedStep, Regex.runs, Regex.runs, Regex.runs_seq_word]
  simp [Regex.runs, one, ClassItem.holds, afterHead?]

theorem runs_quotedStep_stop {c : Char} (h : c = '"' ∨ c = '\n')
    (cs : List Char) : quotedStep.runs (c :: cs) = [] := by
  have hescape : c ≠ '\\' := by
    rcases h with rfl | rfl <;> decide
  rw [quotedStep, Regex.runs, Regex.runs, Regex.runs_seq_word_of_ne hescape]
  rcases h with rfl | rfl <;> rfl

/-- The run over a text that is closed by a mark. -/
def closed (mark : Char) (read : List Char × List Char) : Run :=
  ⟨read.1, [], mark :: read.2⟩

theorem endingBefore_quoted (cs : List Char) :
    endingBefore '"' (rounds quotedStep.runs cs)
      = (quotedText? cs).toList.map (closed '"') := by
  fun_induction quotedText? cs with
  | case1 =>
      rw [rounds_of_eq_nil runs_quotedStep_nil]
      rfl
  | case2 cs =>
      rw [rounds_of_eq_nil (runs_quotedStep_stop (Or.inl rfl) cs)]
      rfl
  | case3 cs hquote =>
      rw [rounds_of_eq_nil (runs_quotedStep_stop (Or.inr rfl) cs)]
      rfl
  | case4 hquote hline =>
      rw [rounds_of_eq_nil (runs_quotedStep_escape [])]
      rfl
  | case5 ds hquote hline =>
      rw [rounds_of_eq_nil (runs_quotedStep_escape ('\n' :: ds))]
      rfl
  | case6 d ds hd hquote hline ih =>
      have hstep : quotedStep.runs ('\\' :: d :: ds) = [⟨['\\', d], [], ds⟩] := by
        rw [runs_quotedStep_escape, one, if_pos (bne_iff_ne.mpr hd)]
        rfl
      have hlength : ds.length < ('\\' :: d :: ds).length := by
        rw [List.length_cons, List.length_cons]
        omega
      rw [endingBefore_rounds_of_eq hstep hlength (by simp), ih]
      cases quotedText? ds <;> rfl
  | case7 c cs hquote hline hescape ih =>
      have hstep := runs_quotedStep_plain hquote hline hescape cs
      rw [endingBefore_rounds_of_eq hstep (by simp) (by simpa using hquote), ih]
      cases quotedText? cs <;> rfl

theorem endingBefore_raw (cs : List Char) :
    endingBefore backquote (rounds rawStep.runs cs)
      = (rawText? cs).toList.map (closed backquote) := by
  have hclass (c : Char) (cs : List Char) :
      rawStep.runs (c :: cs) = if c = '\x60' then [] else [⟨[c], [], cs⟩] := by
    by_cases h : c = '\x60' <;>
      simp [rawStep, backquote, Regex.runs, one, ClassItem.holds, h]
  fun_induction rawText? cs with
  | case1 =>
      rw [rounds_of_eq_nil rfl]
      rfl
  | case2 cs =>
      rw [rounds_of_eq_nil (by rw [hclass, if_pos rfl])]
      rfl
  | case3 c cs hmark ih =>
      have hstep : rawStep.runs (c :: cs) = [⟨[c], [], cs⟩] := by
        rw [hclass, if_neg hmark]
      have hhead : (c :: cs).head? ≠ some backquote :=
        fun h => hmark (Option.some.inj h)
      rw [endingBefore_rounds_of_eq hstep (by simp) hhead, ih]
      cases rawText? cs <;> rfl

section

variable {mark : Char} {step : Regex}

theorem runs_enclosed_of_ne {c : Char} (h : c ≠ mark) (cs : List Char) :
    (enclosed mark step).runs (c :: cs) = [] :=
  Regex.runs_seq_word_of_ne h _ _ cs

/-- Between two marks the text up to the second is read. -/
theorem read?_enclosed {text? : List Char → Option (List Char × List Char)}
    (h : ∀ cs, endingBefore mark (rounds step.runs cs)
      = (text? cs).toList.map (closed mark)) (cs : List Char) :
    (enclosed mark step).read? (mark :: cs) = text? cs := by
  have hword : afterHead? [mark] (mark :: cs) = some cs :=
    afterHead?_eq_some_iff.mpr rfl
  rw [enclosed, Regex.read?_seq_word, hword, Option.bind_some, Regex.read?,
    Regex.runs, Regex.runs, Regex.runs_star, followed_captured_word, h]
  cases text? cs <;> rfl

end

theorem runs_literal_of_ne {c : Char} (hquote : c ≠ '"') (hraw : c ≠ backquote)
    (cs : List Char) : literalRegex.runs (c :: cs) = [] := by
  rw [literalRegex, Regex.runs, runs_enclosed_of_ne hquote,
    runs_enclosed_of_ne hraw]
  rfl

theorem literal?_eq (cs : List Char) : literal? cs = literalRegex.read? cs := by
  cases cs with
  | nil => rfl
  | cons c cs =>
      rw [literal?]
      by_cases hquote : c = '"'
      · subst hquote
        rw [if_pos rfl, literalRegex,
          Regex.read?_either_of_left (runs_enclosed_of_ne (by decide) cs),
          read?_enclosed endingBefore_quoted]
      · rw [if_neg hquote, literalRegex,
          Regex.read?_either_of_right (runs_enclosed_of_ne hquote cs)]
        by_cases hraw : c = '\x60'
        · subst hraw
          rw [if_pos rfl]
          exact (read?_enclosed endingBefore_raw cs).symm
        · have hmark : c ≠ backquote := hraw
          rw [if_neg hraw, Regex.read?, runs_enclosed_of_ne hmark]
          rfl

/-- The literals of a group are all matches in it. -/
theorem literals_eq :
    literalRegex.text = "\"((?:[^\"\\\\\\n]|\\\\.)*)\"|\x60([^\x60]*)\x60".toList
      ∧ ∀ cs : List Char, literals cs = literalRegex.readAll cs := by
  refine ⟨by decide +kernel, fun cs => ?_⟩
  fun_induction literals cs with
  | case1 => rw [Regex.readAll]
  | case2 c cs text rest h hlength ih =>
      rw [Regex.readAll, ← literal?_eq, h]
      simp only
      rw [if_pos (Nat.le_of_lt_succ hlength), ih]
  | case3 c cs h ih =>
      rw [Regex.readAll, ← literal?_eq, h]
      exact ih

/-! ## Import specs -/

def aliasRegex : Regex :=
  .group (.either (.seq nameRegex (.plus .blank))
    (.seq (.word ['.']) (.star .blank)))

def specRegex : Regex := .seq (.optional aliasRegex) (.group literalRegex)

/-- What follows the first character of a name. -/
def afterStart : Regex :=
  .seq (.star nameChar) (.seq (.plus .blank) (.group literalRegex))

def afterDot : Regex := .seq (.star .blank) (.group literalRegex)

/-- There are three ways to take a spec: with a name in front, with a dot in
front, and with nothing in front. -/
theorem runs_specRegex (cs : List Char) :
    specRegex.runs cs
      = (Regex.seq nameStart afterStart).runs cs
        ++ ((Regex.seq (.word ['.']) afterDot).runs cs ++ literalRegex.runs cs) := by
  have hname : (Regex.seq nameStart afterStart).runs cs
      = followed ((Regex.seq nameRegex (.plus .blank)).runs cs)
        literalRegex.runs := by
    simp only [nameRegex, afterStart, Regex.runs, followed_assoc]
  have hdot : (Regex.seq (.word ['.']) afterDot).runs cs
      = followed ((Regex.seq (.word ['.']) (.star .blank)).runs cs)
        literalRegex.runs :=
    (Regex.runs_seq_assoc (.word ['.']) (.star .blank) (.group literalRegex)
      cs).symm
  have halias : (Regex.optional aliasRegex).runs cs
      = (Regex.seq nameRegex (.plus .blank)).runs cs
        ++ ((Regex.seq (.word ['.']) (.star .blank)).runs cs ++ [.nothing cs]) :=
    List.append_assoc _ _ _
  have hnothing : followed [.nothing cs] literalRegex.runs
      = literalRegex.runs cs :=
    (followed_singleton _ _).trans (map_nothing_andThen cs _)
  rw [hname, hdot, specRegex, Regex.runs, halias]
  show followed _ literalRegex.runs = _
  rw [followed_append, followed_append, hnothing]

theorem runs_afterBlanks_of_ne {c : Char} (h : isBlank c = false)
    (cs : List Char) :
    (Regex.seq (.plus .blank) (.group literalRegex)).runs (c :: cs) = [] := by
  rw [Regex.runs, Regex.runs, runs_blank, one, h]
  rfl

/-- A literal does not start with a blank. -/
theorem runs_literal_of_blank (c : Char) (cs : List Char)
    (h : isBlank c = true) : (Regex.group literalRegex).runs (c :: cs) = [] := by
  rw [Regex.runs]
  exact runs_literal_of_ne (ne_of_kind h (by decide)) (ne_of_kind h (by decide)) cs

/-- Behind a name there must be a blank, and then a literal behind all blanks. -/
theorem read?_afterStart (cs : List Char) :
    afterStart.read? cs
      = match cs.dropWhile isNameChar with
        | [] => none
        | c :: rest => if isBlank c then literal? (trimStart rest) else none := by
  rw [afterStart, Regex.read?_star_seq runs_nameChar fun c cs hc =>
    runs_afterBlanks_of_ne (isBlank_of_isNameChar hc) cs]
  cases cs.dropWhile isNameChar with
  | nil =>
      rw [Regex.read?, Regex.runs_plus_seq_nil runs_blank]
      rfl
  | cons c rest =>
      rw [Regex.read?_plus_seq runs_blank runs_literal_of_blank]
      simp only [literal?_eq]
      rfl

theorem read?_afterDot (cs : List Char) :
    afterDot.read? cs = literal? (trimStart cs) := by
  rw [afterDot, Regex.read?_star_seq runs_blank runs_literal_of_blank,
    literal?_eq]
  rfl

theorem literal?_of_isNameStart {c : Char} (h : isNameStart c = true)
    (cs : List Char) : literal? (c :: cs) = none := by
  rw [literal?_eq, Regex.read?, runs_literal_of_ne (ne_of_kind h (by decide))
    (ne_of_kind h (by decide))]
  rfl

/-- With a name in front, what is read is what the first of the three ways
reads. -/
theorem spec?_of_isNameStart {c : Char} (h : isNameStart c = true)
    (cs : List Char) : spec? (c :: cs) = afterStart.read? cs := by
  have hname : identifier? (c :: cs)
      = some (c :: cs.takeWhile isNameChar, cs.dropWhile isNameChar) := by
    rw [identifier?, if_pos h]
  rw [read?_afterStart]
  unfold spec? afterAlias
  rw [hname]
  cases cs.dropWhile isNameChar with
  | nil => exact literal?_of_isNameStart h cs
  | cons d rest =>
      show literal? (if isBlank d then trimStart rest else c :: cs) = _
      rw [apply_ite literal?, literal?_of_isNameStart h]

theorem spec?_dot (cs : List Char) : spec? ('.' :: cs) = afterDot.read? cs := by
  rw [read?_afterDot]
  rfl

theorem spec?_of_not {c : Char} (hstart : isNameStart c = false) (hdot : c ≠ '.')
    (cs : List Char) : spec? (c :: cs) = literal? (c :: cs) := by
  have hnone : identifier? (c :: cs) = none := by
    simp [identifier?, hstart]
  have halias : afterAlias (c :: cs) = c :: cs := by
    unfold afterAlias
    rw [hnone]
    split
    · next heq => cases heq
    · next heq => cases heq
    · next heq => exact absurd (List.cons.inj heq).1 hdot
    · rfl
  rw [spec?, halias]

/-- A spec is read as the match of its expression reads it. -/
theorem spec?_eq :
    '^' :: specRegex.text
        = "^(?:[\\p\x7bL\x7d_][\\p\x7bL\x7d\\p\x7bN\x7d_]*\\s+|\\.\\s*)?(?:\"((?:[^\"\\\\\\n]|\\\\.)*)\"|\x60([^\x60]*)\x60)".toList
      ∧ ∀ cs : List Char, spec? cs = specRegex.read? cs := by
  refine ⟨by decide +kernel, fun cs => ?_⟩
  rw [Regex.read?, runs_specRegex]
  cases cs with
  | nil => rfl
  | cons c cs =>
      have hname : (Regex.seq nameStart afterStart).runs (c :: cs)
          = if isNameStart c then (afterStart.runs cs).map (Run.andThen ⟨[c], [], cs⟩)
            else [] := by
        rw [Regex.runs, runs_nameStart, one]
        split
        · exact followed_singleton _ _
        · rfl
      cases hstart : isNameStart c with
      | true =>
          rw [hname, if_pos hstart, spec?_of_isNameStart hstart,
            Regex.runs_seq_word_of_ne (ne_of_kind hstart (by decide)),
            runs_literal_of_ne (ne_of_kind hstart (by decide))
              (ne_of_kind hstart (by decide)),
            List.append_nil, List.append_nil]
          exact (Regex.reading?_map_andThen rfl _).symm
      | false =>
          rw [hname, hstart, if_neg (by decide), List.nil_append]
          by_cases hdot : c = '.'
          · subst hdot
            have hword : afterHead? ['.'] ('.' :: cs) = some cs :=
              afterHead?_eq_some_iff.mpr rfl
            rw [runs_literal_of_ne (by decide) (by decide), List.append_nil,
              ← Regex.read?, Regex.read?_seq_word, hword, spec?_dot]
            rfl
          · rw [Regex.runs_seq_word_of_ne hdot, List.nil_append, ← Regex.read?,
              ← literal?_eq, spec?_of_not hstart hdot]

end ImportChart.Source
