import ImportChart.Text.Blank
import ImportChart.Text.Letter

/-!
# Literals and import specs

An import path is written as a literal, in double quotes on one line or in
backquotes. The text of a literal is what stands between the quotes, taken as
it is: escapes are recognised, so that an escaped quote does not end the
literal, but they are not decoded.

A reader here returns what it has read and the rest of the text, and the rest
is always shorter than the text.
-/

namespace ImportChart.Source

open ImportChart.Text

/-! ## One literal -/

/-- Reads to the closing double quote. A backslash takes the next character
with it, and no line feed may come before the closing quote, escaped or not. -/
def quotedText? : List Char → Option (List Char × List Char)
  | [] => none
  | c :: cs =>
    if c = '"' then some ([], cs)
    else if c = '\n' then none
    else if c = '\\' then
      match cs with
      | [] => none
      | d :: ds =>
        if d = '\n' then none
        else (quotedText? ds).map fun read => (c :: d :: read.1, read.2)
    else (quotedText? cs).map fun read => (c :: read.1, read.2)

def rawText? : List Char → Option (List Char × List Char)
  | [] => none
  | c :: cs =>
    if c = '\x60' then some ([], cs)
    else (rawText? cs).map fun read => (c :: read.1, read.2)

/-- The literal at the head of a text: what it says, and what follows it. -/
def literal? : List Char → Option (List Char × List Char)
  | [] => none
  | c :: cs =>
    if c = '"' then quotedText? cs else if c = '\x60' then rawText? cs else none

theorem length_quotedText? {cs text rest : List Char}
    (h : quotedText? cs = some (text, rest)) : rest.length < cs.length := by
  fun_induction quotedText? cs generalizing text with
  | case1 | case3 | case4 | case5 => cases h
  | case2 => cases h; simp
  | case6 _ _ _ _ _ ih | case7 _ _ _ _ _ ih =>
    obtain ⟨read, hr, he⟩ := Option.map_eq_some_iff.mp h
    cases he
    have := ih hr
    simp
    omega

theorem length_rawText? {cs text rest : List Char}
    (h : rawText? cs = some (text, rest)) : rest.length < cs.length := by
  fun_induction rawText? cs generalizing text with
  | case1 => cases h
  | case2 => cases h; simp
  | case3 c cs _ ih =>
    obtain ⟨read, hr, he⟩ := Option.map_eq_some_iff.mp h
    cases he
    have := ih hr
    simp
    omega

theorem length_literal? {cs text rest : List Char}
    (h : literal? cs = some (text, rest)) : rest.length < cs.length := by
  cases cs with
  | nil => cases h
  | cons c cs =>
    simp only [literal?] at h
    split at h
    · exact Nat.lt_succ_of_lt (length_quotedText? h)
    · split at h
      · exact Nat.lt_succ_of_lt (length_rawText? h)
      · cases h

/-! ## A group and a single spec -/

/-- Every literal of an import group, from left to right. Whatever is no
literal is passed over, also a quote that opens none. -/
def literals (cs : List Char) : List (List Char) :=
  match cs with
  | [] => []
  | c :: cs =>
    match h : literal? (c :: cs) with
    | some (text, rest) =>
      have : rest.length < cs.length + 1 := length_literal? h
      text :: literals rest
    | none => literals cs
termination_by cs.length

/-- What follows an alias: an identifier and at least one blank, or a dot.
Without an alias, the whole text. -/
def afterAlias (cs : List Char) : List Char :=
  match identifier? cs, cs with
  | some (_, []), _ => cs
  | some (_, c :: rest), _ => if isBlank c then trimStart rest else cs
  | none, '.' :: rest => trimStart rest
  | none, _ => cs

/-- The path of the import spec at the head of a text, and what follows the spec. -/
def spec? (cs : List Char) : Option (List Char × List Char) := literal? (afterAlias cs)

theorem length_afterAlias_le (cs : List Char) : (afterAlias cs).length ≤ cs.length := by
  unfold afterAlias
  split
  · exact Nat.le_refl _
  · next name c rest h =>
    split
    · have := congrArg List.length (identifier?_append h)
      have := length_trimStart_le rest
      simp at *
      omega
    · exact Nat.le_refl _
  · next rest _ =>
    have := length_trimStart_le rest
    simp
    omega
  · exact Nat.le_refl _

theorem length_spec? {cs text rest : List Char} (h : spec? cs = some (text, rest)) :
    rest.length < cs.length :=
  Nat.lt_of_lt_of_le (length_literal? h) (length_afterAlias_le cs)

end ImportChart.Source
