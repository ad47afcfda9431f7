import ImportChart.Proofs.JsonGrammar
import ImportChart.Proofs.Numeral

/-!
# Reading JSON strings

A string is read character by character up to its closing quote, a character with
all of its escape: the letter, the four digits, or the two halves of a pair. What is
read is what the grammar spells, in both directions: any spelling of a character is
read as that character whatever follows it (`charAt?_append`), and what is read as a
character is a spelling of it (`exists_of_charAt?`). The same holds of the characters
of a whole string (`charsAt?_append`, `exists_of_charsAt?`).
-/

namespace ImportChart.Json

open ImportChart.Label

/-! ## Characters -/

/-- A code unit at the front of a text, written with `\u`. -/
def unitAt? : List Char → Option (Nat × List Char)
  | '\\' :: 'u' :: first :: second :: third :: fourth :: rest =>
    (unit? first second third fourth).map (·, rest)
  | _ => none

instance (unit : Nat) : Decidable (IsHighHalf unit) := inferInstanceAs (Decidable (_ ∧ _))

instance (unit : Nat) : Decidable (IsLowHalf unit) := inferInstanceAs (Decidable (_ ∧ _))

/-- A character that is written as one code unit or as two. -/
def codeAt? (cs : List Char) : Option (Char × List Char) := do
  let (unit, rest) ← unitAt? cs
  if IsHighHalf unit then
    let (low, rest) ← unitAt? rest
    if IsLowHalf low then some (Char.ofNat (joinHalves unit low), rest) else none
  else if unit.isValidChar then some (Char.ofNat unit, rest) else none

/-- The first character of a string, and what stands behind it. -/
def charAt? : List Char → Option (Char × List Char)
  | '\\' :: 'u' :: cs => codeAt? ('\\' :: 'u' :: cs)
  | '\\' :: letter :: rest => (escaped? letter).map (·, rest)
  | c :: rest => if c ≠ '"' ∧ c ≠ '\\' ∧ 0x20 ≤ c.toNat then some (c, rest) else none
  | [] => none

theorem unitAt?_eq_some_iff {cs rest : List Char} {unit : Nat} :
    unitAt? cs = some (unit, rest) ↔ ∃ first second third fourth,
      cs = '\\' :: 'u' :: first :: second :: third :: fourth :: rest
        ∧ unit? first second third fourth = some unit := by
  constructor
  · intro h
    unfold unitAt? at h
    split at h
    · next first second third fourth more =>
        obtain ⟨read, hread, heq⟩ := Option.map_eq_some_iff.mp h
        obtain ⟨rfl, rfl⟩ := Prod.mk.inj heq
        exact ⟨first, second, third, fourth, rfl, hread⟩
    · cases h
  · rintro ⟨first, second, third, fourth, rfl, hread⟩
    rw [unitAt?, hread, Option.map_some]

theorem isValidChar_joinHalves {high low : Nat} (hhigh : IsHighHalf high)
    (hlow : IsLowHalf low) : (joinHalves high low).isValidChar := by
  obtain ⟨hfloor, hceiling⟩ := hhigh
  obtain ⟨hfloor', hceiling'⟩ := hlow
  have hlower : 0xDFFF < joinHalves high low := by unfold joinHalves; omega
  have hupper : joinHalves high low < 0x110000 := by unfold joinHalves; omega
  exact Or.inr ⟨hlower, hupper⟩

/-- The halves of a pair are no characters. -/
theorem not_isHighHalf_toNat (c : Char) : ¬ IsHighHalf c.toNat := by
  rintro ⟨hlow, hhigh⟩
  have hvalid : c.toNat.isValidChar := c.valid
  rcases hvalid with h | ⟨h, -⟩ <;> omega

theorem codeAt?_of_unit {c : Char} {cs rest : List Char}
    (h : unitAt? cs = some (c.toNat, rest)) : codeAt? cs = some (c, rest) := by
  have hvalid : c.toNat.isValidChar := c.valid
  simp only [codeAt?, h, Option.bind_eq_bind, Option.bind_some,
    if_neg (not_isHighHalf_toNat c), if_pos hvalid, Char.ofNat_toNat]

theorem codeAt?_of_halves {high low : Nat} {c : Char} {cs more rest : List Char}
    (hhigh : unitAt? cs = some (high, more)) (hlow : unitAt? more = some (low, rest))
    (hhigh' : IsHighHalf high) (hlow' : IsLowHalf low)
    (hc : c.toNat = joinHalves high low) : codeAt? cs = some (c, rest) := by
  simp only [codeAt?, hhigh, hlow, Option.bind_eq_bind, Option.bind_some,
    if_pos hhigh', if_pos hlow', ← hc, Char.ofNat_toNat]

theorem charAt?_append {c : Char} {spelled : List Char} (h : SpellsChar c spelled)
    (rest : List Char) : charAt? (spelled ++ rest) = some (c, rest) := by
  cases h with
  | self hquote hslash hplain =>
      rw [List.singleton_append, charAt?, if_pos ⟨hquote, hslash, hplain⟩]
      · rintro _ rfl
        exact absurd rfl hslash
      · rintro _ _ rfl
        exact absurd rfl hslash
  | @letter letter hletter =>
      rw [List.cons_append, List.singleton_append, charAt?, hletter, Option.map_some]
      rintro rfl
      cases hletter
  | code hunit =>
      exact codeAt?_of_unit (unitAt?_eq_some_iff.mpr ⟨_, _, _, _, rfl, hunit⟩)
  | pair hhigh hhigh' hlow hlow' hc =>
      exact codeAt?_of_halves (unitAt?_eq_some_iff.mpr ⟨_, _, _, _, rfl, hhigh⟩)
        (unitAt?_eq_some_iff.mpr ⟨_, _, _, _, rfl, hlow⟩) hhigh' hlow' hc

theorem exists_of_codeAt? {c : Char} {cs rest : List Char}
    (h : codeAt? cs = some (c, rest)) :
    ∃ spelled, cs = spelled ++ rest ∧ SpellsChar c spelled := by
  simp only [codeAt?, Option.bind_eq_bind, Option.bind_eq_some_iff] at h
  obtain ⟨⟨unit, more⟩, hat, h⟩ := h
  obtain ⟨first, second, third, fourth, rfl, hunit⟩ := unitAt?_eq_some_iff.mp hat
  dsimp only at h
  split at h
  · next hhigh =>
      rw [Option.bind_eq_some_iff] at h
      obtain ⟨⟨low, behind⟩, hat', h⟩ := h
      obtain ⟨first', second', third', fourth', rfl, hunit'⟩ :=
        unitAt?_eq_some_iff.mp hat'
      dsimp only at h
      split at h
      · next hlow =>
          obtain ⟨rfl, rfl⟩ := Prod.mk.inj (Option.some.inj h)
          exact ⟨_, rfl, .pair hunit hhigh hunit' hlow
            (toNat_ofNat_of_isValidChar (isValidChar_joinHalves hhigh hlow))⟩
      · cases h
  · split at h
    · next hvalid =>
        obtain ⟨rfl, rfl⟩ := Prod.mk.inj (Option.some.inj h)
        rw [← toNat_ofNat_of_isValidChar hvalid] at hunit
        exact ⟨_, rfl, .code hunit⟩
    · cases h

theorem exists_of_charAt? {c : Char} {cs rest : List Char}
    (h : charAt? cs = some (c, rest)) :
    ∃ spelled, cs = spelled ++ rest ∧ SpellsChar c spelled := by
  unfold charAt? at h
  split at h
  · exact exists_of_codeAt? h
  · next letter more hne =>
      obtain ⟨read, hread, heq⟩ := Option.map_eq_some_iff.mp h
      obtain ⟨rfl, rfl⟩ := Prod.mk.inj heq
      exact ⟨['\\', letter], rfl, .letter hread⟩
  · next first more _ _ =>
      split at h
      · next hplain =>
          obtain ⟨rfl, rfl⟩ := Prod.mk.inj (Option.some.inj h)
          exact ⟨[first], rfl, .self hplain.1 hplain.2.1 hplain.2.2⟩
      · cases h
  · cases h

theorem SpellsChar.ne_nil {c : Char} {spelled : List Char} (h : SpellsChar c spelled) :
    spelled ≠ [] := by
  cases h <;> exact List.cons_ne_nil _ _

theorem charAt?_length {c : Char} {cs rest : List Char}
    (h : charAt? cs = some (c, rest)) : rest.length < cs.length := by
  obtain ⟨spelled, rfl, hspelled⟩ := exists_of_charAt? h
  have hpos := List.length_pos_iff.mpr hspelled.ne_nil
  rw [List.length_append]
  omega

/-! ## Strings -/

/-- The characters of a string up to its closing quote, and what stands behind it. -/
def charsAt? (cs : List Char) : Option (List Char × List Char) :=
  if cs.head? = some '"' then some ([], cs.tail)
  else
    match _ : charAt? cs with
    | none => none
    | some (c, rest) => (charsAt? rest).map fun (read, rest) => (c :: read, rest)
termination_by cs.length
decreasing_by exact charAt?_length ‹_›

theorem charAt?_quote (rest : List Char) : charAt? ('"' :: rest) = none := rfl

theorem charsAt?_append {text spelled : List Char} (h : SpellsChars text spelled)
    (rest : List Char) : charsAt? (spelled ++ '"' :: rest) = some (text, rest) := by
  induction h with
  | nil => rw [charsAt?]; rfl
  | @cons c text spelled more hc _ ih =>
      have hread := charAt?_append hc (more ++ '"' :: rest)
      rw [List.append_assoc, charsAt?]
      split
      · next hhead =>
          -- a character is not spelled with a quote at its front
          obtain ⟨ds, hds⟩ := List.head?_eq_some_iff.mp hhead
          rw [hds, charAt?_quote] at hread
          cases hread
      · split
        · next hnone => rw [hread] at hnone; cases hnone
        · next heq =>
            rw [hread] at heq
            obtain ⟨rfl, rfl⟩ := Prod.mk.inj (Option.some.inj heq)
            rw [ih, Option.map_some]

theorem exists_of_charsAt? {cs text rest : List Char}
    (h : charsAt? cs = some (text, rest)) :
    ∃ spelled, cs = spelled ++ '"' :: rest ∧ SpellsChars text spelled := by
  fun_induction charsAt? cs generalizing text with
  | case1 cs hhead =>
      obtain ⟨ds, rfl⟩ := List.head?_eq_some_iff.mp hhead
      obtain ⟨rfl, rfl⟩ := Prod.mk.inj (Option.some.inj h)
      exact ⟨[], rfl, .nil⟩
  | case2 => cases h
  | case3 cs _ c more hc ih =>
      obtain ⟨⟨read, behind⟩, hread, heq⟩ := Option.map_eq_some_iff.mp h
      obtain ⟨rfl, rfl⟩ := Prod.mk.inj heq
      obtain ⟨spelled, rfl, hspelled⟩ := ih hread
      obtain ⟨front, rfl, hfront⟩ := exists_of_charAt? hc
      exact ⟨front ++ spelled, (List.append_assoc ..).symm, .cons hfront hspelled⟩

end ImportChart.Json
