import ImportChart.Proofs.Numeral
import Mathlib.Data.List.Shortlex
import Mathlib.Data.Set.Function

/-!
# The sequence of all labels

Numbers and labels are in bijection: every word over A to Z that is not empty is
the label of one number, its value less one. The labels come in the order of
their numbers, the shorter ones first and those of one length in alphabetical
order (`letters_shortlex`).

The letters of a number are also found from the last to the first, on words of
64 bits. The one subtraction of that loop comes behind a test that keeps it
from going below zero, so the loop runs to its end and finds the same letters
(`lettersOfWord?_eq`).
-/

namespace ImportChart.Label

/-! ## Labels and their order -/

/-- A word over A to Z that is not empty. -/
def IsLabel (label : String) : Prop :=
  label ≠ "" ∧ ∀ c ∈ label.toList, 'A' ≤ c ∧ c ≤ 'Z'

/-- The shorter label comes first, and of two of one length the one that comes
first in the alphabet. -/
def Precedes (label other : String) : Prop :=
  List.Shortlex (· < ·) label.toList other.toList

theorem isLabel_iff {label : String} :
    IsLabel label
      ↔ label.toList ≠ [] ∧ ∀ c ∈ label.toList, isLetter c = true := by
  unfold IsLabel isLetter
  simp only [ne_eq, String.toList_eq_nil_iff, Bool.and_eq_true,
    decide_eq_true_eq]

theorem isLabel_ofIndex (index : Nat) : IsLabel (ofIndex index) := by
  rw [isLabel_iff, ofIndex, String.toList_ofList]
  exact ⟨letters_ne_nil index, isLetter_of_mem_letters⟩

/-- Every label has a number: the value of its word, less one. -/
theorem exists_value_eq {label : String} (h : IsLabel label) :
    ∃ index, value label.toList = index + 1 ∧ ofIndex index = label := by
  obtain ⟨hne, hall⟩ := isLabel_iff.mp h
  have hpos := value_pos hne
  refine ⟨value label.toList - 1, by omega, ?_⟩
  rw [ofIndex, letters_value hne hall, String.ofList_toList]

theorem letter_lt_letter {digit other : Nat} (h : digit < other)
    (hother : other < 26) : letter digit < letter other := by
  show (letter digit).toNat < (letter other).toNat
  rw [toNat_letter (by omega), toNat_letter hother]
  omega

/-- Of two words of one length the first difference decides, whatever is put
behind them. -/
theorem lex_append_append {front front' : List Char}
    (h : List.Lex (· < ·) front front') (hlength : front.length = front'.length)
    (back back' : List Char) :
    List.Lex (· < ·) (front ++ back) (front' ++ back') := by
  induction h with
  | nil => cases hlength
  | cons _ ih => exact .cons (ih (Nat.succ.inj hlength))
  | rel hlt => exact .rel hlt

theorem shortlex_append_singleton {front front' : List Char}
    (h : List.Shortlex (· < ·) front front') (c d : Char) :
    List.Shortlex (· < ·) (front ++ [c]) (front' ++ [d]) := by
  rcases List.shortlex_def.mp h with hshort | ⟨hlength, hlex⟩
  · refine .of_length_lt ?_
    rw [List.length_append, List.length_append]
    exact Nat.succ_lt_succ hshort
  · refine .of_lex ?_ (lex_append_append hlex hlength [c] [d])
    rw [List.length_append, List.length_append, hlength]
    rfl

/-- A smaller number has the earlier letters. The quotients are compared before
the remainders, and the quotients stand in front. -/
theorem letters_shortlex {i j : Nat} (h : i < j) :
    List.Shortlex (· < ·) (letters i) (letters j) := by
  fun_induction letters j generalizing i with
  | case1 j hj =>
      rw [letters, if_pos (by omega), List.shortlex_singleton_iff]
      exact letter_lt_letter h hj
  | case2 j hj ih =>
      rw [letters]
      split
      · next hi =>
          have hfront := List.length_pos_iff.mpr (letters_ne_nil (j / 26 - 1))
          refine .of_length_lt ?_
          rw [List.length_append]
          exact Nat.succ_lt_succ hfront
      · next hi =>
          rcases Nat.lt_or_ge (i / 26) (j / 26) with hlt | hge
          · have hquotients : i / 26 - 1 < j / 26 - 1 := by omega
            exact shortlex_append_singleton (ih hquotients) _ _
          · have hquotients : i / 26 = j / 26 := by omega
            have hremainders : i % 26 < j % 26 := by omega
            rw [hquotients]
            refine .append_left ?_ _
            rw [List.shortlex_singleton_iff]
            exact letter_lt_letter hremainders (Nat.mod_lt j (by omega))

/-! ## The loop on machine words -/

theorem toNat_quotient (index : UInt64) :
    (index / 26).toNat = index.toNat / 26 :=
  UInt64.toNat_div index 26

theorem toNat_remainder (index : UInt64) :
    (index % 26).toNat = index.toNat % 26 :=
  UInt64.toNat_mod index 26

theorem lt_alphabet_iff {index : UInt64} : index < 26 ↔ index.toNat < 26 :=
  UInt64.lt_iff_toNat_lt

theorem one_le_quotient_iff {index : UInt64} :
    1 ≤ index / 26 ↔ 1 ≤ index.toNat / 26 := by
  rw [← toNat_quotient]
  exact UInt64.le_iff_toNat_le

/-- Where the subtraction stays above zero it is the one of numbers. -/
theorem toNat_quotient_sub_one {index : UInt64} (h : 1 ≤ index / 26) :
    (index / 26 - 1).toNat = index.toNat / 26 - 1 := by
  rw [← toNat_quotient]
  exact UInt64.toNat_sub_of_le (index / 26) 1 h

/-- The letters of a number, the last one first, in front of those that are
found already; none if the subtraction goes below zero. -/
def lettersOfWord? (index : UInt64) (found : List Char) : Option (List Char) :=
  if index < 26 then some (letter (index % 26).toNat :: found)
  else if 1 ≤ index / 26 then
    lettersOfWord? (index / 26 - 1) (letter (index % 26).toNat :: found)
  else none
termination_by index.toNat
decreasing_by
  next hend hone =>
    rw [lt_alphabet_iff] at hend
    rw [toNat_quotient_sub_one hone]
    omega

/-- The loop finds the letters of the number. It goes on only from 26 up, where
the quotient is not zero. -/
theorem lettersOfWord?_eq (index : UInt64) (found : List Char) :
    lettersOfWord? index found = some (letters index.toNat ++ found) := by
  fun_induction lettersOfWord? index found with
  | case1 index found hend =>
      have hsmall := lt_alphabet_iff.mp hend
      rw [letters, if_pos hsmall, List.singleton_append, toNat_remainder,
        Nat.mod_eq_of_lt hsmall]
  | case2 index found hgoes hone ih =>
      have hlarge : ¬index.toNat < 26 := fun h => hgoes (lt_alphabet_iff.mpr h)
      rw [ih, toNat_quotient_sub_one hone, letters.eq_def index.toNat,
        if_neg hlarge, toNat_remainder, List.append_assoc,
        List.singleton_append]
  | case3 index found hgoes hzero =>
      have hone : 1 ≤ index / 26 := by
        rw [lt_alphabet_iff] at hgoes
        rw [one_le_quotient_iff]
        omega
      exact absurd hone hzero

/-! ## All labels in order -/

/-- Numbers and labels are in bijection, in the order of both; each label has
the number that its word spells in bijective base 26, less one; and the loop on
words of 64 bits finds the label of every such number, without a subtraction
that goes below zero. -/
theorem ofIndex_enumerates :
    Set.BijOn ofIndex Set.univ {label | IsLabel label}
      ∧ (∀ i j, i < j → Precedes (ofIndex i) (ofIndex j))
      ∧ (∀ label, IsLabel label →
        ∃ index, value label.toList = index + 1 ∧ ofIndex index = label)
      ∧ ∀ index : UInt64, (lettersOfWord? index []).map String.ofList
        = some (ofIndex index.toNat) := by
  refine ⟨⟨fun index _ => isLabel_ofIndex index,
      fun _ _ _ _ => ofIndex_injective, fun label hlabel => ?_⟩,
    fun i j hlt => ?_, fun _ => exists_value_eq, fun index => ?_⟩
  · obtain ⟨index, -, hindex⟩ := exists_value_eq hlabel
    exact ⟨index, Set.mem_univ index, hindex⟩
  · rw [Precedes, ofIndex, ofIndex, String.toList_ofList, String.toList_ofList]
    exact letters_shortlex hlt
  · rw [lettersOfWord?_eq, List.append_nil, Option.map_some, ofIndex]

end ImportChart.Label
