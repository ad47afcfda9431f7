import ImportChart.Label

/-!
# Labels as numerals

A label is read back by `Label.value`: the numeral of a number has the value
of its successor (`value_letters`). Everything else that the charts need of
their labels follows from it and from the alphabet: a label is a word over A
to Z that is not empty, and different numbers have different labels
(`ofIndex_injective`). In the other direction every such word is the numeral of
its value (`letters_value`).
-/

namespace ImportChart.Label

def isLetter (c : Char) : Bool := 'A' ≤ c && c ≤ 'Z'

/-- The value of a word over A to Z, the empty word having the value 0. -/
def value (letters : List Char) : Nat :=
  letters.foldl (fun value c => 26 * value + (c.toNat - 'A'.toNat + 1)) 0

/-! ## Letters -/

theorem toNat_ofNat_of_isValidChar {n : Nat} (h : n.isValidChar) :
    (Char.ofNat n).toNat = n := by
  rw [Char.ofNat, dif_pos h]
  rfl

theorem toNat_letter {digit : Nat} (h : digit < 26) :
    (letter digit).toNat = 'A'.toNat + digit :=
  toNat_ofNat_of_isValidChar (Or.inl (by simp; omega))

theorem isLetter_iff {c : Char} :
    isLetter c = true ↔ 'A'.toNat ≤ c.toNat ∧ c.toNat ≤ 'Z'.toNat := by
  simp only [isLetter, Bool.and_eq_true, decide_eq_true_eq]
  exact Iff.rfl

theorem isLetter_letter {digit : Nat} (h : digit < 26) :
    isLetter (letter digit) = true := by
  rw [isLetter_iff, toNat_letter h]
  simp
  omega

theorem letter_of_isLetter {c : Char} (h : isLetter c = true) :
    letter (c.toNat - 'A'.toNat) = c := by
  rw [letter, Nat.add_sub_cancel' (isLetter_iff.mp h).1, Char.ofNat_toNat]

/-! ## Words -/

theorem value_append_singleton (cs : List Char) (c : Char) :
    value (cs ++ [c]) = 26 * value cs + (c.toNat - 'A'.toNat + 1) := by
  simp only [value, List.foldl_append, List.foldl_cons, List.foldl_nil]

theorem value_append_letter (cs : List Char) {digit : Nat} (h : digit < 26) :
    value (cs ++ [letter digit]) = 26 * value cs + (digit + 1) := by
  rw [value_append_singleton, toNat_letter h]
  omega

theorem value_pos {cs : List Char} (h : cs ≠ []) : 0 < value cs := by
  rw [← List.dropLast_concat_getLast h, value_append_singleton]
  omega

/-- Reading a numeral gives the number, counted from one. -/
theorem value_letters (index : Nat) : value (letters index) = index + 1 := by
  fun_induction letters index with
  | case1 index hlt =>
      have hone := value_append_letter [] hlt
      simpa [value] using hone
  | case2 index hge ih =>
      rw [value_append_letter _ (Nat.mod_lt index (by omega)), ih]
      omega

theorem letters_ne_nil (index : Nat) : letters index ≠ [] := by
  intro h
  have hvalue := value_letters index
  rw [h] at hvalue
  simp [value] at hvalue

theorem isLetter_of_mem_letters {index : Nat} :
    ∀ c ∈ letters index, isLetter c = true := by
  fun_induction letters index with
  | case1 index hlt =>
      intro c hc
      rw [List.mem_singleton.mp hc]
      exact isLetter_letter hlt
  | case2 index hge ih =>
      intro c hc
      rcases List.mem_append.mp hc with hfront | hlast
      · exact ih c hfront
      · rw [List.mem_singleton.mp hlast]
        exact isLetter_letter (Nat.mod_lt index (by omega))

/-- Writing what was read gives the word again. The recursion takes the letters
off the end, where the last digit of the number stands. -/
theorem letters_value {cs : List Char} (hne : cs ≠ [])
    (hall : ∀ c ∈ cs, isLetter c = true) : letters (value cs - 1) = cs := by
  obtain ⟨front, c, rfl⟩ : ∃ front c, cs = front ++ [c] :=
    ⟨_, _, (List.dropLast_concat_getLast hne).symm⟩
  have hletter := hall c (by simp)
  have hback := letter_of_isLetter hletter
  have hdigit : c.toNat - 'A'.toNat < 26 := by
    have hrange := isLetter_iff.mp hletter
    simp at hrange ⊢
    omega
  generalize hd : c.toNat - 'A'.toNat = digit at hback hdigit
  rw [value_append_singleton, hd, letters]
  by_cases hfront : front = []
  · simp [hfront, value, hdigit, hback]
  · have hpos := value_pos hfront
    have hdiv : (26 * value front + (digit + 1) - 1) / 26 = value front := by
      omega
    have hmod : (26 * value front + (digit + 1) - 1) % 26 = digit := by omega
    rw [if_neg (by omega), hdiv, hmod, hback,
      letters_value hfront fun x hx => hall x (by simp [hx])]
termination_by cs.length

/-! ## Labels -/

theorem letters_injective {i j : Nat} (h : letters i = letters j) : i = j := by
  have hvalue := congrArg value h
  rw [value_letters, value_letters] at hvalue
  exact Nat.succ.inj hvalue

/-- No two numbers share a label. -/
theorem ofIndex_injective {i j : Nat} (h : ofIndex i = ofIndex j) : i = j :=
  letters_injective (String.ofList_injective h)

end ImportChart.Label
