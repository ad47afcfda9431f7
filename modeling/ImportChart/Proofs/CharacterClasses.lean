import ImportChart.Proofs.CommentSegments
import ImportChart.Source.Header

/-!
# Characters of a header

Blanks, separators and the characters of identifiers are disjoint kinds, and
none of them opens a comment or a literal. The blanks are few enough to be
listed, and with the list the tables of letters and numbers can be asked for
each of them.
-/

namespace ImportChart

namespace Text

/-- The code points of the blanks. -/
def blankCodes : List Nat :=
  [0x09, 0x0A, 0x0B, 0x0C, 0x0D, 0x20, 0x85, 0xA0, 0x1680, 0x2000, 0x2001,
    0x2002, 0x2003, 0x2004, 0x2005, 0x2006, 0x2007, 0x2008, 0x2009, 0x200A,
    0x2028, 0x2029, 0x202F, 0x205F, 0x3000]

theorem toNat_mem_blankCodes {c : Char} (h : isBlank c = true) :
    c.toNat ∈ blankCodes := by
  simp only [isBlank, Bool.or_eq_true, Bool.and_eq_true, decide_eq_true_eq,
    beq_iff_eq] at h
  simp only [blankCodes, List.mem_cons, List.not_mem_nil, or_false]
  omega

theorem isNameChar_of_isBlank {c : Char} (h : isBlank c = true) :
    isNameChar c = false := by
  have hcodes :
      ∀ n ∈ blankCodes, isNameChar (Char.ofNat n) = false := by decide +kernel
  rw [← c.ofNat_toNat]
  exact hcodes _ (toNat_mem_blankCodes h)

theorem isNameChar_of_isNameStart {c : Char} (h : isNameStart c = true) :
    isNameChar c = true := by
  rw [isNameChar, h, Bool.true_or]

/-- A character of one kind is none that is not of it. -/
theorem ne_of_kind {p : Char → Bool} {c d : Char} (hc : p c = true)
    (hd : p d = false) : c ≠ d := by
  rintro rfl
  rw [hc] at hd
  cases hd

end Text

namespace Source

open Text

theorem isSeparator_of_isBlank {c : Char} (h : isBlank c = true) :
    isSeparator c = true := by
  rw [isSeparator, h, Bool.true_or]

theorem isNameChar_of_isSeparator {c : Char} (h : isSeparator c = true) :
    isNameChar c = false := by
  rw [isSeparator, Bool.or_eq_true, beq_iff_eq] at h
  rcases h with h | rfl
  · exact isNameChar_of_isBlank h
  · decide

theorem isBlank_of_isNameChar {c : Char} (h : isNameChar c = true) :
    isBlank c = false := by
  refine Bool.eq_false_iff.mpr fun hblank => ?_
  rw [isNameChar_of_isBlank hblank] at h
  cases h

theorem isPlain_of_isSeparator {c : Char} (h : isSeparator c = true) :
    IsPlain c :=
  ⟨ne_of_kind h (by decide), ne_of_kind h (by decide),
    ne_of_kind h (by decide), ne_of_kind h (by decide)⟩

theorem isWordChar_of_isNameChar {c : Char} (h : isNameChar c = true) :
    IsWordChar c :=
  ⟨⟨ne_of_kind h (by decide), ne_of_kind h (by decide),
    ne_of_kind h (by decide), ne_of_kind h (by decide)⟩,
    ne_of_kind h (by decide), ne_of_kind h (by decide)⟩

end Source

end ImportChart
