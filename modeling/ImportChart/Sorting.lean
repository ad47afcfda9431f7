/-!
# Sorting

A list put in order by insertion. Of two elements of which each may stand
before the other, either may come first, so the result is only determined for
an order that tells all elements apart.
-/

namespace ImportChart.Sorting

variable {α : Type}

/-- Puts an element in front of the first one that it may stand before. -/
def insert (le : α → α → Bool) (x : α) : List α → List α
  | [] => [x]
  | y :: ys => if le x y then x :: y :: ys else y :: insert le x ys

def sort (le : α → α → Bool) (xs : List α) : List α := xs.foldr (insert le) []

/-! ## Nothing is lost -/

theorem insert_perm (le : α → α → Bool) (x : α) (ys : List α) :
    (insert le x ys).Perm (x :: ys) := by
  induction ys with
  | nil => exact .refl _
  | cons y ys ih =>
    unfold insert
    split
    · exact .refl _
    · exact (ih.cons y).trans (.swap x y ys)

theorem sort_perm (le : α → α → Bool) (xs : List α) : (sort le xs).Perm xs := by
  induction xs with
  | nil => exact .refl _
  | cons x xs ih => exact (insert_perm le x (sort le xs)).trans (ih.cons x)

@[simp] theorem mem_sort {le : α → α → Bool} {x : α} {xs : List α} :
    x ∈ sort le xs ↔ x ∈ xs :=
  (sort_perm le xs).mem_iff

/-! ## The result is in order -/

theorem pairwise_insert {le : α → α → Bool} (total : ∀ a b, le a b || le b a)
    (trans : ∀ a b c, le a b → le b c → le a c) (x : α) {ys : List α}
    (h : ys.Pairwise fun a b => le a b) : (insert le x ys).Pairwise fun a b => le a b := by
  induction h with
  | nil => simp [insert]
  | @cons y ys hy hys ih =>
    unfold insert
    split
    · next hxy =>
      refine .cons (fun z hz => ?_) (.cons hy hys)
      rcases List.mem_cons.mp hz with rfl | hz
      · exact hxy
      · exact trans x y z hxy (hy z hz)
    · next hxy =>
      refine .cons (fun z hz => ?_) ih
      rcases List.mem_cons.mp ((insert_perm le x ys).mem_iff.mp hz) with rfl | hz
      · have := total y z
        simp_all
      · exact hy z hz

theorem pairwise_sort {le : α → α → Bool} (total : ∀ a b, le a b || le b a)
    (trans : ∀ a b c, le a b → le b c → le a c) (xs : List α) :
    (sort le xs).Pairwise fun a b => le a b := by
  induction xs with
  | nil => exact .nil
  | cons x xs ih => exact pairwise_insert total trans x ih

/-- Under an order that tells the elements apart, it does not matter how they
stood before. -/
theorem sort_eq_of_perm {le : α → α → Bool} (total : ∀ a b, le a b || le b a)
    (trans : ∀ a b c, le a b → le b c → le a c) {xs ys : List α}
    (antisymm : ∀ a ∈ xs, ∀ b ∈ ys, le a b → le b a → a = b) (h : xs.Perm ys) :
    sort le xs = sort le ys := by
  refine List.Perm.eq_of_pairwise ?_ (pairwise_sort total trans xs)
    (pairwise_sort total trans ys)
    ((sort_perm le xs).trans (h.trans (sort_perm le ys).symm))
  exact fun a b ha hb => antisymm a (mem_sort.mp ha) b (mem_sort.mp hb)

/-! ## Some of the elements -/

theorem filter_insert {le : α → α → Bool} (trans : ∀ a b c, le a b → le b c → le a c)
    (keep : α → Bool) (x : α) {ys : List α} (h : ys.Pairwise fun a b => le a b) :
    (insert le x ys).filter keep
      = if keep x then insert le x (ys.filter keep) else ys.filter keep := by
  induction h with
  | nil => simp [insert, List.filter_cons]
  | @cons y ys hy hys ih =>
    by_cases hxy : le x y
    · -- `x` may stand before `y`, so also before whatever is kept behind `y`
      have hfront : insert le x ((y :: ys).filter keep) = x :: (y :: ys).filter keep := by
        cases hkept : (y :: ys).filter keep with
        | nil => rfl
        | cons z zs =>
          have hz : z ∈ (y :: ys).filter keep := hkept ▸ List.mem_cons_self ..
          have hxz : le x z := by
            rcases List.mem_cons.mp (List.mem_filter.mp hz).1 with rfl | hz
            · exact hxy
            · exact trans x y z hxy (hy z hz)
          rw [insert, if_pos hxz]
      rw [insert, if_pos hxy, List.filter_cons, hfront]
    · rw [insert, if_neg hxy, List.filter_cons, List.filter_cons, ih]
      by_cases hkeep : keep y
      · rw [if_pos hkeep, if_pos hkeep, insert, if_neg hxy]
        split <;> rfl
      · rw [if_neg hkeep, if_neg hkeep]

/-- It makes no difference whether elements are left out before or after sorting. -/
theorem filter_sort {le : α → α → Bool} (total : ∀ a b, le a b || le b a)
    (trans : ∀ a b c, le a b → le b c → le a c) (keep : α → Bool) (xs : List α) :
    (sort le xs).filter keep = sort le (xs.filter keep) := by
  induction xs with
  | nil => rfl
  | cons x xs ih =>
    have hsort : sort le (x :: xs) = insert le x (sort le xs) := rfl
    rw [hsort, filter_insert trans keep x (pairwise_sort total trans xs), ih, List.filter_cons]
    split <;> rfl

end ImportChart.Sorting
