/-!
# Sets of names

A set of names is its strictly ascending list, by code point order. Two sets
with the same members are therefore the same list, and equal as values: what
is built by insertion does not remember in which order.
-/

namespace ImportChart

/-- A finite set of names, held as its strictly ascending list. -/
@[ext]
structure NameSet where
  toList : List String
  ascending : toList.Pairwise (· < ·)
  deriving DecidableEq

namespace NameSet

instance : Membership String NameSet := ⟨fun s x => x ∈ s.toList⟩

theorem mem_def {x : String} {s : NameSet} : x ∈ s ↔ x ∈ s.toList := Iff.rfl

instance (x : String) (s : NameSet) : Decidable (x ∈ s) :=
  inferInstanceAs (Decidable (x ∈ s.toList))

def empty : NameSet := ⟨[], .nil⟩

/-! ## Insertion -/

/-- Puts a name at its place in an ascending list, unless it stands there already. -/
def place (x : String) : List String → List String
  | [] => [x]
  | y :: ys => if x < y then x :: y :: ys else if x = y then y :: ys else y :: place x ys

@[simp] theorem mem_place {x z : String} {ys : List String} :
    z ∈ place x ys ↔ z = x ∨ z ∈ ys := by
  induction ys with
  | nil => simp [place]
  | cons y ys ih =>
    unfold place
    split
    · simp
    · split
      · simp_all
      · simp only [List.mem_cons, ih]
        constructor <;> rintro (h | h | h) <;> simp [h]

theorem pairwise_place (x : String) {ys : List String} (h : ys.Pairwise (· < ·)) :
    (place x ys).Pairwise (· < ·) := by
  induction h with
  | nil => simp [place]
  | @cons y ys hy hys ih =>
    unfold place
    split
    · next hxy =>
      refine .cons ?_ (.cons hy hys)
      rintro z (_ | ⟨_, hz⟩)
      · exact hxy
      · exact String.lt_trans hxy (hy z hz)
    · next hxy =>
      split
      · exact .cons hy hys
      · next hne =>
        refine .cons (fun z hz => ?_) ih
        rcases mem_place.mp hz with rfl | hz
        · exact Std.lt_of_le_of_ne (String.not_lt.mp hxy) (Ne.symm hne)
        · exact hy z hz

def insert (x : String) (s : NameSet) : NameSet :=
  ⟨place x s.toList, pairwise_place x s.ascending⟩

@[simp] theorem mem_insert {x z : String} {s : NameSet} :
    z ∈ s.insert x ↔ z = x ∨ z ∈ s := mem_place

/-! ## Sets from lists -/

def insertAll (s : NameSet) (xs : List String) : NameSet :=
  xs.foldl (fun s x => s.insert x) s

def ofList (xs : List String) : NameSet := empty.insertAll xs

@[simp] theorem not_mem_empty {z : String} : z ∉ empty := List.not_mem_nil

@[simp] theorem mem_insertAll {z : String} {s : NameSet} {xs : List String} :
    z ∈ s.insertAll xs ↔ z ∈ s ∨ z ∈ xs := by
  induction xs generalizing s with
  | nil => simp [insertAll]
  | cons x xs ih =>
    have : z ∈ insertAll (s.insert x) xs ↔ z ∈ s.insert x ∨ z ∈ xs := ih
    show z ∈ insertAll (s.insert x) xs ↔ _
    rw [this, mem_insert, List.mem_cons]
    grind

@[simp] theorem mem_ofList {z : String} {xs : List String} : z ∈ ofList xs ↔ z ∈ xs := by
  simp [ofList]

/-! ## One list for each set -/

theorem eq_of_ascending {xs ys : List String} (hx : xs.Pairwise (· < ·))
    (hy : ys.Pairwise (· < ·)) (h : ∀ z, z ∈ xs ↔ z ∈ ys) : xs = ys := by
  induction hx generalizing ys with
  | nil =>
    cases ys with
    | nil => rfl
    | cons y ys => exact absurd ((h y).mpr (by simp)) (by simp)
  | @cons x xs hx _ ih =>
    cases hy with
    | nil => exact absurd ((h x).mp (by simp)) (by simp)
    | @cons y ys hy hys =>
      have hxy : x = y := by
        rcases List.mem_cons.mp ((h x).mp (by simp)) with hxy | hxy
        · exact hxy
        · rcases List.mem_cons.mp ((h y).mpr (by simp)) with hyx | hyx
          · exact hyx.symm
          · exact absurd (hx y hyx) (String.lt_asymm (hy x hxy))
      subst hxy
      congr 1
      refine ih hys fun z => ?_
      have hz := h z
      simp only [List.mem_cons] at hz
      constructor
      · intro hzx
        rcases hz.mp (.inr hzx) with rfl | hzy
        · exact absurd (hx z hzx) (String.lt_irrefl z)
        · exact hzy
      · intro hzy
        rcases hz.mpr (.inr hzy) with rfl | hzx
        · exact absurd (hy z hzy) (String.lt_irrefl z)
        · exact hzx

/-- Sets with the same members are equal. -/
theorem eq_of_mem_iff {s t : NameSet} (h : ∀ z, z ∈ s ↔ z ∈ t) : s = t :=
  NameSet.ext (eq_of_ascending s.ascending t.ascending h)

end NameSet

end ImportChart
