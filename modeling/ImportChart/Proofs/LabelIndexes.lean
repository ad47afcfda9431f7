import ImportChart.Label
import ImportChart.Proofs.Numeral

/-!
# The indexes of a label book

A book says the same thing three times: a row pairs a key with its label, and
two indexes lead from the key and from the label to the number of that row.
`Agrees` says that the three fit together. The empty book agrees
(`agrees_empty`), and a book that agrees still does when it has handed out one
more label (`Agrees.assign`).

A new row cannot take over a key, since a key is only given a row when the index
has none for it. For the labels there is no such test. What keeps a new row from
taking over the label of an earlier one is that no two numbers share a label
(`Label.ofIndex_injective`).
-/

namespace ImportChart.LabelBook

/-- `Agrees book`: each row has the label of its number, and the indexes lead
from every key and from every label to the one row that holds it, and from
nothing else to anywhere. -/
structure Agrees (book : LabelBook) : Prop where
  label : ∀ {index : Nat} {key label : String},
    book.rows[index]? = some (key, label) → label = Label.ofIndex index
  byKey : ∀ {key : String} {index : Nat},
    book.byKey.lookup key = some index
      ↔ ∃ label, book.rows[index]? = some (key, label)
  byLabel : ∀ {label : String} {index : Nat},
    book.byLabel.lookup label = some index
      ↔ ∃ key, book.rows[index]? = some (key, label)

theorem agrees_empty : Agrees empty where
  label h := by cases h
  byKey := by simp [empty]
  byLabel := by simp [empty]

/-! ## One more row -/

/-- The rows of a grown book are those it had and the new one. -/
theorem getElem?_rows_push {book : LabelBook} {new : String} {index : Nat}
    {row : String × String} :
    (book.push new).rows[index]? = some row
      ↔ book.rows[index]? = some row
        ∨ index = book.rows.length ∧ row = (new, Label.ofIndex index) := by
  rw [push, List.getElem?_append]
  rcases Nat.lt_trichotomy index book.rows.length with hlt | rfl | hgt
  · rw [if_pos hlt]
    exact (or_iff_left fun h => absurd h.1 (Nat.ne_of_lt hlt)).symm
  · simp [eq_comm]
  · rw [if_neg (by omega), List.getElem?_eq_none (by simp; omega),
      List.getElem?_eq_none (by omega)]
    simp
    omega

theorem lookup_cons_iff {key new : String} {index last : Nat}
    {table : List (String × Nat)} :
    ((new, last) :: table).lookup key = some index
      ↔ key = new ∧ index = last
        ∨ key ≠ new ∧ table.lookup key = some index := by
  by_cases h : key = new
  · simp [h, eq_comm]
  · simp [List.lookup_cons, h, beq_eq_false_iff_ne.mpr h]

variable {book : LabelBook}

/-- A row of an agreeing book is known by its number. -/
theorem Agrees.ofIndex_ne (h : Agrees book) {index : Nat} {key label : String}
    (hrow : book.rows[index]? = some (key, label)) :
    label ≠ Label.ofIndex book.rows.length := by
  intro heq
  rw [h.label hrow] at heq
  have hplace : index = book.rows.length := Label.ofIndex_injective heq
  rw [hplace, List.getElem?_eq_none (Nat.le_refl _)] at hrow
  cases hrow

/-- A key without a row can be given one. -/
theorem Agrees.push (h : Agrees book) {key : String}
    (hnew : book.byKey.lookup key = none) : Agrees (book.push key) where
  label hrow := by
    rcases getElem?_rows_push.mp hrow with hold | ⟨-, hrow⟩
    · exact h.label hold
    · exact (Prod.mk.inj hrow).2
  byKey {other index} := by
    have hother : ∀ label, book.rows[index]? = some (other, label) →
        other ≠ key := by
      rintro label hrow rfl
      rw [h.byKey.mpr ⟨label, hrow⟩] at hnew
      cases hnew
    simp only [getElem?_rows_push, byKey_push, lookup_cons_iff, h.byKey,
      Prod.mk.injEq]
    constructor
    · rintro (⟨rfl, rfl⟩ | ⟨-, label, hrow⟩)
      · exact ⟨_, Or.inr ⟨rfl, rfl, rfl⟩⟩
      · exact ⟨label, Or.inl hrow⟩
    · rintro ⟨label, hrow | ⟨rfl, rfl, -⟩⟩
      · exact Or.inr ⟨hother label hrow, label, hrow⟩
      · exact Or.inl ⟨rfl, rfl⟩
  byLabel {label index} := by
    simp only [getElem?_rows_push, byLabel_push, lookup_cons_iff, h.byLabel,
      Prod.mk.injEq]
    constructor
    · rintro (⟨rfl, rfl⟩ | ⟨-, other, hrow⟩)
      · exact ⟨key, Or.inr ⟨rfl, rfl, rfl⟩⟩
      · exact ⟨other, Or.inl hrow⟩
    · rintro ⟨other, hrow | ⟨rfl, -, rfl⟩⟩
      · exact Or.inr ⟨h.ofIndex_ne hrow, other, hrow⟩
      · exact Or.inl ⟨rfl, rfl⟩

/-- Handing out a label keeps the three in agreement. -/
theorem Agrees.assign (h : Agrees book) (key : String) :
    Agrees (book.assign key).2 := by
  rw [LabelBook.assign]
  split
  · exact h
  · next hnew => exact h.push hnew

/-! ## What an agreeing book says -/

theorem mem_keys {key : String} :
    key ∈ book.keys
      ↔ ∃ (index : Nat) (label : String),
        book.rows[index]? = some (key, label) := by
  rw [keys, List.mem_map]
  constructor
  · rintro ⟨⟨_, label⟩, hrow, rfl⟩
    obtain ⟨index, hindex⟩ := List.mem_iff_getElem?.mp hrow
    exact ⟨index, label, hindex⟩
  · rintro ⟨index, label, hrow⟩
    exact ⟨_, List.mem_of_getElem? hrow, rfl⟩

theorem row_eq {index : Nat} {row : String × String}
    (h : book.rows[index]? = some row) : book.row index = row := by
  rw [LabelBook.row, List.getD_eq_getElem?_getD, h, Option.getD_some]

theorem Agrees.mem_keys_iff (h : Agrees book) {key : String} :
    key ∈ book.keys ↔ ∃ index, book.byKey.lookup key = some index := by
  simp only [h.byKey, mem_keys]

theorem Agrees.lookup_eq_none_iff (h : Agrees book) {key : String} :
    book.byKey.lookup key = none ↔ key ∉ book.keys := by
  rw [h.mem_keys_iff, Option.eq_none_iff_forall_ne_some, not_exists]

/-- The label of a key is found where a row pairs the two. -/
theorem Agrees.get?_eq_some_iff (h : Agrees book) {key label : String} :
    book.get? key = some label ↔ (key, label) ∈ book.rows := by
  rw [get?, Option.map_eq_some_iff, List.mem_iff_getElem?]
  constructor
  · rintro ⟨index, hindex, rfl⟩
    obtain ⟨label, hrow⟩ := h.byKey.mp hindex
    exact ⟨index, by rw [hrow, row_eq hrow]⟩
  · rintro ⟨index, hrow⟩
    exact ⟨index, h.byKey.mpr ⟨label, hrow⟩, by rw [row_eq hrow]⟩

theorem Agrees.get?_eq_none_iff (h : Agrees book) {key : String} :
    book.get? key = none ↔ key ∉ book.keys := by
  rw [get?, Option.map_eq_none_iff, h.lookup_eq_none_iff]

/-- And so is the key of a label. -/
theorem Agrees.key?_eq_some_iff (h : Agrees book) {key label : String} :
    book.key? label = some key ↔ (key, label) ∈ book.rows := by
  rw [key?, Option.map_eq_some_iff, List.mem_iff_getElem?]
  constructor
  · rintro ⟨index, hindex, rfl⟩
    obtain ⟨key, hrow⟩ := h.byLabel.mp hindex
    exact ⟨index, by rw [hrow, row_eq hrow]⟩
  · rintro ⟨index, hrow⟩
    exact ⟨index, h.byLabel.mpr ⟨key, hrow⟩, by rw [row_eq hrow]⟩

theorem size_eq_length_keys (book : LabelBook) : book.size = book.keys.length := by
  rw [size, keys, List.length_map]

/-- The entries are the keys, numbered from the first label on. -/
theorem Agrees.getElem?_entries (h : Agrees book) (index : Nat) :
    book.entries[index]?
      = book.keys[index]?.map fun key => (Label.ofIndex index, key) := by
  rw [entries, keys, List.getElem?_map, List.getElem?_map, Option.map_map]
  cases hrow : book.rows[index]? with
  | none => rfl
  | some row =>
      have hlabel : row.2 = Label.ofIndex index := h.label hrow
      simp [hlabel]

/-- No key has two rows: the index leads to one of them only. -/
theorem Agrees.nodup_keys (h : Agrees book) : book.keys.Nodup := by
  have hplace (index : Nat) (hlt : index < book.keys.length) :
      book.byKey.lookup book.keys[index] = some index := by
    have hrow : index < book.rows.length := by simpa [keys] using hlt
    exact h.byKey.mpr ⟨book.rows[index].2, by simp [keys, hrow]⟩
  refine List.pairwise_iff_getElem.mpr fun i j hi hj hlt heq => ?_
  have hindex := hplace j hj
  rw [← heq, hplace i hi] at hindex
  exact Nat.ne_of_lt hlt (Option.some.inj hindex)

end ImportChart.LabelBook
