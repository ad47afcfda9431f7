import ImportChart.Proofs.Labelling

/-!
# Runs of a label book

A book is used by calls. One kind of call hands out a label, the others look
something up. What a book says after any run of calls from the empty book can
be told by the calls and by the labels that they were given (`accounts_run`).

The lookups leave the book alone, so a run is a walk along the keys of its label
calls (`run_eq`). Each step of it keeps the rows and the two indexes in
agreement (`Agrees.after`, `Agrees.run`), and the keys of the book are those
that were called for, each once, in the order of the first calls (`keys_run`).
The label that a call is given is the label its key has ever after
(`mem_handedOut`). By the agreement the indexes then find what was handed out,
from the key and from the label, and nothing else.
-/

namespace ImportChart.LabelBook

/-! ## Calls -/

/-- What a book is asked for. -/
inductive Call
  | label (key : String)
  | get (key : String)
  | keyOf (label : String)
  | entries
  | size
  deriving DecidableEq

inductive Answer
  | text (found : Option String)
  | entries (entries : List (String × String))
  | size (size : Nat)
  deriving DecidableEq

/-- The answer to a call, and the book after it. -/
def respond (book : LabelBook) : Call → Answer × LabelBook
  | .label key => (.text (some (book.assign key).1), (book.assign key).2)
  | .get key => (.text (book.get? key), book)
  | .keyOf label => (.text (book.key? label), book)
  | .entries => (.entries book.entries, book)
  | .size => (.size book.size, book)

def after (book : LabelBook) (call : Call) : LabelBook := (book.respond call).2

/-- The book after a run of calls. -/
def run (book : LabelBook) (calls : List Call) : LabelBook :=
  calls.foldl after book

/-- The label calls of a run, each as its key and the label that it is given. -/
def handedOut (book : LabelBook) : List Call → List (String × String)
  | [] => []
  | call :: calls =>
    match call, (book.respond call).1 with
    | .label key, .text (some label) =>
        (key, label) :: handedOut (book.after call) calls
    | _, _ => handedOut (book.after call) calls

/-- The key that a call asks a label for. -/
def Call.labelled? : Call → Option String
  | .label key => some key
  | .get _ | .keyOf _ | .entries | .size => none

/-- The keys of the label calls of a run, as often as they are called for. -/
def labelled (calls : List Call) : List String :=
  calls.filterMap Call.labelled?

theorem mem_labelled {calls : List Call} {key : String} :
    key ∈ labelled calls ↔ Call.label key ∈ calls := by
  rw [labelled, List.mem_filterMap]
  constructor
  · rintro ⟨call, hcall, hkey⟩
    cases call with
    | label first =>
        cases hkey
        exact hcall
    | get _ | keyOf _ | entries | size => cases hkey
  · exact fun h => ⟨_, h, rfl⟩

/-- One call keeps the rows and the indexes in agreement. -/
theorem Agrees.after {book : LabelBook} (h : Agrees book) (call : Call) :
    Agrees (book.after call) := by
  cases call with
  | label key => exact h.assign key
  | get _ | keyOf _ | entries | size => exact h

theorem Agrees.after_of_known {book : LabelBook} (h : Agrees book) {call : Call}
    (hknown : ∀ key, call = .label key → key ∈ book.keys) :
    book.after call = book := by
  cases call with
  | label key =>
      show (book.assign key).2 = book
      rw [h.assign_of_mem (hknown key rfl)]
  | get _ | keyOf _ | entries | size => rfl

/-! ## Runs -/

/-- And so does a run of calls. -/
theorem Agrees.run : ∀ (calls : List Call) {book : LabelBook},
    Agrees book → Agrees (book.run calls)
  | [], _, h => h
  | call :: calls, _, h => Agrees.run calls (h.after call)

theorem agrees_run (calls : List Call) : Agrees (empty.run calls) :=
  Agrees.run calls agrees_empty

theorem run_eq : ∀ (calls : List Call) (book : LabelBook),
    book.run calls = Chart.labelAll book (labelled calls)
  | [], _ => rfl
  | .label key :: calls, book => run_eq calls (book.assign key).2
  | .get _ :: calls, book => run_eq calls book
  | .keyOf _ :: calls, book => run_eq calls book
  | .entries :: calls, book => run_eq calls book
  | .size :: calls, book => run_eq calls book

theorem keys_run (calls : List Call) :
    (empty.run calls).keys = (labelled calls).eraseDups := by
  rw [run_eq, Chart.keys_labelAll_empty]

theorem mem_keys_run {calls : List Call} {key : String} :
    key ∈ (empty.run calls).keys ↔ key ∈ labelled calls := by
  rw [keys_run, List.mem_eraseDups]

theorem Agrees.keys_prefix_run {book : LabelBook} (h : Agrees book)
    (calls : List Call) : book.keys <+: (book.run calls).keys := by
  rw [run_eq]
  exact Chart.keys_prefix_labelAll (labelled calls) h

/-- What is handed out in a run is what the book at its end says. -/
theorem Agrees.mem_handedOut {key label : String} :
    ∀ (calls : List Call) {book : LabelBook}, Agrees book →
    ((key, label) ∈ handedOut book calls
      ↔ key ∈ labelled calls ∧ label = (book.run calls).label key)
  | [], _, _ => by simp [handedOut, labelled]
  | .label first :: calls, book, h => by
      have hfirst := h.assign first
      have hrest : (key, label) ∈ handedOut (book.assign first).2 calls ↔ _ :=
        Agrees.mem_handedOut calls hfirst
      have hgiven : (book.assign first).1
          = ((book.assign first).2.run calls).label first := by
        rw [h.fst_assign, label_of_grown (hfirst.keys_prefix_run calls)
          (h.mem_keys_assign_self first)]
      have hlabelled :
          labelled (.label first :: calls) = first :: labelled calls := rfl
      show (key, label) ∈ (first, (book.assign first).1)
        :: handedOut (book.assign first).2 calls ↔ _
      rw [List.mem_cons, hrest, hgiven, hlabelled, List.mem_cons, Prod.mk.injEq]
      constructor
      · rintro (⟨rfl, hlabel⟩ | ⟨hkey, hlabel⟩)
        · exact ⟨Or.inl rfl, hlabel⟩
        · exact ⟨Or.inr hkey, hlabel⟩
      · rintro ⟨rfl | hkey, hlabel⟩
        · exact Or.inl ⟨rfl, hlabel⟩
        · exact Or.inr ⟨hkey, hlabel⟩
  | .get _ :: calls, _, h => Agrees.mem_handedOut calls h
  | .keyOf _ :: calls, _, h => Agrees.mem_handedOut calls h
  | .entries :: calls, _, h => Agrees.mem_handedOut calls h
  | .size :: calls, _, h => Agrees.mem_handedOut calls h

/-- The rows at the end of a run are the pairs that were handed out. -/
theorem mem_handedOut_iff_mem_rows {calls : List Call} {key label : String} :
    (key, label) ∈ handedOut empty calls ↔ (key, label) ∈ (empty.run calls).rows := by
  rw [agrees_empty.mem_handedOut calls, (agrees_run calls).rows_eq, List.mem_map,
    ← mem_keys_run]
  constructor
  · rintro ⟨hkey, rfl⟩
    exact ⟨key, hkey, rfl⟩
  · rintro ⟨_, hkey, heq⟩
    cases heq
    exact ⟨hkey, rfl⟩

/-! ## What a book says -/

/-- `Accounts calls book`: the book says what the calls have made of it. -/
structure Accounts (calls : List Call) (book : LabelBook) : Prop where
  /-- The rows and the two indexes fit together. -/
  agrees : book.Agrees
  /-- The keys in the order of their first label call, numbered from the first
  label on. -/
  entries : ∀ index, book.entries[index]?
    = (labelled calls).eraseDups[index]?.map fun key =>
      (Label.ofIndex index, key)
  size : book.size = (labelled calls).eraseDups.length
  /-- A key is given one label at every call, and no other key is given it. -/
  faithful : ∀ key key' label label', (key, label) ∈ handedOut empty calls →
    (key', label') ∈ handedOut empty calls → (label = label' ↔ key = key')
  get : ∀ key label,
    book.get? key = some label ↔ (key, label) ∈ handedOut empty calls
  unknownKey : ∀ key, book.get? key = none ↔ Call.label key ∉ calls
  keyOf : ∀ label key, book.key? label = some key ↔ book.get? key = some label
  unknownLabel : ∀ label, (∀ key, (key, label) ∉ handedOut empty calls) →
    book.key? label = none
  /-- Lookups, and calls for a key that has a label, leave the book as it is. -/
  unchanged : ∀ call, (∀ key, call = .label key → .label key ∈ calls) →
    book.after call = book

/-- After every run of calls the book says what was handed out, in both
directions and in order, and nothing else. -/
theorem accounts_run (calls : List Call) : Accounts calls (empty.run calls) where
  agrees := agrees_run calls
  entries index := by rw [(agrees_run calls).getElem?_entries, keys_run]
  size := by rw [size_eq_length_keys, keys_run]
  faithful key key' label label' h h' := by
    rw [agrees_empty.mem_handedOut calls, ← mem_keys_run] at h h'
    obtain ⟨hkey, rfl⟩ := h
    obtain ⟨hkey', rfl⟩ := h'
    exact ⟨label_inj hkey hkey', fun heq => by rw [heq]⟩
  get _ _ := by
    rw [(agrees_run calls).get?_eq_some_iff, mem_handedOut_iff_mem_rows]
  unknownKey key := by
    rw [(agrees_run calls).get?_eq_none_iff, mem_keys_run, mem_labelled]
  keyOf _ _ := by
    rw [(agrees_run calls).key?_eq_some_iff, (agrees_run calls).get?_eq_some_iff]
  unknownLabel label h := by
    refine Option.eq_none_iff_forall_ne_some.mpr fun key hkey => h key ?_
    rwa [mem_handedOut_iff_mem_rows, ← (agrees_run calls).key?_eq_some_iff]
  unchanged call h := (agrees_run calls).after_of_known fun key hkey => by
    rw [mem_keys_run, mem_labelled]
    exact h key hkey

end ImportChart.LabelBook
