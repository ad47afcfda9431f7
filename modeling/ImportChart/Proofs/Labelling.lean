import ImportChart.Chart.Basic
import ImportChart.Proofs.GraphContents
import ImportChart.Proofs.LabelIndexes

/-!
# The labels of a chart

`Chart.ofGraph` gives out labels while it walks along the edges. Since a book
only ever grows at its end, a label that has been given out is the label the
key has in the last book too. So the walk need not be followed: the chart of
a graph is the chart that writes every edge and every node with the labels of
one finished book (`ofGraph_eq`), the book of `drawnKeys`, and the keys of
that book are the nodes of the graph (`mem_keys_bookOf`).
-/

namespace ImportChart

namespace LabelBook

/-! ## The label of a key -/

/-- The label of a key by its place in the book. -/
def label (book : LabelBook) (key : String) : String :=
  Label.ofIndex (book.keys.idxOf key)

variable {book : LabelBook}

theorem Agrees.idxOf_eq (h : Agrees book) {index : Nat} {row : String × String}
    (hrow : book.rows[index]? = some row) : book.keys.idxOf row.1 = index := by
  obtain ⟨hlt, hkey⟩ : ∃ hlt : index < book.keys.length,
      book.keys[index] = row.1 := by
    obtain ⟨hlt, rfl⟩ := List.getElem?_eq_some_iff.mp hrow
    exact ⟨by simpa [keys] using hlt, by simp [keys]⟩
  rw [← hkey]
  exact h.nodup_keys.idxOf_getElem index hlt

/-- A row holds the label of its key. -/
theorem Agrees.eq_label_of_row (h : Agrees book) {index : Nat}
    {row : String × String} (hrow : book.rows[index]? = some row) :
    row.2 = book.label row.1 := by
  have hlabel : row.2 = Label.ofIndex index := h.label hrow
  rw [LabelBook.label, h.idxOf_eq hrow, hlabel]

/-- A key that has a label keeps it, and the book stays as it is. -/
theorem Agrees.assign_of_mem (h : Agrees book) {key : String}
    (hkey : key ∈ book.keys) : book.assign key = (book.label key, book) := by
  obtain ⟨index, hindex⟩ := h.mem_keys_iff.mp hkey
  obtain ⟨label, hrow⟩ := h.byKey.mp hindex
  rw [LabelBook.assign, hindex]
  show ((book.row index).2, book) = _
  rw [row_eq hrow, h.eq_label_of_row hrow]

/-- A key without a label is given that of the next row. -/
theorem Agrees.assign_of_not_mem (h : Agrees book) {key : String}
    (hkey : key ∉ book.keys) :
    book.assign key = ((book.push key).label key, book.push key) := by
  have hnew := h.lookup_eq_none_iff.mpr hkey
  have hrow : (book.push key).rows[book.rows.length]?
      = some (key, Label.ofIndex book.rows.length) :=
    getElem?_rows_push.mpr (Or.inr ⟨rfl, rfl⟩)
  rw [LabelBook.assign, hnew]
  show (((book.push key).row book.rows.length).2, book.push key) = _
  rw [row_eq hrow, (h.push hnew).eq_label_of_row hrow]

theorem Agrees.keys_assign (h : Agrees book) (key : String) :
    (book.assign key).2.keys
      = if key ∈ book.keys then book.keys else book.keys ++ [key] := by
  split
  · next hkey => rw [h.assign_of_mem hkey]
  · next hkey => rw [h.assign_of_not_mem hkey, keys_push]

theorem Agrees.keys_prefix_assign (h : Agrees book) (key : String) :
    book.keys <+: (book.assign key).2.keys := by
  rw [h.keys_assign]
  split
  · exact List.prefix_rfl
  · exact List.prefix_append book.keys [key]

theorem Agrees.mem_keys_assign_self (h : Agrees book) (key : String) :
    key ∈ (book.assign key).2.keys := by
  rw [h.keys_assign]
  split
  · next hkey => exact hkey
  · simp

/-- What `assign` hands out is the label that the key has from then on. -/
theorem Agrees.fst_assign (h : Agrees book) (key : String) :
    (book.assign key).1 = (book.assign key).2.label key := by
  by_cases hkey : key ∈ book.keys
  · rw [h.assign_of_mem hkey]
  · rw [h.assign_of_not_mem hkey]

/-- A label that has been given out is not changed by what comes later. -/
theorem label_of_grown {book later : LabelBook}
    (hgrown : book.keys <+: later.keys) {key : String} (h : key ∈ book.keys) :
    later.label key = book.label key := by
  obtain ⟨new, hnew⟩ := hgrown
  rw [label, ← hnew, List.idxOf_append, if_pos h, label]

/-- Two keys of a book do not share a label. -/
theorem label_inj {key other : String}
    (hkey : key ∈ book.keys) (hother : other ∈ book.keys)
    (h : book.label key = book.label other) : key = other := by
  have hplace : book.keys.idxOf key = book.keys.idxOf other :=
    Label.ofIndex_injective h
  have hlt := List.idxOf_lt_length_of_mem hkey
  have hlt' := List.idxOf_lt_length_of_mem hother
  calc
    key = book.keys[book.keys.idxOf key] := (List.getElem_idxOf hlt).symm
    _ = book.keys[book.keys.idxOf other] := by simp only [hplace]
    _ = other := List.getElem_idxOf hlt'

/-- The rows of an agreeing book can be told from its keys. -/
theorem Agrees.rows_eq (h : Agrees book) :
    book.rows = book.keys.map fun key => (key, book.label key) := by
  rw [keys, List.map_map]
  refine (List.map_id _).symm.trans (List.map_congr_left fun row hrow => ?_)
  obtain ⟨index, hindex⟩ := List.mem_iff_getElem?.mp hrow
  exact Prod.ext rfl (h.eq_label_of_row hindex)

theorem Agrees.entries_eq (h : Agrees book) :
    book.entries = book.keys.map fun key => (book.label key, key) := by
  rw [entries, h.rows_eq, List.map_map]
  rfl

end LabelBook

namespace Chart

/-! ## Labelling a list of keys -/

theorem labelAll_append (book : LabelBook) (keys more : List String) :
    labelAll book (keys ++ more) = labelAll (labelAll book keys) more :=
  List.foldl_append

theorem agrees_labelAll : ∀ (keys : List String) {book : LabelBook},
    book.Agrees → (labelAll book keys).Agrees
  | [], _, h => h
  | key :: keys, _, h => agrees_labelAll keys (h.assign key)

theorem keys_prefix_labelAll : ∀ (keys : List String) {book : LabelBook},
    book.Agrees → book.keys <+: (labelAll book keys).keys
  | [], _, _ => List.prefix_rfl
  | key :: keys, _, h =>
      (h.keys_prefix_assign key).trans (keys_prefix_labelAll keys (h.assign key))

/-- The keys are those of the book and then the new ones, each where it turns up
first. -/
theorem keys_labelAll : ∀ (keys : List String) {book : LabelBook},
    book.Agrees → (labelAll book keys).keys
      = book.keys ++ (keys.removeAll book.keys).eraseDups
  | [], book, _ => by simp [labelAll]
  | key :: keys, book, h => by
      have hstep :
          labelAll book (key :: keys) = labelAll (book.assign key).2 keys := rfl
      rw [hstep, keys_labelAll keys (h.assign key), h.keys_assign]
      by_cases hkey : key ∈ book.keys
      · simp [hkey, List.cons_removeAll]
      · -- what is new after `key` is what was new before, without `key` itself
        have hrest : keys.removeAll (book.keys ++ [key])
            = (keys.removeAll book.keys).filter fun other => !other == key := by
          simp only [List.removeAll, List.filter_filter]
          refine List.filter_congr fun other _ => ?_
          by_cases hother : other = key <;> simp [hother]
        rw [if_neg hkey, hrest, List.cons_removeAll, if_pos (by simpa using hkey),
          List.eraseDups_cons, List.append_assoc, List.singleton_append]

/-- A new book lists each key once, where it turns up first. -/
theorem keys_labelAll_empty (keys : List String) :
    (labelAll .empty keys).keys = keys.eraseDups := by
  rw [keys_labelAll keys LabelBook.agrees_empty]
  exact congrArg List.eraseDups (List.filter_eq_self.mpr fun _ _ => rfl)

/-! ## Labelling along the edges -/

/-- The ends of a list of importers and importees, in the order in which they
get their labels. -/
def ends (pairs : List (String × String)) : List String :=
  pairs.flatMap fun pair => [pair.2, pair.1]

theorem mem_ends {pairs : List (String × String)} {key : String} :
    key ∈ ends pairs ↔ ∃ pair ∈ pairs, key = pair.1 ∨ key = pair.2 := by
  simp only [ends, List.mem_flatMap, List.mem_cons, List.not_mem_nil, or_false]
  refine exists_congr fun pair => and_congr_right fun _ => ?_
  exact or_comm

/-- The edge of an importer and an importee as a book writes it. -/
def edgeIn (book : LabelBook) (pair : String × String) : Edge :=
  ⟨book.label pair.2, book.label pair.1⟩

/-- The walk along the edges writes them as the book at its end does. -/
theorem labelEdges_eq : ∀ (pairs : List (String × String)) {book : LabelBook},
    book.Agrees → labelEdges book pairs
      = (pairs.map (edgeIn (labelAll book (ends pairs))),
        labelAll book (ends pairs))
  | [], _, _ => rfl
  | (importer, importee) :: pairs, book, h => by
      let first := (book.assign importee).2
      let second := (first.assign importer).2
      have hfirst : first.Agrees := h.assign importee
      have hsecond : second.Agrees := hfirst.assign importer
      have hlast : labelAll book (ends ((importer, importee) :: pairs))
          = labelAll second (ends pairs) := rfl
      have hgrown := keys_prefix_labelAll (ends pairs) hsecond
      have hgrown' := (hfirst.keys_prefix_assign importer).trans hgrown
      have hsource : (book.assign importee).1
          = (labelAll second (ends pairs)).label importee := by
        rw [LabelBook.label_of_grown hgrown'
          (h.mem_keys_assign_self importee), h.fst_assign]
      have htarget : (first.assign importer).1
          = (labelAll second (ends pairs)).label importer := by
        rw [LabelBook.label_of_grown hgrown
          (hfirst.mem_keys_assign_self importer), hfirst.fst_assign]
      have hedge :
          (⟨(book.assign importee).1, (first.assign importer).1⟩ : Edge)
            = edgeIn (labelAll second (ends pairs)) (importer, importee) := by
        rw [edgeIn, hsource, htarget]
      have hstep : labelEdges book ((importer, importee) :: pairs)
          = (⟨(book.assign importee).1, (first.assign importer).1⟩
              :: (labelEdges second pairs).1,
            (labelEdges second pairs).2) := rfl
      rw [hlast, List.map_cons, ← hedge, hstep, labelEdges_eq pairs hsecond]

/-! ## The book of a graph -/

/-- The keys of a graph in the order in which the chart comes upon them. -/
def drawnKeys (graph : Graph) : List String :=
  ends graph.edges ++ graph.importers

/-- The finished book of a graph's chart. -/
def bookOf (graph : Graph) : LabelBook := labelAll .empty (drawnKeys graph)

theorem agrees_bookOf (graph : Graph) : (bookOf graph).Agrees :=
  agrees_labelAll (drawnKeys graph) LabelBook.agrees_empty

theorem keys_bookOf (graph : Graph) :
    (bookOf graph).keys = (drawnKeys graph).eraseDups :=
  keys_labelAll_empty (drawnKeys graph)

/-- The keys with a label are the nodes of the graph. -/
theorem mem_keys_bookOf {graph : Graph} {key : String} :
    key ∈ (bookOf graph).keys ↔ key ∈ graph.nodes := by
  rw [keys_bookOf, List.mem_eraseDups, drawnKeys, List.mem_append, mem_ends,
    Graph.mem_nodes]
  constructor
  · rintro (⟨pair, hpair, rfl | rfl⟩ | himporter)
    · exact Or.inl (Graph.fst_mem_importers hpair)
    · exact Or.inr ⟨pair, hpair, rfl⟩
    · exact Or.inl himporter
  · rintro (himporter | ⟨pair, hpair, rfl⟩)
    · exact Or.inr himporter
    · exact Or.inl ⟨pair, hpair, Or.inr rfl⟩

/-- The chart of a graph is its edges and nodes as its finished book writes
them. -/
theorem ofGraph_eq (graph : Graph) :
    ofGraph graph = {
      edges := graph.edges.map (edgeIn (bookOf graph))
      nodes := (bookOf graph).keys.map fun key =>
        ⟨(bookOf graph).label key, key⟩ } := by
  let early := labelAll .empty (ends graph.edges)
  have hbook : labelAll early graph.importers = bookOf graph := by
    rw [bookOf, drawnKeys, labelAll_append]
  have hgrown : early.keys <+: (bookOf graph).keys := by
    rw [← hbook]
    exact keys_prefix_labelAll graph.importers
      (agrees_labelAll _ LabelBook.agrees_empty)
  have hedges : graph.edges.map (edgeIn early)
      = graph.edges.map (edgeIn (bookOf graph)) := by
    refine List.map_congr_left fun pair hpair => ?_
    have hends : ∀ key, key = pair.1 ∨ key = pair.2 → key ∈ early.keys := by
      intro key hkey
      rw [keys_labelAll_empty, List.mem_eraseDups]
      exact mem_ends.mpr ⟨pair, hpair, hkey⟩
    rw [edgeIn, edgeIn, LabelBook.label_of_grown hgrown (hends _ (Or.inl rfl)),
      LabelBook.label_of_grown hgrown (hends _ (Or.inr rfl))]
  have hwalk := labelEdges_eq graph.edges LabelBook.agrees_empty
  simp only [ofGraph, hwalk]
  rw [hbook, hedges, (agrees_bookOf graph).entries_eq, List.map_map]
  rfl

end Chart

end ImportChart
