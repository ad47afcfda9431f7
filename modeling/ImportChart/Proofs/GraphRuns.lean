import ImportChart.Proofs.GraphContents
import Mathlib.Data.List.Nodup

/-!
# Runs of a graph

A graph is built by calls, an edge or an importer at a time. After any run of
calls from the empty graph each of its views is told by the calls (`Records`): it
lists in ascending order what they have brought, each thing once, whatever their
order and however often they came.

A call adds what it says to the importers and to the edges, and nothing else
(`mem_importers_after`, `mem_edges_after`); so does a run, by induction. The table
itself is determined by these two sets (`mem_rows_iff`, `eq_of_mem_iff`), as its
names are distinct and each leads to one set. That is why two runs of the same
calls end in the same graph (`run_eq_of_mem_iff`).
-/

namespace ImportChart.Graph

/-! ## The table by its importers and edges -/

theorem nodup_importers (graph : Graph) : graph.importers.Nodup :=
  graph.pairwise_importers.imp Std.ne_of_lt

theorem eq_of_mem_rows {graph : Graph} {row other : String × NameSet}
    (hrow : row ∈ graph.rows) (hother : other ∈ graph.rows)
    (h : row.1 = other.1) : row = other :=
  List.inj_on_of_nodup_map graph.nodup_importers hrow hother h

theorem mem_rows_iff {graph : Graph} {row : String × NameSet} :
    row ∈ graph.rows ↔ row.1 ∈ graph.importers
      ∧ ∀ importee, importee ∈ row.2 ↔ (row.1, importee) ∈ graph.edges := by
  have hset : ∀ other ∈ graph.rows, other.1 = row.1 →
      ∀ importee, importee ∈ other.2 ↔ (row.1, importee) ∈ graph.edges := by
    intro other hother hname importee
    rw [mem_edges_iff]
    constructor
    · exact fun h => ⟨other, hother, hname, h⟩
    · rintro ⟨found, hfound, hfst, h⟩
      rwa [← eq_of_mem_rows hfound hother (hfst.trans hname.symm)]
  constructor
  · exact fun hrow => ⟨List.mem_map_of_mem hrow, hset row hrow rfl⟩
  · rintro ⟨himporter, hedges⟩
    obtain ⟨other, hother, hname⟩ := List.mem_map.mp himporter
    have hsame : other.2 = row.2 := NameSet.eq_of_mem_iff fun importee =>
      (hset other hother hname importee).trans (hedges importee).symm
    have heq : other = row := Prod.ext hname hsame
    rwa [← heq]

/-- Graphs with the same importers and the same edges are equal. -/
theorem eq_of_mem_iff {graph other : Graph}
    (himporters : ∀ name, name ∈ graph.importers ↔ name ∈ other.importers)
    (hedges : ∀ edge, edge ∈ graph.edges ↔ edge ∈ other.edges) :
    graph = other := by
  have hperm : graph.rows.Perm other.rows := by
    refine (List.perm_ext_iff_of_nodup graph.nodup_importers.of_map
      other.nodup_importers.of_map).mpr fun row => ?_
    simp only [mem_rows_iff, himporters, hedges]
  refine Graph.ext (hperm.eq_of_pairwise ?_ graph.ascending other.ascending)
  exact fun _ _ _ _ hlt hgt => absurd hgt (String.lt_asymm hlt)

/-! ## Views of the table -/

theorem importees?_eq_some_iff {graph : Graph} {name : String} {set : NameSet} :
    graph.importees? name = some set ↔ (name, set) ∈ graph.rows := by
  rw [importees?, Option.map_eq_some_iff]
  constructor
  · rintro ⟨row, hfound, rfl⟩
    have hname : row.1 = name := by simpa using List.find?_some hfound
    rw [← hname]
    exact List.mem_of_find?_eq_some hfound
  · intro hrow
    have hsome : (graph.rows.find? (·.1 == name)).isSome := by
      rw [List.find?_isSome]
      exact ⟨_, hrow, beq_self_eq_true name⟩
    obtain ⟨row, hfound⟩ := Option.isSome_iff_exists.mp hsome
    have hname : row.1 = name := by simpa using List.find?_some hfound
    have hsame := eq_of_mem_rows (List.mem_of_find?_eq_some hfound) hrow hname
    exact ⟨row, hfound, by rw [hsame]⟩

theorem importees?_eq_none_iff {graph : Graph} {name : String} :
    graph.importees? name = none ↔ name ∉ graph.importers := by
  rw [importees?, Option.map_eq_none_iff, List.find?_eq_none, importers]
  simp only [List.mem_map, beq_iff_eq, not_exists, not_and]

theorem edgeCount_eq (graph : Graph) : graph.edgeCount = graph.edges.length := by
  rw [edgeCount, edges, List.length_flatMap, List.sum_eq_foldl, List.foldl_map]
  simp only [List.length_map]

theorem isEmpty_iff {graph : Graph} :
    graph.isEmpty = true ↔ ∀ name, name ∉ graph.importers := by
  rw [isEmpty, List.isEmpty_iff, ← List.eq_nil_iff_forall_not_mem, importers,
    List.map_eq_nil_iff]

/-! ## Calls -/

inductive Call
  | addEdge (importer importee : String)
  | addImporter (importer : String)
  deriving DecidableEq

def Call.importer : Call → String
  | .addEdge importer _ | .addImporter importer => importer

/-- The names that a call puts into the graph. -/
def Call.names : Call → List String
  | .addEdge importer importee => [importer, importee]
  | .addImporter importer => [importer]

def after (graph : Graph) : Call → Graph
  | .addEdge importer importee => graph.addEdge importer importee
  | .addImporter importer => graph.addImporter importer

/-- The graph after a run of calls. -/
def run (graph : Graph) (calls : List Call) : Graph := calls.foldl after graph

theorem mem_importers_after {graph : Graph} {call : Call} {name : String} :
    name ∈ (graph.after call).importers
      ↔ call.importer = name ∨ name ∈ graph.importers := by
  rw [@eq_comm _ call.importer]
  cases call with
  | addEdge => exact mem_importers_addEdge
  | addImporter => exact mem_importers_addImporter

theorem mem_edges_after {graph : Graph} {call : Call} {importer importee : String} :
    (importer, importee) ∈ (graph.after call).edges
      ↔ call = .addEdge importer importee ∨ (importer, importee) ∈ graph.edges := by
  cases call with
  | addEdge =>
      rw [after, mem_edges_addEdge, Prod.mk.injEq, Call.addEdge.injEq]
      simp only [eq_comm]
  | addImporter => simp [after]

theorem Call.mem_names {call : Call} {name : String} :
    name ∈ call.names ↔ call.importer = name ∨ ∃ importer, call = .addEdge importer name := by
  cases call with
  | addEdge importer importee => simp [names, Call.importer, eq_comm]
  | addImporter importer => simp [names, Call.importer, eq_comm]

/-! ## Runs -/

theorem mem_importers_run {name : String} : ∀ {calls : List Call} {graph : Graph},
    name ∈ (graph.run calls).importers
      ↔ (∃ call ∈ calls, call.importer = name) ∨ name ∈ graph.importers
  | [], graph => by simp [run]
  | call :: calls, graph => by
      have hrest : name ∈ ((graph.after call).run calls).importers ↔ _ :=
        mem_importers_run
      rw [run, List.foldl_cons, ← run, hrest, mem_importers_after]
      simp only [List.mem_cons, exists_eq_or_imp]
      rw [or_left_comm, or_assoc]

theorem mem_edges_run {importer importee : String} :
    ∀ {calls : List Call} {graph : Graph},
    (importer, importee) ∈ (graph.run calls).edges
      ↔ .addEdge importer importee ∈ calls ∨ (importer, importee) ∈ graph.edges
  | [], graph => by simp [run]
  | call :: calls, graph => by
      have hrest : (importer, importee) ∈ ((graph.after call).run calls).edges ↔ _ :=
        mem_edges_run
      rw [run, List.foldl_cons, ← run, hrest, mem_edges_after, List.mem_cons,
        @eq_comm _ call, or_left_comm, or_assoc]

theorem mem_importers_run_empty {calls : List Call} {name : String} :
    name ∈ (empty.run calls).importers ↔ ∃ call ∈ calls, call.importer = name := by
  rw [mem_importers_run]
  simp [empty, importers]

theorem mem_edges_run_empty {calls : List Call} {importer importee : String} :
    (importer, importee) ∈ (empty.run calls).edges
      ↔ .addEdge importer importee ∈ calls := by
  rw [mem_edges_run]
  simp [empty, edges]

theorem mem_nodes_run_empty {calls : List Call} {name : String} :
    name ∈ (empty.run calls).nodes ↔ ∃ call ∈ calls, name ∈ call.names := by
  rw [mem_nodes, mem_importers_run_empty]
  constructor
  · rintro (⟨call, hcall, himporter⟩ | ⟨⟨importer, _⟩, hedge, rfl⟩)
    · exact ⟨call, hcall, Call.mem_names.mpr (Or.inl himporter)⟩
    · exact ⟨_, mem_edges_run_empty.mp hedge,
        Call.mem_names.mpr (Or.inr ⟨importer, rfl⟩)⟩
  · rintro ⟨call, hcall, hname⟩
    rcases Call.mem_names.mp hname with himporter | ⟨importer, rfl⟩
    · exact Or.inl ⟨call, hcall, himporter⟩
    · exact Or.inr ⟨(importer, name), mem_edges_run_empty.mpr hcall, rfl⟩

/-- Neither the order of the calls nor how often each of them comes matters. -/
theorem run_eq_of_mem_iff {calls others : List Call}
    (h : ∀ call, call ∈ others ↔ call ∈ calls) :
    empty.run others = empty.run calls := by
  refine eq_of_mem_iff (fun name => ?_) fun edge => ?_
  · simp only [mem_importers_run_empty, h]
  · exact mem_edges_run_empty.trans ((h _).trans mem_edges_run_empty.symm)

/-! ## What a graph says -/

/-- `Records calls graph`: the graph says what the calls have made of it. -/
structure Records (calls : List Call) (graph : Graph) : Prop where
  ascending_importers : graph.importers.Pairwise (· < ·)
  importers : ∀ name,
    name ∈ graph.importers ↔ ∃ call ∈ calls, call.importer = name
  /-- By importer, then by importee. -/
  ascending_edges : graph.edges.Pairwise EdgeLt
  edges : ∀ importer importee,
    (importer, importee) ∈ graph.edges ↔ .addEdge importer importee ∈ calls
  edgeCount : graph.edgeCount = graph.edges.length
  ascending_nodes : graph.nodes.toList.Pairwise (· < ·)
  nodes : ∀ name,
    name ∈ graph.nodes.toList ↔ ∃ call ∈ calls, name ∈ call.names
  /-- Of a name that was never an importer nothing is known. -/
  unknown : ∀ name,
    graph.importees? name = none ↔ ∀ call ∈ calls, call.importer ≠ name
  ascending_importees : ∀ name set, graph.importees? name = some set →
    set.toList.Pairwise (· < ·)
  importees : ∀ name set, graph.importees? name = some set →
    ∀ importee, importee ∈ set.toList ↔ .addEdge name importee ∈ calls
  isEmpty : graph.isEmpty = true ↔ calls = []
  /-- The same calls in another order, or more often, make the same graph. -/
  same : ∀ others, (∀ call, call ∈ others ↔ call ∈ calls) →
    empty.run others = graph

/-- After every run of calls the graph says what they have brought, in ascending
order, and nothing else. -/
theorem records_run (calls : List Call) : Records calls (empty.run calls) where
  ascending_importers := pairwise_importers _
  importers _ := mem_importers_run_empty
  ascending_edges := pairwise_edges _
  edges _ _ := mem_edges_run_empty
  edgeCount := edgeCount_eq _
  ascending_nodes := (empty.run calls).nodes.ascending
  nodes _ := mem_nodes_run_empty
  unknown name := by
    rw [importees?_eq_none_iff, mem_importers_run_empty]
    simp only [not_exists, not_and, ne_eq]
  ascending_importees _ set _ := set.ascending
  importees name set h importee := by
    obtain ⟨-, hset⟩ := mem_rows_iff.mp (importees?_eq_some_iff.mp h)
    exact (hset importee).trans mem_edges_run_empty
  isEmpty := by
    rw [isEmpty_iff]
    simp only [mem_importers_run_empty]
    constructor
    · intro h
      refine List.eq_nil_iff_forall_not_mem.mpr fun call hcall => ?_
      exact h call.importer ⟨call, hcall, rfl⟩
    · rintro rfl name ⟨call, hcall, -⟩
      exact List.not_mem_nil hcall
  same _ h := run_eq_of_mem_iff h

end ImportChart.Graph
