import ImportChart.Proofs.ChartContents
import Mathlib.Data.List.Forall2

/-!
# The order of the labels

A chart comes upon the keys of its graph in a fixed order: edge by edge, at the
importee before the importer, and then at the importers by themselves. A key is
labelled where it turns up first. So the nodes of the chart are these keys, each
once and in this order, numbered from the first label on; and the edges are
those of the graph one by one, written with the labels under which their ends
are declared (`numbers_ofGraph`).

Nothing about the walk is left to show here. What it does is told by its last
book (`ofGraph_eq`), and that book holds the keys in the order of their first
turn (`keys_bookOf`).
-/

namespace ImportChart.Chart

/-! ## Numbered keys -/

/-- The keys of a list, each once and where it turns up first, as nodes with the
first label, the second and so on. -/
def numbered (keys : List String) : List Node :=
  keys.eraseDups.zipIdx.map fun (key, index) => ⟨Label.ofIndex index, key⟩

/-- `Numbers graph chart`: the chart numbers the keys of the graph in the order
in which its edges and importers bring them, and draws edge by edge. -/
structure Numbers (graph : Graph) (chart : Chart) : Prop where
  /-- The edges are listed by importer and then by importee. -/
  edgesAscending : graph.edges.Pairwise fun (importer, importee) later =>
    importer < later.1 ∨ importer = later.1 ∧ importee < later.2
  importersAscending : graph.importers.Pairwise (· < ·)
  /-- Of each edge the importee comes first; the importers come behind all
  edges. -/
  nodes : chart.nodes = numbered
    ((graph.edges.flatMap fun (importer, importee) => [importee, importer])
      ++ graph.importers)
  /-- Edge by edge, the labels are those with which the ends are declared. -/
  edges : List.Forall₂ (fun edge pair =>
      chart.node? pair.2 = some ⟨edge.source, pair.2⟩
        ∧ chart.node? pair.1 = some ⟨edge.target, pair.1⟩)
    chart.edges graph.edges

/-! ## The chart of a graph -/

/-- The nodes of a chart are the entries of its book. -/
theorem nodes_ofGraph (graph : Graph) :
    (ofGraph graph).nodes = numbered (drawnKeys graph) := by
  refine List.ext_getElem? fun index => ?_
  have hentry := (agrees_bookOf graph).getElem?_entries index
  rw [(agrees_bookOf graph).entries_eq, keys_bookOf] at hentry
  have hnode := congrArg (Option.map fun (label, name) => Node.mk label name)
    hentry
  simpa [ofGraph_eq, numbered, keys_bookOf, Function.comp_def] using hnode

/-- A key is declared with its label. -/
theorem node?_ofGraph {graph : Graph} {key : String} (h : key ∈ graph.nodes) :
    (ofGraph graph).node? key = some ⟨(bookOf graph).label key, key⟩ := by
  have hkey := mem_keys_bookOf.mpr h
  rw [node?, ofGraph_eq]
  refine find?_eq_some_of_unique (List.mem_map.mpr ⟨key, hkey, rfl⟩)
    (beq_self_eq_true _) ?_
  intro node hnode hname
  obtain ⟨other, -, rfl⟩ := List.mem_map.mp hnode
  rw [show other = key from eq_of_beq hname]

/-- The chart of every graph numbers its keys in the order of their first turn,
and draws its edges in their order. -/
theorem numbers_ofGraph (graph : Graph) : Numbers graph (ofGraph graph) where
  edgesAscending := graph.pairwise_edges
  importersAscending := graph.pairwise_importers
  nodes := nodes_ofGraph graph
  edges := by
    have hedges :
        (ofGraph graph).edges = graph.edges.map (edgeIn (bookOf graph)) := by
      rw [ofGraph_eq]
    rw [hedges, List.forall₂_map_left_iff, List.forall₂_same]
    intro pair hpair
    exact ⟨node?_ofGraph (snd_mem_nodes hpair),
      node?_ofGraph (fst_mem_nodes hpair)⟩

end ImportChart.Chart
