import ImportChart.Proofs.Labelling
import ImportChart.Proofs.RuleMeaning

/-!
# What a chart shows

A chart is read by its declarations: each node says which name its label
stands for, and an edge leads between the names of its two labels. Read so,
the chart of a graph gives back the edges and the nodes of the graph
(`namedEdges_ofGraph`, `mem_names_ofGraph`), and the chart of a list of
packages shows the packages that the rules keep and their imports within the
module, no more and no less.
-/

namespace ImportChart.Chart

/-! ## Reading a chart -/

/-- The name that a label is declared with. -/
def nameOf? (chart : Chart) (label : String) : Option String :=
  (chart.nodes.find? (·.label == label)).map (·.name)

/-- The edges with the names of their labels, first what is imported and then
what imports it. -/
def namedEdges (chart : Chart) : List (Option String × Option String) :=
  chart.edges.map fun edge =>
    (chart.nameOf? edge.source, chart.nameOf? edge.target)

def labels (chart : Chart) : List String := chart.nodes.map (·.label)

def names (chart : Chart) : List String := chart.nodes.map (·.name)

/-! ## The chart of a graph, read back -/

theorem names_ofGraph (graph : Graph) :
    (ofGraph graph).names = (bookOf graph).keys := by
  rw [names, ofGraph_eq, List.map_map]
  exact List.map_id _

theorem labels_ofGraph (graph : Graph) :
    (ofGraph graph).labels = (bookOf graph).keys.map (bookOf graph).label := by
  rw [labels, ofGraph_eq, List.map_map]
  rfl

theorem mem_names_ofGraph {graph : Graph} {name : String} :
    name ∈ (ofGraph graph).names ↔ name ∈ graph.nodes := by
  rw [names_ofGraph, mem_keys_bookOf]

theorem nodup_names_ofGraph (graph : Graph) : (ofGraph graph).names.Nodup := by
  rw [names_ofGraph]
  exact (agrees_bookOf graph).nodup_keys

theorem nodup_labels_ofGraph (graph : Graph) :
    (ofGraph graph).labels.Nodup := by
  rw [labels_ofGraph, List.nodup_iff_pairwise_ne, List.pairwise_map]
  refine (agrees_bookOf graph).nodup_keys.imp_of_mem fun hkey hother hne h => ?_
  exact hne (LabelBook.label_inj hkey hother h)

theorem find?_eq_some_of_unique {α : Type} {p : α → Bool} {xs : List α} {x : α}
    (hmem : x ∈ xs) (hx : p x = true) (hunique : ∀ y ∈ xs, p y = true → y = x) :
    xs.find? p = some x := by
  obtain ⟨y, hy⟩ :=
    Option.isSome_iff_exists.mp (List.find?_isSome.mpr ⟨x, hmem, hx⟩)
  rw [hy, hunique y (List.mem_of_find?_eq_some hy) (List.find?_some hy)]

/-- A key is the name that its label is declared with. -/
theorem nameOf?_ofGraph {graph : Graph} {key : String} (h : key ∈ graph.nodes) :
    (ofGraph graph).nameOf? ((bookOf graph).label key) = some key := by
  have hkey := mem_keys_bookOf.mpr h
  have hfind : (ofGraph graph).nodes.find? (·.label == (bookOf graph).label key)
      = some ⟨(bookOf graph).label key, key⟩ := by
    rw [ofGraph_eq]
    refine find?_eq_some_of_unique (List.mem_map.mpr ⟨key, hkey, rfl⟩)
      (beq_self_eq_true _) ?_
    intro node hnode hlabel
    obtain ⟨other, hother, rfl⟩ := List.mem_map.mp hnode
    rw [LabelBook.label_inj hother hkey (eq_of_beq hlabel)]
  rw [nameOf?, hfind, Option.map_some]

theorem fst_mem_nodes {graph : Graph} {pair : String × String}
    (h : pair ∈ graph.edges) :
    pair.1 ∈ graph.nodes :=
  Graph.mem_nodes.mpr (Or.inl (Graph.fst_mem_importers h))

theorem snd_mem_nodes {graph : Graph} {pair : String × String}
    (h : pair ∈ graph.edges) :
    pair.2 ∈ graph.nodes :=
  Graph.mem_nodes.mpr (Or.inr ⟨pair, h, rfl⟩)

/-- Read by its declarations, the chart has the edges of the graph in their
order. -/
theorem namedEdges_ofGraph (graph : Graph) :
    (ofGraph graph).namedEdges
      = graph.edges.map fun pair => (some pair.2, some pair.1) := by
  have hedges :
      (ofGraph graph).edges = graph.edges.map (edgeIn (bookOf graph)) := by
    rw [ofGraph_eq]
  rw [namedEdges, hedges, List.map_map]
  refine List.map_congr_left fun pair hpair => ?_
  show ((ofGraph graph).nameOf? ((bookOf graph).label pair.2),
    (ofGraph graph).nameOf? ((bookOf graph).label pair.1)) = _
  rw [nameOf?_ofGraph (snd_mem_nodes hpair),
    nameOf?_ofGraph (fst_mem_nodes hpair)]

theorem declared_ofGraph {graph : Graph} {edge : Edge}
    (h : edge ∈ (ofGraph graph).edges) :
    edge.source ∈ (ofGraph graph).labels
      ∧ edge.target ∈ (ofGraph graph).labels := by
  rw [ofGraph_eq] at h
  obtain ⟨pair, hpair, rfl⟩ := List.mem_map.mp h
  rw [labels_ofGraph]
  exact ⟨List.mem_map_of_mem (mem_keys_bookOf.mpr (snd_mem_nodes hpair)),
    List.mem_map_of_mem (mem_keys_bookOf.mpr (fst_mem_nodes hpair))⟩

/-! ## The chart of a module -/

/-- A name stands for a package that the rules keep, or for something that
such a package imports within the module. -/
def HasNode (modulePath : String) (rules : PathRules) (packages : List Package)
    (name : String) : Prop :=
  ∃ package ∈ packages, rules.Keeps package.path
    ∧ (Graph.IsKey rules package name
      ∨ ∃ path ∈ package.imports, Graph.IsDrawn modulePath rules path
        ∧ rules.IsShort path name)

/-- A package that the rules keep stands under `target` and imports, within the
module, what stands under `source`. -/
def HasEdge (modulePath : String) (rules : PathRules) (packages : List Package)
    (source target : String) : Prop :=
  ∃ package ∈ packages, rules.Keeps package.path
    ∧ Graph.IsKey rules package target
    ∧ ∃ path ∈ package.imports, Graph.IsDrawn modulePath rules path
      ∧ rules.IsShort path source

/-- A chart that shows a list of packages of a module under some rules. -/
structure Shows (modulePath : String) (rules : PathRules)
    (packages : List Package) (chart : Chart) : Prop where
  nodup_labels : chart.labels.Nodup
  nodup_names : chart.names.Nodup
  mem_names : ∀ name,
    name ∈ chart.names ↔ HasNode modulePath rules packages name
  declared : ∀ edge ∈ chart.edges,
    edge.source ∈ chart.labels ∧ edge.target ∈ chart.labels
  /-- The edges by name, each once, by target and then by source. -/
  edges : ∃ pairs : List (String × String),
    chart.namedEdges = pairs.map (fun pair => (some pair.1, some pair.2))
      ∧ pairs.Nodup
      ∧ pairs.Pairwise (fun pair later =>
        pair.2 < later.2 ∨ pair.2 = later.2 ∧ pair.1 < later.1)
      ∧ ∀ source target, (source, target) ∈ pairs
        ↔ HasEdge modulePath rules packages source target

theorem mem_edges_ofPackages_iff {modulePath : String} {rules : PathRules}
    {packages : List Package} {source target : String} :
    (target, source) ∈ (Graph.ofPackages modulePath rules packages).edges
      ↔ HasEdge modulePath rules packages source target := by
  simp only [Graph.mem_edges_ofPackages, Graph.Draws, HasEdge,
    PathRules.excludes_eq_false_iff, Graph.draws_iff, Graph.isKey_iff,
    PathRules.isShort_iff]

theorem mem_nodes_ofPackages_iff {modulePath : String} {rules : PathRules}
    {packages : List Package} {name : String} :
    name ∈ (Graph.ofPackages modulePath rules packages).nodes
      ↔ HasNode modulePath rules packages name := by
  rw [Graph.mem_nodes, Graph.mem_importers_ofPackages]
  simp only [Graph.Brings, PathRules.excludes_eq_false_iff, ← Graph.isKey_iff]
  constructor
  · rintro (⟨package, hpackage, hkeeps, hkey⟩ | ⟨⟨target, source⟩, hedge, rfl⟩)
    · exact ⟨package, hpackage, hkeeps, Or.inl hkey⟩
    · obtain ⟨package, hpackage, hkeeps, -, himport⟩ :=
        mem_edges_ofPackages_iff.mp hedge
      exact ⟨package, hpackage, hkeeps, Or.inr himport⟩
  · rintro ⟨package, hpackage, hkeeps, hkey | himport⟩
    · exact Or.inl ⟨package, hpackage, hkeeps, hkey⟩
    · have hedge := mem_edges_ofPackages_iff.mpr
        ⟨package, hpackage, hkeeps, Graph.isKey_iff.mpr rfl, himport⟩
      exact Or.inr ⟨_, hedge, rfl⟩

/-- The chart of a module shows its packages: nothing that the rules keep is
lost, doubled or led astray, and nothing is added. -/
theorem shows_ofGraph_ofPackages (modulePath : String) (rules : PathRules)
    (packages : List Package) :
    Shows modulePath rules packages
      (ofGraph (Graph.ofPackages modulePath rules packages)) where
  nodup_labels := nodup_labels_ofGraph _
  nodup_names := nodup_names_ofGraph _
  mem_names name := by rw [mem_names_ofGraph, mem_nodes_ofPackages_iff]
  declared edge h := declared_ofGraph h
  edges := by
    let graph := Graph.ofPackages modulePath rules packages
    refine ⟨graph.edges.map Prod.swap, ?_, ?_, ?_, fun source target => ?_⟩
    · rw [namedEdges_ofGraph, List.map_map]
      rfl
    · rw [List.nodup_iff_pairwise_ne, List.pairwise_map]
      refine graph.nodup_edges.imp fun {pair later} hne h => hne ?_
      rw [← Prod.swap_swap pair, h, Prod.swap_swap]
    · rw [List.pairwise_map]
      exact graph.pairwise_edges
    · rw [← mem_edges_ofPackages_iff]
      constructor
      · intro h
        obtain ⟨pair, hpair, heq⟩ := List.mem_map.mp h
        rw [← Prod.swap_swap pair, heq] at hpair
        exact hpair
      · intro h
        exact List.mem_map.mpr ⟨(target, source), h, rfl⟩

end ImportChart.Chart
