import ImportChart.Graph

/-!
# The contents of a graph

A graph is told by two sets, its importers and its edges. Both views of the
table are lists in strictly ascending order, so graphs with the same edges
list them alike. What the graph of a list of packages holds is said here in
terms of the packages alone: one step lemma for a package
(`mem_edges_addPackage`, `mem_importers_addPackage`), and from it by induction
the graph of them all (`mem_edges_ofPackages`, `mem_importers_ofPackages`).
-/

namespace ImportChart.Graph

/-! ## Ascending views -/

/-- The order in which edges are listed: by importer, then by importee. -/
def EdgeLt (edge other : String × String) : Prop :=
  edge.1 < other.1 ∨ edge.1 = other.1 ∧ edge.2 < other.2

theorem EdgeLt.ne {edge other : String × String} (h : EdgeLt edge other) :
    edge ≠ other := by
  rintro rfl
  rcases h with h | ⟨-, h⟩
  · exact String.lt_irrefl _ h
  · exact String.lt_irrefl _ h

theorem EdgeLt.asymm {edge other : String × String} (h : EdgeLt edge other) :
    ¬EdgeLt other edge := by
  rintro (h' | ⟨he', h'⟩)
  · rcases h with h | ⟨he, -⟩
    · exact String.lt_asymm h h'
    · exact String.lt_irrefl _ (he ▸ h')
  · rcases h with h | ⟨-, h⟩
    · exact String.lt_irrefl _ (he' ▸ h)
    · exact String.lt_asymm h h'

theorem pairwise_edges (graph : Graph) : graph.edges.Pairwise EdgeLt := by
  rw [edges, List.pairwise_flatMap]
  constructor
  · intro row _
    rw [List.pairwise_map]
    exact row.2.ascending.imp fun h => Or.inr ⟨rfl, h⟩
  · refine graph.ascending.imp fun {row other} h => ?_
    intro edge hedge later hlater
    obtain ⟨importee, -, rfl⟩ := List.mem_map.mp hedge
    obtain ⟨importee', -, rfl⟩ := List.mem_map.mp hlater
    exact Or.inl h

theorem nodup_edges (graph : Graph) : graph.edges.Nodup :=
  graph.pairwise_edges.imp EdgeLt.ne

theorem pairwise_importers (graph : Graph) :
    graph.importers.Pairwise (· < ·) := by
  rw [importers, List.pairwise_map]
  exact graph.ascending

theorem fst_mem_importers {graph : Graph} {edge : String × String}
    (h : edge ∈ graph.edges) :
    edge.1 ∈ graph.importers := by
  obtain ⟨row, hrow, hfst, -⟩ :=
    mem_edges_iff.mp (show (edge.1, edge.2) ∈ graph.edges from h)
  exact List.mem_map.mpr ⟨row, hrow, hfst⟩

theorem mem_nodes {graph : Graph} {name : String} :
    name ∈ graph.nodes
      ↔ name ∈ graph.importers ∨ ∃ edge ∈ graph.edges, edge.2 = name := by
  rw [nodes, NameSet.mem_insertAll, NameSet.mem_ofList, List.mem_map]

/-- Ascending lists with the same edges are equal. -/
theorem eq_of_pairwise_edgeLt {edges others : List (String × String)}
    (hedges : edges.Pairwise EdgeLt) (hothers : others.Pairwise EdgeLt)
    (h : ∀ edge, edge ∈ edges ↔ edge ∈ others) :
    edges = others := by
  have hperm : edges.Perm others :=
    (List.perm_ext_iff_of_nodup (hedges.imp EdgeLt.ne)
      (hothers.imp EdgeLt.ne)).mpr h
  exact hperm.eq_of_pairwise
    (fun _ _ _ _ hlt hgt => absurd hgt hlt.asymm) hedges hothers

/-- Graphs with the same edges list them in the same order. -/
theorem edges_eq_of_mem_iff {graph other : Graph}
    (h : ∀ edge, edge ∈ graph.edges ↔ edge ∈ other.edges) :
    graph.edges = other.edges :=
  eq_of_pairwise_edgeLt graph.pairwise_edges other.pairwise_edges h

/-! ## One package -/

/-- A package and one of its imports that is drawn, for a given edge. -/
def Draws (modulePath : String) (rules : PathRules) (package : Package)
    (edge : String × String) : Prop :=
  rules.excludes package.path = false ∧ edge.1 = nodeName rules package
    ∧ ∃ path ∈ package.imports, draws modulePath rules path = true
      ∧ edge.2 = rules.shorten path

/-- A package that brings an importer of a given name. -/
def Brings (rules : PathRules) (package : Package) (name : String) : Prop :=
  rules.excludes package.path = false ∧ name = nodeName rules package

theorem mem_edges_foldl_addEdge (rules : PathRules) (importer : String)
    {edge : String × String} : ∀ (paths : List String) (graph : Graph),
    edge ∈ (paths.foldl
        (fun graph path => graph.addEdge importer (rules.shorten path))
        graph).edges
      ↔ edge ∈ graph.edges
        ∨ edge.1 = importer ∧ ∃ path ∈ paths, edge.2 = rules.shorten path
  | [], graph => by simp
  | path :: paths, graph => by
      rw [List.foldl_cons, mem_edges_foldl_addEdge rules importer paths,
        mem_edges_addEdge, Prod.ext_iff]
      simp only [List.mem_cons, exists_eq_or_imp]
      constructor
      · rintro ((⟨hfst, hsnd⟩ | hold) | ⟨hfst, hrest⟩)
        · exact Or.inr ⟨hfst, Or.inl hsnd⟩
        · exact Or.inl hold
        · exact Or.inr ⟨hfst, Or.inr hrest⟩
      · rintro (hold | ⟨hfst, hsnd | hrest⟩)
        · exact Or.inl (Or.inr hold)
        · exact Or.inl (Or.inl ⟨hfst, hsnd⟩)
        · exact Or.inr ⟨hfst, hrest⟩

theorem mem_importers_foldl_addEdge (rules : PathRules) (importer : String)
    {name : String} :
    ∀ (paths : List String) (graph : Graph), importer ∈ graph.importers →
      (name ∈ (paths.foldl
          (fun graph path => graph.addEdge importer (rules.shorten path))
          graph).importers
        ↔ name ∈ graph.importers)
  | [], _, _ => Iff.rfl
  | path :: paths, graph, h => by
      have hstep :
          importer ∈ (graph.addEdge importer (rules.shorten path)).importers :=
        mem_importers_addEdge.mpr (Or.inl rfl)
      rw [List.foldl_cons,
        mem_importers_foldl_addEdge rules importer paths _ hstep,
        mem_importers_addEdge]
      constructor
      · rintro (rfl | hold)
        · exact h
        · exact hold
      · exact Or.inr

theorem mem_edges_addPackage {modulePath : String} {rules : PathRules}
    {graph : Graph} {package : Package} {edge : String × String} :
    edge ∈ (addPackage modulePath rules graph package).edges
      ↔ edge ∈ graph.edges ∨ Draws modulePath rules package edge := by
  rw [addPackage, Draws]
  by_cases h : rules.excludes package.path = true
  · simp [h]
  · have hkept : rules.excludes package.path = false := Bool.eq_false_iff.mpr h
    rw [if_neg h, mem_edges_foldl_addEdge, mem_edges_addImporter]
    simp only [List.mem_filter, and_assoc, hkept, true_and, NameSet.mem_def]

theorem mem_importers_addPackage {modulePath : String} {rules : PathRules}
    {graph : Graph} {package : Package} {name : String} :
    name ∈ (addPackage modulePath rules graph package).importers
      ↔ name ∈ graph.importers ∨ Brings rules package name := by
  rw [addPackage, Brings]
  by_cases h : rules.excludes package.path = true
  · simp [h]
  · have hkept : rules.excludes package.path = false := Bool.eq_false_iff.mpr h
    have hself : nodeName rules package
        ∈ (graph.addImporter (nodeName rules package)).importers :=
      mem_importers_addImporter.mpr (Or.inl rfl)
    rw [if_neg h, mem_importers_foldl_addEdge _ _ _ _ hself,
      mem_importers_addImporter, or_comm]
    simp only [hkept, true_and]

/-! ## All packages -/

theorem mem_edges_foldl_addPackage {modulePath : String} {rules : PathRules}
    {edge : String × String} : ∀ (packages : List Package) (graph : Graph),
    edge ∈ (packages.foldl (addPackage modulePath rules) graph).edges
      ↔ edge ∈ graph.edges
        ∨ ∃ package ∈ packages, Draws modulePath rules package edge
  | [], graph => by simp
  | package :: packages, graph => by
      rw [List.foldl_cons, mem_edges_foldl_addPackage packages,
        mem_edges_addPackage, or_assoc]
      simp

theorem mem_importers_foldl_addPackage {modulePath : String} {rules : PathRules}
    {name : String} : ∀ (packages : List Package) (graph : Graph),
    name ∈ (packages.foldl (addPackage modulePath rules) graph).importers
      ↔ name ∈ graph.importers ∨ ∃ package ∈ packages, Brings rules package name
  | [], graph => by simp
  | package :: packages, graph => by
      rw [List.foldl_cons, mem_importers_foldl_addPackage packages,
        mem_importers_addPackage, or_assoc]
      simp

/-- The edges of a module's graph are those that its packages draw. -/
theorem mem_edges_ofPackages {modulePath : String} {rules : PathRules}
    {packages : List Package} {edge : String × String} :
    edge ∈ (ofPackages modulePath rules packages).edges
      ↔ ∃ package ∈ packages, Draws modulePath rules package edge := by
  rw [ofPackages, mem_edges_foldl_addPackage]
  simp [empty, edges]

/-- The importers of a module's graph are the packages that no rule leaves
out. -/
theorem mem_importers_ofPackages {modulePath : String} {rules : PathRules}
    {packages : List Package} {name : String} :
    name ∈ (ofPackages modulePath rules packages).importers
      ↔ ∃ package ∈ packages, Brings rules package name := by
  rw [ofPackages, mem_importers_foldl_addPackage]
  simp [empty, importers]

end ImportChart.Graph
