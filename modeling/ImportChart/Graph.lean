import ImportChart.Event
import ImportChart.NameSet
import ImportChart.Package
import ImportChart.PathRules

/-!
# Import graphs

Who imports whom, by name. A graph is a table from importers to the sets of
what they import, its rows in strictly ascending order of the importer, so
graphs with the same importers and the same edges are equal. An importer
without importees still has a row; something that is only imported has none.
-/

namespace ImportChart

@[ext]
structure Graph where
  rows : List (String × NameSet)
  ascending : rows.Pairwise fun a b => a.1 < b.1
  deriving DecidableEq

namespace Graph

def empty : Graph := ⟨[], .nil⟩

/-! ## Rows -/

/-- Changes the row of an importer, a new row being empty before the change. -/
def changeRow (importer : String) (change : NameSet → NameSet) :
    List (String × NameSet) → List (String × NameSet)
  | [] => [(importer, change .empty)]
  | row :: rows =>
    if importer < row.1 then (importer, change .empty) :: row :: rows
    else if importer = row.1 then (row.1, change row.2) :: rows
    else row :: changeRow importer change rows

theorem fst_of_mem_changeRow {importer : String} {change : NameSet → NameSet}
    {rows : List (String × NameSet)} {row : String × NameSet}
    (h : row ∈ changeRow importer change rows) :
    row.1 = importer ∨ ∃ old ∈ rows, row.1 = old.1 := by
  induction rows with
  | nil => simp_all [changeRow]
  | cons old rows ih =>
    unfold changeRow at h
    grind

theorem pairwise_changeRow (importer : String) (change : NameSet → NameSet)
    {rows : List (String × NameSet)} (h : rows.Pairwise fun a b => a.1 < b.1) :
    (changeRow importer change rows).Pairwise fun a b => a.1 < b.1 := by
  induction h with
  | nil => simp [changeRow]
  | @cons row rows hrow hrows ih =>
    unfold changeRow
    split
    · next hlt =>
      refine .cons ?_ (.cons hrow hrows)
      rintro other (_ | ⟨_, hother⟩)
      · exact hlt
      · exact String.lt_trans hlt (hrow other hother)
    · next hlt =>
      split
      · exact .cons hrow hrows
      · next hne =>
        refine .cons (fun other hother => ?_) ih
        rcases fst_of_mem_changeRow hother with he | ⟨old, hold, he⟩
        · rw [he]
          exact Std.lt_of_le_of_ne (String.not_lt.mp hlt) (Ne.symm hne)
        · rw [he]
          exact hrow old hold

def addImporter (graph : Graph) (importer : String) : Graph :=
  ⟨changeRow importer id graph.rows, pairwise_changeRow importer id graph.ascending⟩

def addEdge (graph : Graph) (importer importee : String) : Graph :=
  ⟨changeRow importer (·.insert importee) graph.rows,
    pairwise_changeRow importer (·.insert importee) graph.ascending⟩

/-! ## Views -/

def importers (graph : Graph) : List String := graph.rows.map (·.1)

/-- What an importer imports; nothing is known of a name that is no importer. -/
def importees? (graph : Graph) (importer : String) : Option NameSet :=
  (graph.rows.find? (·.1 == importer)).map (·.2)

def edges (graph : Graph) : List (String × String) :=
  graph.rows.flatMap fun row => row.2.toList.map fun importee => (row.1, importee)

/-- Everything that imports or is imported. -/
def nodes (graph : Graph) : NameSet :=
  (NameSet.ofList graph.importers).insertAll (graph.edges.map (·.2))

def edgeCount (graph : Graph) : Nat :=
  graph.rows.foldl (fun count (_, importees) => count + importees.toList.length) 0

def isEmpty (graph : Graph) : Bool := graph.rows.isEmpty

/-! ## What a step adds -/

theorem mem_importers_changeRow {importer name : String} {change : NameSet → NameSet}
    {rows : List (String × NameSet)} :
    name ∈ (changeRow importer change rows).map (·.1)
      ↔ name = importer ∨ name ∈ rows.map (·.1) := by
  induction rows with
  | nil => simp [changeRow]
  | cons row rows ih =>
    unfold changeRow
    split
    · simp
    · split
      · simp_all
      · rw [List.map_cons, List.mem_cons, ih, List.map_cons, List.mem_cons]
        grind

@[simp] theorem mem_importers_addImporter {graph : Graph} {importer name : String} :
    name ∈ (graph.addImporter importer).importers ↔ name = importer ∨ name ∈ graph.importers :=
  mem_importers_changeRow

@[simp] theorem mem_importers_addEdge {graph : Graph} {importer importee name : String} :
    name ∈ (graph.addEdge importer importee).importers
      ↔ name = importer ∨ name ∈ graph.importers :=
  mem_importers_changeRow

theorem mem_edges_iff {graph : Graph} {importer importee : String} :
    (importer, importee) ∈ graph.edges
      ↔ ∃ row ∈ graph.rows, row.1 = importer ∧ importee ∈ row.2 := by
  simp only [edges, List.mem_flatMap, List.mem_map, Prod.mk.injEq, NameSet.mem_def]
  grind

/-- An importer by itself brings no edge. -/
@[simp] theorem mem_edges_addImporter {graph : Graph} {importer : String}
    {edge : String × String} : edge ∈ (graph.addImporter importer).edges ↔ edge ∈ graph.edges := by
  obtain ⟨rows, ascending⟩ := graph
  obtain ⟨source, target⟩ := edge
  simp only [mem_edges_iff, addImporter]
  clear ascending
  induction rows with
  | nil => simp [changeRow]
  | cons row rows ih =>
    unfold changeRow
    grind [NameSet.not_mem_empty]

@[simp] theorem mem_edges_addEdge {graph : Graph} {importer importee : String}
    {edge : String × String} :
    edge ∈ (graph.addEdge importer importee).edges
      ↔ edge = (importer, importee) ∨ edge ∈ graph.edges := by
  obtain ⟨rows, ascending⟩ := graph
  obtain ⟨source, target⟩ := edge
  simp only [mem_edges_iff, addEdge]
  clear ascending
  induction rows with
  | nil =>
    simp only [changeRow, List.mem_singleton, exists_eq_left, NameSet.mem_insert]
    grind [NameSet.not_mem_empty]
  | cons row rows ih =>
    unfold changeRow
    split
    · simp only [List.mem_cons, exists_eq_or_imp, NameSet.mem_insert]
      grind [NameSet.not_mem_empty]
    · split
      · simp only [List.mem_cons, exists_eq_or_imp, NameSet.mem_insert]
        grind
      · simp only [List.mem_cons, exists_eq_or_imp, ih]
        grind

/-! ## The graph of a module -/

def entryMark : String := "/MAIN"

/-- The name under which a package imports. -/
def nodeName (rules : PathRules) (package : Package) : String :=
  rules.shorten package.path ++ if package.isEntryPoint then entryMark else ""

/-- Whether an import is drawn: it lies within the module and no rule leaves it out. -/
def draws (modulePath : String) (rules : PathRules) (path : String) : Bool :=
  !rules.excludes path && Text.contains modulePath.toList path.toList

def addPackage (modulePath : String) (rules : PathRules) (graph : Graph)
    (package : Package) : Graph :=
  if rules.excludes package.path then graph
  else
    let importer := nodeName rules package
    (package.imports.toList.filter (draws modulePath rules)).foldl
      (fun graph path => graph.addEdge importer (rules.shorten path))
      (graph.addImporter importer)

def ofPackages (modulePath : String) (rules : PathRules) (packages : List Package) : Graph :=
  packages.foldl (addPackage modulePath rules) empty

/-! ## What is told of it -/

def packageEvents (rules : PathRules) (package : Package) : List Event :=
  let debugEvent (message : String) : Event := ⟨.debug, "depgraph::graph", message⟩
  if rules.excludes package.path then [debugEvent ("Ignoring package " ++ package.path)]
  else
    (package.imports.toList.filter rules.excludes).map fun path =>
      debugEvent ("Ignoring import " ++ path ++ " of " ++ package.path)

/-- What is told while the graph of the packages is made. -/
def events (rules : PathRules) (packages : List Package) : List Event :=
  packages.flatMap (packageEvents rules)

end Graph

end ImportChart
