import ImportChart.Graph
import ImportChart.Label

/-!
# Charts

A chart is a graph made ready for drawing: nodes with short labels, and edges
between labels. An edge leads from what is imported to what imports it.

Labels are given out along the edges, to the importee before the importer;
importers that have no edge come last. So the labels hang on the edges and
the names alone.
-/

namespace ImportChart

namespace Chart

@[ext]
structure Edge where
  source : String
  target : String
  deriving DecidableEq, Repr

@[ext]
structure Node where
  label : String
  name : String
  deriving DecidableEq, Repr

end Chart

@[ext]
structure Chart where
  edges : List Chart.Edge
  nodes : List Chart.Node
  deriving DecidableEq, Repr

namespace Chart

def node? (chart : Chart) (name : String) : Option Node :=
  chart.nodes.find? (·.name == name)

/-- The edges of a list of importers and importees, labelled one after the
other, and the book with their labels. -/
def labelEdges (book : LabelBook) : List (String × String) → List Edge × LabelBook
  | [] => ([], book)
  | (importer, importee) :: pairs =>
    let (source, book) := book.assign importee
    let (target, book) := book.assign importer
    let (edges, book) := labelEdges book pairs
    (⟨source, target⟩ :: edges, book)

def labelAll (book : LabelBook) (keys : List String) : LabelBook :=
  keys.foldl (fun book key => (book.assign key).2) book

def ofGraph (graph : Graph) : Chart :=
  let (edges, book) := labelEdges .empty graph.edges
  let entries := (labelAll book graph.importers).entries
  { edges, nodes := entries.map fun (label, name) => ⟨label, name⟩ }

end Chart

end ImportChart
