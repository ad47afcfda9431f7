import ImportChart.Chart.Basic
import ImportChart.Chart.Direction

/-!
# Mermaid text

A chart as a Mermaid flowchart: a line for the direction, a line for each
edge and a line for each node. Names are written as they are.
-/

namespace ImportChart.Chart

def mermaidHead (direction : Direction) : String := "flowchart " ++ direction.code ++ "\n"

def Edge.mermaid (edge : Edge) : String := "\t" ++ edge.source ++ " --> " ++ edge.target ++ "\n"

def Node.mermaid (node : Node) : String := "\t" ++ node.label ++ "[" ++ node.name ++ "]\n"

def mermaid (direction : Direction) (chart : Chart) : String :=
  mermaidHead direction ++ String.join (chart.edges.map Edge.mermaid)
    ++ String.join (chart.nodes.map Node.mermaid)

end ImportChart.Chart
