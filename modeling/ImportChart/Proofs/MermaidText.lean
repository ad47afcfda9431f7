import ImportChart.Chart.Mermaid
import ImportChart.Proofs.ChartContents

/-!
# Mermaid text can be read back

Names are written into the Mermaid text as they are, so a name may look like
anything, also like an arrow or a bracket. The text can be read all the same.
Its lines can be told apart as long as no name holds a line feed. Within a
line the label comes first; it is a word over A to Z, so it ends at the first
other character, and that is a space on the line of an edge and a bracket on
the line of a node. Nothing after it has to be searched for.

So the text determines the direction and the chart (`mermaid_inj`). The chart
of a graph in turn is determined by the edges and the nodes of the graph, and
determines them (`ofGraph_eq_iff`).
-/

namespace ImportChart

/-! ## Lines of a text -/

/-- Lines that each end in a line feed can be told apart. -/
theorem flatMap_feed_inj : ∀ {lines lines' : List (List Char)},
    (∀ line ∈ lines, '\n' ∉ line) → (∀ line ∈ lines', '\n' ∉ line) →
    lines.flatMap (· ++ ['\n']) = lines'.flatMap (· ++ ['\n']) →
    lines = lines'
  | [], [], _, _, _ => rfl
  | [], line :: _, _, _, h => by simp at h
  | line :: _, [], _, _, h => by simp at h
  | line :: lines, line' :: lines', hlines, hlines', h => by
      simp only [List.flatMap_cons, List.append_assoc,
        List.singleton_append] at h
      have hfree : ∀ {lines : List (List Char)} {line : List Char},
          (∀ other ∈ line :: lines, '\n' ∉ other) → ∀ x ∈ line, x ≠ '\n' :=
        fun hall x hx heq => hall _ (List.mem_cons_self ..) (heq ▸ hx)
      obtain ⟨rfl, -, hrest⟩ :=
        Text.run_append_inj (p := (· ≠ '\n')) (by simp) (by simp)
          (hfree hlines) (hfree hlines') h
      rw [flatMap_feed_inj
        (fun other hother => hlines other (List.mem_cons_of_mem _ hother))
        (fun other hother =>
          hlines' other (List.mem_cons_of_mem _ hother)) hrest]

namespace Chart

/-! ## The lines of a chart -/

/-- What a line of the text below its first stands for. -/
inductive Line
  | edge (edge : Edge)
  | node (node : Node)

namespace Line

/-- The line without its line feed. -/
def text : Line → List Char
  | edge e =>
      '\t' :: (e.source.toList ++ ' ' :: ("--> ".toList ++ e.target.toList))
  | node n => '\t' :: (n.label.toList ++ '[' :: (n.name.toList ++ [']']))

/-- A word over A to Z. -/
def IsWord (label : String) : Prop :=
  ∀ c ∈ label.toList, Label.isLetter c = true

/-- The labels of the line are words, and no name holds a line feed. -/
def Readable : Line → Prop
  | edge e => IsWord e.source ∧ IsWord e.target
  | node n => IsWord n.label ∧ '\n' ∉ n.name.toList

theorem feed_not_mem_word {label : String} (h : IsWord label) :
    '\n' ∉ label.toList :=
  fun hfeed => absurd (h _ hfeed) (by decide)

theorem feed_not_mem_text : ∀ {line : Line}, line.Readable → '\n' ∉ line.text
  | edge e, h => by
      have hsource := feed_not_mem_word h.1
      have htarget := feed_not_mem_word h.2
      simp [text, hsource, htarget]
  | node n, h => by
      have hlabel := feed_not_mem_word h.1
      simp [text, hlabel, h.2]

/-- An edge and a node are never written alike, whatever the name. -/
theorem text_edge_ne_text_node {e : Edge} {n : Node} (hsource : IsWord e.source)
    (hlabel : IsWord n.label) : (edge e).text ≠ (node n).text := by
  intro h
  obtain ⟨-, hmark, -⟩ :=
    Text.run_append_inj (p := (Label.isLetter · = true)) (by decide) (by decide)
      hsource hlabel (List.cons.inj h).2
  exact absurd hmark (by decide)

/-- A line that can be read stands for one thing only. -/
theorem text_inj : ∀ {line other : Line}, line.Readable → other.Readable →
    line.text = other.text → line = other
  | edge e, edge e', h, h', htext => by
      obtain ⟨hsource, -, hrest⟩ :=
        Text.run_append_inj (p := (Label.isLetter · = true)) (by decide)
          (by decide) h.1 h'.1 (List.cons.inj htext).2
      have htarget := List.append_cancel_left hrest
      rw [Edge.ext (String.toList_inj.mp hsource)
        (String.toList_inj.mp htarget)]
  | edge e, node n, h, h', htext =>
      absurd htext (text_edge_ne_text_node h.1 h'.1)
  | node n, edge e, h, h', htext =>
      absurd htext.symm (text_edge_ne_text_node h'.1 h.1)
  | node n, node n', h, h', htext => by
      obtain ⟨hlabel, -, hrest⟩ :=
        Text.run_append_inj (p := (Label.isLetter · = true)) (by decide)
          (by decide) h.1 h'.1 (List.cons.inj htext).2
      have hname := List.append_cancel_right hrest
      rw [Node.ext (String.toList_inj.mp hlabel) (String.toList_inj.mp hname)]

end Line

def Line.edge? : Line → Option Edge
  | .edge e => some e
  | .node _ => none

def Line.node? : Line → Option Node
  | .edge _ => none
  | .node n => some n

def lines (chart : Chart) : List Line :=
  chart.edges.map .edge ++ chart.nodes.map .node

theorem filterMap_edge?_lines (chart : Chart) :
    chart.lines.filterMap Line.edge? = chart.edges := by
  have hedges : chart.edges.filterMap (Line.edge? ∘ Line.edge) = chart.edges :=
    List.filterMap_some
  have hnodes : chart.nodes.filterMap (Line.edge? ∘ Line.node) = [] :=
    List.filterMap_eq_nil_iff.mpr fun _ _ => rfl
  rw [lines, List.filterMap_append, List.filterMap_map, List.filterMap_map,
    hedges, hnodes, List.append_nil]

theorem filterMap_node?_lines (chart : Chart) :
    chart.lines.filterMap Line.node? = chart.nodes := by
  have hedges : chart.edges.filterMap (Line.node? ∘ Line.edge) = [] :=
    List.filterMap_eq_nil_iff.mpr fun _ _ => rfl
  have hnodes : chart.nodes.filterMap (Line.node? ∘ Line.node) = chart.nodes :=
    List.filterMap_some
  rw [lines, List.filterMap_append, List.filterMap_map, List.filterMap_map,
    hedges, hnodes, List.nil_append]

theorem lines_inj {chart other : Chart} (h : chart.lines = other.lines) :
    chart = other := by
  have hedges : chart.edges = other.edges := by
    rw [← filterMap_edge?_lines, h, filterMap_edge?_lines]
  have hnodes : chart.nodes = other.nodes := by
    rw [← filterMap_node?_lines, h, filterMap_node?_lines]
  exact Chart.ext hedges hnodes

theorem Edge.toList_mermaid (edge : Edge) :
    edge.mermaid.toList = (Line.edge edge).text ++ ['\n'] := by
  simp [Edge.mermaid, Line.text]

theorem Node.toList_mermaid (node : Node) :
    node.mermaid.toList = (Line.node node).text ++ ['\n'] := by
  simp [Node.mermaid, Line.text]

/-- The text is the line of the direction and then the lines of the chart. -/
theorem toList_mermaid (direction : Direction) (chart : Chart) :
    (chart.mermaid direction).toList
      = (("flowchart " ++ direction.code).toList
        :: chart.lines.map Line.text).flatMap (· ++ ['\n']) := by
  have hedges : (String.join (chart.edges.map Edge.mermaid)).toList
      = (chart.edges.map (Line.text ∘ Line.edge)).flatMap (· ++ ['\n']) := by
    rw [String.toList_join, List.flatMap_map, List.flatMap_map]
    exact congrArg (chart.edges.flatMap ·) (funext Edge.toList_mermaid)
  have hnodes : (String.join (chart.nodes.map Node.mermaid)).toList
      = (chart.nodes.map (Line.text ∘ Line.node)).flatMap (· ++ ['\n']) := by
    rw [String.toList_join, List.flatMap_map, List.flatMap_map]
    exact congrArg (chart.nodes.flatMap ·) (funext Node.toList_mermaid)
  rw [mermaid, String.toList_append, String.toList_append, hedges, hnodes,
    mermaidHead, String.toList_append, lines, List.map_append, List.map_map,
    List.map_map, List.flatMap_cons, List.flatMap_append, List.append_assoc]
  rfl

/-! ## Charts that can be read -/

/-- Every line of the chart can be read. -/
def Readable (chart : Chart) : Prop := ∀ line ∈ chart.lines, line.Readable

theorem code_inj {direction other : Direction}
    (h : ("flowchart " ++ direction.code).toList
      = ("flowchart " ++ other.code).toList) :
    direction = other := by
  cases direction <;> cases other <;> first | rfl | exact absurd h (by decide)

theorem feed_not_mem_code (direction : Direction) :
    '\n' ∉ ("flowchart " ++ direction.code).toList := by
  cases direction <;> decide

theorem map_text_inj : ∀ {lines others : List Line},
    (∀ line ∈ lines, line.Readable) → (∀ line ∈ others, line.Readable) →
    lines.map Line.text = others.map Line.text → lines = others
  | [], [], _, _, _ => rfl
  | line :: lines, other :: others, h, h', htext => by
      obtain ⟨hhead, htail⟩ := List.cons.inj htext
      rw [Line.text_inj (h line (List.mem_cons_self ..))
          (h' other (List.mem_cons_self ..)) hhead,
        map_text_inj (fun l hl => h l (List.mem_cons_of_mem _ hl))
          (fun l hl => h' l (List.mem_cons_of_mem _ hl)) htail]

/-- The text of a chart that can be read says which direction and which chart it
is. -/
theorem mermaid_inj {direction direction' : Direction} {chart chart' : Chart}
    (h : chart.Readable) (h' : chart'.Readable)
    (htext : chart.mermaid direction = chart'.mermaid direction') :
    direction = direction' ∧ chart = chart' := by
  have hfree : ∀ (d : Direction) {c : Chart}, c.Readable →
      ∀ line ∈ ("flowchart " ++ d.code).toList :: c.lines.map Line.text,
        '\n' ∉ line := by
    intro d c hc line hline
    rcases List.mem_cons.mp hline with rfl | hline
    · exact feed_not_mem_code d
    · obtain ⟨l, hl, rfl⟩ := List.mem_map.mp hline
      exact Line.feed_not_mem_text (hc l hl)
  have hchars := congrArg String.toList htext
  rw [toList_mermaid, toList_mermaid] at hchars
  obtain ⟨hcode, hlines⟩ :=
    List.cons.inj (flatMap_feed_inj (hfree _ h) (hfree _ h') hchars)
  exact ⟨code_inj hcode, lines_inj (map_text_inj h h' hlines)⟩

/-! ## Charts of graphs -/

theorem isWord_label (book : LabelBook) (key : String) :
    Line.IsWord (book.label key) := by
  intro c hc
  rw [LabelBook.label, Label.ofIndex, String.toList_ofList] at hc
  exact Label.isLetter_of_mem_letters c hc

theorem isWord_of_mem_edges {graph : Graph} {edge : Edge}
    (h : edge ∈ (ofGraph graph).edges) :
    Line.IsWord edge.source ∧ Line.IsWord edge.target := by
  rw [ofGraph_eq] at h
  obtain ⟨pair, -, rfl⟩ := List.mem_map.mp h
  exact ⟨isWord_label _ _, isWord_label _ _⟩

theorem isWord_of_mem_nodes {graph : Graph} {node : Node}
    (h : node ∈ (ofGraph graph).nodes) :
    Line.IsWord node.label := by
  rw [ofGraph_eq] at h
  obtain ⟨key, -, rfl⟩ := List.mem_map.mp h
  exact isWord_label _ _

theorem readable_ofGraph {graph : Graph}
    (h : ∀ name ∈ graph.nodes, '\n' ∉ name.toList) :
    (ofGraph graph).Readable := by
  intro line hline
  rcases List.mem_append.mp hline with hline | hline
  · obtain ⟨edge, hedge, rfl⟩ := List.mem_map.mp hline
    exact isWord_of_mem_edges hedge
  · obtain ⟨node, hnode, rfl⟩ := List.mem_map.mp hline
    exact ⟨isWord_of_mem_nodes hnode,
      h node.name (mem_names_ofGraph.mp (List.mem_map_of_mem hnode))⟩

/-- An importer that no edge meets is a node that no edge meets. So what comes
last in the book is told by the edges and the nodes. -/
theorem removeAll_importers (graph : Graph) :
    graph.importers.removeAll (ends graph.edges)
      = graph.nodes.toList.removeAll (ends graph.edges) := by
  refine NameSet.eq_of_ascending (graph.pairwise_importers.filter _)
    (graph.nodes.ascending.filter _) fun name => ?_
  simp only [List.removeAll, List.mem_filter, ← NameSet.mem_def,
    Graph.mem_nodes]
  constructor
  · rintro ⟨himporter, hrest⟩
    exact ⟨Or.inl himporter, hrest⟩
  · rintro ⟨himporter | ⟨pair, hpair, rfl⟩, hrest⟩
    · exact ⟨himporter, hrest⟩
    · have hend : pair.2 ∈ ends graph.edges :=
        mem_ends.mpr ⟨pair, hpair, Or.inr rfl⟩
      simp [hend] at hrest

theorem keys_bookOf_eq {graph other : Graph} (hedges : graph.edges = other.edges)
    (hnodes : graph.nodes = other.nodes) :
    (bookOf graph).keys = (bookOf other).keys := by
  rw [keys_bookOf, keys_bookOf, drawnKeys, drawnKeys, List.eraseDups_append,
    List.eraseDups_append, removeAll_importers, removeAll_importers, hedges,
    hnodes]

/-- The chart keeps of a graph its edges and its nodes, and nothing else. -/
theorem ofGraph_eq_iff {graph other : Graph} :
    ofGraph graph = ofGraph other
      ↔ (∀ edge, edge ∈ graph.edges ↔ edge ∈ other.edges)
      ∧ ∀ name, name ∈ graph.nodes ↔ name ∈ other.nodes := by
  constructor
  · intro h
    constructor
    · have hnamed := namedEdges_ofGraph graph
      rw [h, namedEdges_ofGraph] at hnamed
      have hedges : other.edges = graph.edges := by
        refine (List.map_inj_right fun pair later hpair => ?_).mp hnamed
        rw [Prod.mk.injEq, Option.some.injEq, Option.some.injEq] at hpair
        exact Prod.ext hpair.2 hpair.1
      intro edge
      rw [hedges]
    · intro name
      rw [← mem_names_ofGraph, h, mem_names_ofGraph]
  · rintro ⟨hedges, hnodes⟩
    have hedges := Graph.edges_eq_of_mem_iff hedges
    have hnodes := NameSet.eq_of_mem_iff hnodes
    have hkeys := keys_bookOf_eq hedges hnodes
    rw [ofGraph_eq, ofGraph_eq, hedges]
    have hlabel : (bookOf graph).label = (bookOf other).label := by
      funext key
      rw [LabelBook.label, LabelBook.label, hkeys]
    have hedge : edgeIn (bookOf graph) = edgeIn (bookOf other) := by
      funext pair
      rw [edgeIn, edgeIn, hlabel]
    rw [hkeys, hlabel, hedge]

/-! ## The text of a graph -/

/-- The Mermaid text loses nothing of a graph but which of its importees are
importers too, and no name can make an edge look like a node. -/
theorem mermaid_ofGraph_eq_iff {graph graph' : Graph}
    {direction direction' : Direction}
    (h : ∀ name ∈ graph.nodes, '\n' ∉ name.toList)
    (h' : ∀ name ∈ graph'.nodes, '\n' ∉ name.toList) :
    ((ofGraph graph).mermaid direction = (ofGraph graph').mermaid direction'
        ↔ direction = direction'
          ∧ (∀ edge, edge ∈ graph.edges ↔ edge ∈ graph'.edges)
          ∧ ∀ name, name ∈ graph.nodes ↔ name ∈ graph'.nodes)
      ∧ ∀ edge ∈ (ofGraph graph).edges, ∀ node ∈ (ofGraph graph').nodes,
          edge.mermaid ≠ node.mermaid := by
  refine ⟨⟨fun htext => ?_, ?_⟩, fun edge hedge node hnode htext => ?_⟩
  · obtain ⟨hdirection, hchart⟩ :=
      mermaid_inj (readable_ofGraph h) (readable_ofGraph h') htext
    exact ⟨hdirection, ofGraph_eq_iff.mp hchart⟩
  · rintro ⟨rfl, hsame⟩
    rw [ofGraph_eq_iff.mpr hsame]
  · have hchars := congrArg String.toList htext
    rw [edge.toList_mermaid, node.toList_mermaid] at hchars
    exact Line.text_edge_ne_text_node (isWord_of_mem_edges hedge).1
      (isWord_of_mem_nodes hnode) (List.append_cancel_right hchars)

/-- Names full of arrows and brackets, and an importee that is an importer in
one of the two graphs only. -/
theorem mermaid_ofGraph_eq_iff_arrows :
    let graph := (Graph.empty.addEdge "A --> B" "x]\t[y").addImporter "\tA[z]"
    let graph' := graph.addImporter "x]\t[y"
    (∀ name ∈ graph.nodes, '\n' ∉ name.toList)
      ∧ (∀ name ∈ graph'.nodes, '\n' ∉ name.toList)
      ∧ graph ≠ graph'
      ∧ (ofGraph graph).mermaid .leftRight
        = (ofGraph graph').mermaid .leftRight := by
  intro graph graph'
  have h : ∀ name ∈ graph.nodes, '\n' ∉ name.toList :=
    show ∀ name ∈ graph.nodes.toList, '\n' ∉ name.toList by decide +kernel
  have h' : ∀ name ∈ graph'.nodes, '\n' ∉ name.toList :=
    show ∀ name ∈ graph'.nodes.toList, '\n' ∉ name.toList by decide +kernel
  have hedges : graph.edges = graph'.edges := by decide +kernel
  have hnodes : graph.nodes = graph'.nodes := by decide +kernel
  refine ⟨h, h', by decide +kernel,
    (mermaid_ofGraph_eq_iff h h').1.mpr ⟨rfl, ?_, ?_⟩⟩
  · intro edge
    rw [hedges]
  · intro name
    rw [hnodes]

end Chart

end ImportChart
