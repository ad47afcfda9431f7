import ImportChart.Chart.Mermaid
import ImportChart.Proofs.ChartContents

/-!
# Removing a common prefix

If all that a chart names starts with one text, to remove that text is to
rename the nodes, and nothing else on the chart changes. The text is found at
the start of each name even where it occurs again later, and it can be put back
(`append_shorten_removing`). Putting it in front of names keeps their order, so
the two graphs list the same edges and importers, renamed
(`edges_ofPackages_eq_map`, `importers_ofPackages_eq_map`). Labels are given out
by place alone, so graphs that list the same up to names have charts that are
the same up to names (`ofGraph_eq_renamed`).
-/

namespace ImportChart

/-! ## Renamed charts -/

namespace LabelBook

theorem idxOf_map {rename : String → String}
    (hinj : Function.Injective rename) (key : String) :
    ∀ keys : List String,
      (keys.map rename).idxOf (rename key) = keys.idxOf key
  | [] => rfl
  | other :: keys => by
      have hsame : (rename other == rename key) = (other == key) := by
        rw [Bool.eq_iff_iff, beq_iff_eq, beq_iff_eq]
        exact ⟨fun heq => hinj heq, congrArg rename⟩
      rw [List.map_cons, List.idxOf_cons, List.idxOf_cons, hsame,
        idxOf_map hinj key keys]

/-- A key keeps its label when all keys of the book are renamed. -/
theorem label_renamed {rename : String → String}
    (hinj : Function.Injective rename) {book renamed : LabelBook}
    (h : renamed.keys = book.keys.map rename) (key : String) :
    renamed.label (rename key) = book.label key := by
  rw [label, label, h, idxOf_map hinj]

end LabelBook

namespace Chart

def Node.renamed (rename : String → String) (node : Node) : Node :=
  ⟨node.label, rename node.name⟩

/-- The chart with other names on its nodes. -/
def renamed (rename : String → String) (chart : Chart) : Chart :=
  ⟨chart.edges, chart.nodes.map (Node.renamed rename)⟩

@[simp] theorem edges_renamed (rename : String → String) (chart : Chart) :
    (chart.renamed rename).edges = chart.edges := rfl

@[simp] theorem labels_renamed (rename : String → String) (chart : Chart) :
    (chart.renamed rename).labels = chart.labels := by
  rw [labels, renamed, List.map_map]
  rfl

@[simp] theorem names_renamed (rename : String → String) (chart : Chart) :
    (chart.renamed rename).names = chart.names.map rename := by
  rw [names, renamed, names, List.map_map, List.map_map]
  rfl

theorem keys_labelAll_map {rename : String → String}
    (hinj : Function.Injective rename) :
    ∀ (keys : List String) {book other : LabelBook}, book.Agrees → other.Agrees →
      other.keys = book.keys.map rename →
      (labelAll other (keys.map rename)).keys
        = (labelAll book keys).keys.map rename
  | [], _, _, _, _, h => h
  | key :: keys, book, other, hbook, hother, h => by
      refine keys_labelAll_map hinj keys (hbook.assign key)
        (hother.assign (rename key)) ?_
      rw [hbook.keys_assign, hother.keys_assign, h]
      have hmem : rename key ∈ book.keys.map rename ↔ key ∈ book.keys := by
        rw [List.mem_map]
        exact ⟨fun ⟨_, hold, heq⟩ => hinj heq ▸ hold, fun hold => ⟨key, hold, rfl⟩⟩
      by_cases hkey : key ∈ book.keys
      · rw [if_pos hkey, if_pos (hmem.mpr hkey)]
      · rw [if_neg hkey, if_neg (mt hmem.mp hkey), List.map_append]
        rfl

/-- Graphs that list the same up to names have charts that are the same up to
names. -/
theorem ofGraph_eq_renamed {rename : String → String}
    (hinj : Function.Injective rename) {graph other : Graph}
    (hedges : other.edges = graph.edges.map (Prod.map rename rename))
    (himporters : other.importers = graph.importers.map rename) :
    ofGraph other = (ofGraph graph).renamed rename := by
  have hdrawn : drawnKeys other = (drawnKeys graph).map rename := by
    rw [drawnKeys, drawnKeys, hedges, himporters, List.map_append, ends, ends,
      List.flatMap_map, List.map_flatMap]
    rfl
  have hkeys : (bookOf other).keys = (bookOf graph).keys.map rename := by
    rw [bookOf, hdrawn]
    exact keys_labelAll_map hinj _ LabelBook.agrees_empty
      LabelBook.agrees_empty rfl
  have hlabel := LabelBook.label_renamed hinj hkeys
  have hedge : ∀ pair : String × String,
      edgeIn (bookOf other) (Prod.map rename rename pair)
        = edgeIn (bookOf graph) pair := by
    intro pair
    rw [edgeIn, edgeIn, Prod.map_snd, Prod.map_fst, hlabel, hlabel]
  rw [ofGraph_eq, ofGraph_eq, hedges, hkeys, renamed, List.map_map,
    List.map_map, List.map_map]
  simp only [Function.comp_def, hedge, hlabel, Node.renamed]

end Chart

/-! ## Names with a prefix -/

theorem lt_append_left {name other : String} (pre : String)
    (h : name < other) : pre ++ name < pre ++ other := by
  rw [String.lt_iff, String.toList_append, String.toList_append]
  exact List.append_left_lt (String.lt_iff.mp h)

theorem append_left_injective (pre : String) :
    Function.Injective (pre ++ ·) :=
  fun _ _ h => (String.append_right_inj pre).mp h

namespace PathRules

/-- The rules with another text to remove. -/
def removing (rules : PathRules) (text : String) : PathRules :=
  { rules with removed := text }

theorem shorten_removing_empty (rules : PathRules) (path : String) :
    (rules.removing "").shorten path = path :=
  shorten_of_removed_eq_empty rfl path

/-- At the start of a path the text is removed there, wherever else it
occurs. -/
theorem append_shorten_removing (rules : PathRules) {pre path : String}
    (h : pre.toList <+: path.toList) :
    pre ++ (rules.removing pre).shorten path = path := by
  obtain ⟨rest, hrest⟩ := h
  have hcut : Text.CutOut pre.toList path.toList rest := by
    have hstart : path.toList = [] ++ pre.toList ++ rest := hrest.symm
    exact .leftmost hstart fun _ _ _ => Nat.zero_le _
  have hshort : (rules.removing pre).shorten path = String.ofList rest :=
    congrArg String.ofList (Text.cutOut_iff.mp hcut).symm
  apply String.toList_injective
  rw [hshort, String.toList_append, String.toList_ofList, hrest]

end PathRules

namespace Graph

/-- All paths of packages that the rules keep, and of what they import within
the module, start with one text. -/
structure SharesPrefix (modulePath : String) (rules : PathRules)
    (packages : List Package) (pre : String) : Prop where
  path : ∀ package ∈ packages, rules.Keeps package.path →
    pre.toList <+: package.path.toList
  imports : ∀ package ∈ packages, rules.Keeps package.path →
    ∀ path ∈ package.imports, IsDrawn modulePath rules path →
    pre.toList <+: path.toList

variable {modulePath pre : String} {rules : PathRules} {packages : List Package}

theorem nodeName_removing_empty {package : Package}
    (h : pre.toList <+: package.path.toList) :
    nodeName (rules.removing "") package
      = pre ++ nodeName (rules.removing pre) package := by
  rw [nodeName, nodeName, ← String.append_assoc,
    rules.append_shorten_removing h, rules.shorten_removing_empty]

/-- What a package draws with whole names it draws with short ones. -/
theorem SharesPrefix.draws_iff (h : SharesPrefix modulePath rules packages pre)
    {package : Package} (hpackage : package ∈ packages)
    {edge : String × String} :
    Draws modulePath (rules.removing "") package edge
      ↔ ∃ short, Draws modulePath (rules.removing pre) package short
        ∧ Prod.map (pre ++ ·) (pre ++ ·) short = edge := by
  have hname : rules.Keeps package.path →
      nodeName (rules.removing "") package
        = pre ++ nodeName (rules.removing pre) package :=
    fun hkept => nodeName_removing_empty (h.path package hpackage hkept)
  have himport : rules.Keeps package.path → ∀ path ∈ package.imports,
      draws modulePath rules path = true →
      pre ++ (rules.removing pre).shorten path = path :=
    fun hkept path hpath hdrawn => rules.append_shorten_removing
      (h.imports package hpackage hkept path hpath (Graph.draws_iff.mp hdrawn))
  constructor
  · rintro ⟨hkept, hfst, path, hpath, hdrawn, hsnd⟩
    have hkeeps := PathRules.excludes_eq_false_iff.mp hkept
    refine ⟨(nodeName (rules.removing pre) package,
      (rules.removing pre).shorten path),
      ⟨hkept, rfl, path, hpath, hdrawn, rfl⟩, Prod.ext ?_ ?_⟩
    · exact (hfst.trans (hname hkeeps)).symm
    · rw [hsnd, rules.shorten_removing_empty]
      exact himport hkeeps path hpath hdrawn
  · rintro ⟨short, ⟨hkept, hfst, path, hpath, hdrawn, hsnd⟩, rfl⟩
    have hkeeps := PathRules.excludes_eq_false_iff.mp hkept
    refine ⟨hkept, ?_, path, hpath, hdrawn, ?_⟩
    · rw [Prod.map_fst, hfst]
      exact (hname hkeeps).symm
    · rw [Prod.map_snd, hsnd, rules.shorten_removing_empty]
      exact himport hkeeps path hpath hdrawn

theorem edges_ofPackages_eq_map (h : SharesPrefix modulePath rules packages pre) :
    (ofPackages modulePath (rules.removing "") packages).edges
      = (ofPackages modulePath (rules.removing pre) packages).edges.map
        (Prod.map (pre ++ ·) (pre ++ ·)) := by
  refine eq_of_pairwise_edgeLt (pairwise_edges _) ?_ fun edge => ?_
  · -- the order of the short edges is that of the whole ones
    rw [List.pairwise_map]
    refine (pairwise_edges _).imp fun {edge later} hlt => ?_
    rcases hlt with hlt | ⟨heq, hlt⟩
    · exact Or.inl (lt_append_left pre hlt)
    · exact Or.inr ⟨congrArg (pre ++ ·) heq, lt_append_left pre hlt⟩
  · rw [mem_edges_ofPackages, List.mem_map]
    constructor
    · rintro ⟨package, hpackage, hdraws⟩
      obtain ⟨short, hshort, heq⟩ := (h.draws_iff hpackage).mp hdraws
      exact ⟨short, mem_edges_ofPackages.mpr ⟨package, hpackage, hshort⟩, heq⟩
    · rintro ⟨short, hshort, heq⟩
      obtain ⟨package, hpackage, hdraws⟩ := mem_edges_ofPackages.mp hshort
      exact ⟨package, hpackage, (h.draws_iff hpackage).mpr ⟨short, hdraws, heq⟩⟩

theorem importers_ofPackages_eq_map
    (h : SharesPrefix modulePath rules packages pre) :
    (ofPackages modulePath (rules.removing "") packages).importers
      = (ofPackages modulePath (rules.removing pre) packages).importers.map
        (pre ++ ·) := by
  refine NameSet.eq_of_ascending (pairwise_importers _) ?_ fun name => ?_
  · rw [List.pairwise_map]
    exact (pairwise_importers _).imp fun hlt => lt_append_left pre hlt
  · have hname : ∀ package ∈ packages, rules.excludes package.path = false →
        nodeName (rules.removing "") package
          = pre ++ nodeName (rules.removing pre) package :=
      fun package hpackage hkept => nodeName_removing_empty
        (h.path package hpackage (PathRules.excludes_eq_false_iff.mp hkept))
    rw [mem_importers_ofPackages, List.mem_map]
    constructor
    · rintro ⟨package, hpackage, hkept, rfl⟩
      exact ⟨_, mem_importers_ofPackages.mpr ⟨package, hpackage, hkept, rfl⟩,
        (hname package hpackage hkept).symm⟩
    · rintro ⟨short, hshort, rfl⟩
      obtain ⟨package, hpackage, hkept, rfl⟩ := mem_importers_ofPackages.mp hshort
      exact ⟨package, hpackage, hkept, (hname package hpackage hkept).symm⟩

end Graph

namespace Chart

variable {modulePath pre : String} {rules : PathRules} {packages : List Package}

/-- To remove the text with which all names start renames the nodes of a chart:
its edges stay as they are, its labels stay in their order, and on the whole
names' chart each name is the short one behind that text. The Mermaid text
differs in the names alone. -/
theorem ofGraph_removing_of_sharesPrefix
    (h : Graph.SharesPrefix modulePath rules packages pre) :
    let whole := ofGraph (.ofPackages modulePath (rules.removing "") packages)
    let short := ofGraph (.ofPackages modulePath (rules.removing pre) packages)
    whole.edges = short.edges
      ∧ whole.labels = short.labels
      ∧ whole.names = short.names.map (pre ++ ·)
      ∧ ∀ direction, whole.mermaid direction
        = mermaidHead direction ++ String.join (short.edges.map Edge.mermaid)
          ++ String.join (short.nodes.map fun node =>
            "\t" ++ node.label ++ "[" ++ (pre ++ node.name) ++ "]\n") := by
  intro whole short
  have hrenamed : whole = short.renamed (pre ++ ·) :=
    ofGraph_eq_renamed (append_left_injective pre)
      (Graph.edges_ofPackages_eq_map h) (Graph.importers_ofPackages_eq_map h)
  rw [hrenamed]
  refine ⟨edges_renamed _ _, labels_renamed _ _, names_renamed _ _, ?_⟩
  intro direction
  rw [mermaid, renamed, List.map_map]
  rfl

def noMocks : PathRules := .ofTexts ["mock"] ""

/-- The removed text stands at the start of every name, and once more in the
middle of one. A package that does not start with it is left out by a rule, and
an import that does not is from outside. -/
def nestedPackages : List Package :=
  [⟨"x/m", true, .ofList ["x/m/x/a", "fmt"]⟩, ⟨"x/m/x/a", false, .empty⟩,
    ⟨"mock", false, .ofList ["x/m"]⟩]

theorem sharesPrefix_nestedPackages :
    Graph.SharesPrefix "x/m" noMocks nestedPackages "x/" where
  path := by
    have hall : ∀ package ∈ nestedPackages,
        noMocks.excludes package.path = false →
        "x/".toList <+: package.path.toList := by decide
    exact fun package hpackage hkeeps =>
      hall package hpackage (PathRules.excludes_eq_false_iff.mpr hkeeps)
  imports := by
    have hall : ∀ package ∈ nestedPackages,
        noMocks.excludes package.path = false →
        ∀ path ∈ package.imports.toList,
        Graph.draws "x/m" noMocks path = true →
        "x/".toList <+: path.toList := by decide
    exact fun package hpackage hkeeps path hpath hdrawn =>
      hall package hpackage (PathRules.excludes_eq_false_iff.mpr hkeeps) path
        hpath (Graph.draws_iff.mpr hdrawn)

/-- The chart of these packages without a text. -/
def nestedChart (text : String) : Chart :=
  ofGraph (.ofPackages "x/m" (noMocks.removing text) nestedPackages)

theorem ofGraph_removing_of_sharesPrefix_nestedPackages :
    Graph.SharesPrefix "x/m" noMocks nestedPackages "x/"
      ∧ (nestedChart "x/").names = ["m/x/a", "m/MAIN"]
      ∧ (nestedChart "").edges = (nestedChart "x/").edges
      ∧ (nestedChart "").labels = (nestedChart "x/").labels
      ∧ (nestedChart "").names = (nestedChart "x/").names.map ("x/" ++ ·) :=
  have hcharts := ofGraph_removing_of_sharesPrefix sharesPrefix_nestedPackages
  ⟨sharesPrefix_nestedPackages, by decide +kernel, hcharts.1, hcharts.2.1,
    hcharts.2.2.1⟩

end Chart

end ImportChart
