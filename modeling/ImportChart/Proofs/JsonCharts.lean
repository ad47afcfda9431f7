import ImportChart.Cli.Run
import ImportChart.Proofs.JsonReading

/-!
# Charts as JSON

What is written for a chart is a JSON text of the grammar, and a reader gets the
chart back from it, with its edges and nodes in their order.

The writer is the inverse of the grammar one level at a time. An escape spells its
character (`spellsChar_escape`), so a quoted text spells a string; and a value spells
itself at any depth, since its layout adds nothing but white space (`spells_layout`).
Of the text that has been read a chart takes the fields by their names
(`Chart.ofValue?`).
-/

namespace ImportChart

namespace Json

/-! ## Strings -/

/-- The escape of a control character writes its number. -/
theorem unit?_hexDigits : ∀ n < 0x20,
    unit? '0' '0' (hexDigit (n / 16)) (hexDigit (n % 16)) = some n := by
  decide

theorem spellsChar_escape (c : Char) : SpellsChar c (escape c) := by
  unfold escape
  -- a quote, a backslash and five control characters have a letter
  iterate 7
    split
    · next h => subst h; exact .letter rfl
  split
  · next hcontrol => exact .code (unit?_hexDigits c.toNat hcontrol)
  · next hplain => exact .self ‹_› ‹_› (Nat.le_of_not_lt hplain)

theorem spellsChars_flatMap_escape : ∀ cs, SpellsChars cs (cs.flatMap escape)
  | [] => .nil
  | c :: cs => .cons (spellsChar_escape c) (spellsChars_flatMap_escape cs)

theorem spellsString_quote (text : String) : SpellsString text (quote text) :=
  .quoted (spellsChars_flatMap_escape text.toList)

/-! ## Layout -/

mutual

/-- What a value of the writer says. -/
def toValue : Json → Value
  | .string text => .string text
  | .array items => .array (toValues items)
  | .object fields => .object (toFields fields)

def toValues : List Json → List Value
  | [] => []
  | item :: items => toValue item :: toValues items

def toFields : List (String × Json) → List (String × Value)
  | [] => []
  | (key, value) :: fields => (key, toValue value) :: toFields fields

end

theorem toValues_eq_map : ∀ items : List Json, toValues items = items.map toValue
  | [] => rfl
  | item :: items => by rw [toValues, toValues_eq_map items, List.map_cons]

theorem isSpace_newLine (level : Nat) : IsSpace (newLine level) := by
  intro c hc
  rcases List.mem_cons.mp hc with rfl | hc
  · rfl
  · rw [List.eq_of_mem_replicate hc]
    rfl

theorem isSpace_nil : IsSpace [] := List.forall_mem_nil _

theorem isSpace_blank : IsSpace [' '] := List.forall_mem_singleton.mpr rfl

mutual

/-- A value spells itself at any depth. -/
theorem spells_layout (level : Nat) :
    ∀ value : Json, Spells (.value (toValue value)) (layout level value)
  | .string text => .string (spellsString_quote text)
  | .array [] => .emptyArray isSpace_nil
  | .array (item :: items) => by
      have hitems := spells_layoutItems (level + 1) (isSpace_newLine level) items
        (spells_layout (level + 1) item)
      simpa [layout, toValue, toValues] using Spells.array hitems
  | .object [] => .emptyObject isSpace_nil
  | .object ((key, value) :: fields) => by
      have hfields := spells_layoutFields (level + 1) (isSpace_newLine level) fields key
        (spells_layout (level + 1) value)
      simpa [layout, layoutField, toValue, toFields] using Spells.object hfields

/-- The items behind an item, up to the line of the closing bracket. -/
theorem spells_layoutItems (level : Nat) {closing : List Char}
    (hclosing : IsSpace closing) : ∀ (items : List Json) {item : Value}
      {spelled : List Char}, Spells (.value item) spelled →
      Spells (.items (item :: toValues items))
        (newLine level ++ spelled ++ layoutItems level items ++ closing)
  | [], _, _, h => by
      simpa [layoutItems, toValues] using Spells.lastItem (.item (isSpace_newLine level) h hclosing)
  | next :: items, _, _, h => by
      have hmore := spells_layoutItems level hclosing items (spells_layout level next)
      have hitem := Spells.item (isSpace_newLine level) h isSpace_nil
      simpa [layoutItems, toValues] using Spells.moreItems hitem hmore

/-- The fields behind a field, up to the line of the closing brace. -/
theorem spells_layoutFields (level : Nat) {closing : List Char}
    (hclosing : IsSpace closing) : ∀ (fields : List (String × Json)) (key : String)
      {value : Value} {spelled : List Char}, Spells (.value value) spelled →
      Spells (.fields ((key, value) :: toFields fields))
        (newLine level ++ (quote key ++ [':', ' '] ++ spelled)
          ++ layoutFields level fields ++ closing)
  | [], key, _, _, h => by
      have hfield := Spells.field (isSpace_newLine level) (spellsString_quote key)
        isSpace_nil (.item isSpace_blank h hclosing)
      simpa [layoutFields, toFields] using Spells.lastField hfield
  | (next, value) :: fields, key, _, _, h => by
      have hmore := spells_layoutFields level hclosing fields next
        (spells_layout level value)
      have hfield := Spells.field (isSpace_newLine level) (spellsString_quote key)
        isSpace_nil (.item isSpace_blank h isSpace_nil)
      simpa [layoutFields, layoutField, toFields] using Spells.moreFields hfield hmore

end

/-! ## Taking values apart -/

namespace Value

def field? (name : String) : Value → Option Value
  | .object fields => fields.lookup name
  | _ => none

def string? : Value → Option String
  | .string text => some text
  | _ => none

def array? : Value → Option (List Value)
  | .array items => some items
  | _ => none

end Value

end Json

namespace Chart

open Json

def Edge.ofValue? (value : Value) : Option Edge := do
  let source ← (← value.field? "from").string?
  let target ← (← value.field? "to").string?
  return { source, target }

def Node.ofValue? (value : Value) : Option Node := do
  let label ← (← value.field? "label").string?
  let name ← (← value.field? "name").string?
  return { label, name }

/-- The chart that a value says. -/
def ofValue? (value : Value) : Option Chart := do
  let edges ← (← (← value.field? "edges").array?).mapM Edge.ofValue?
  let nodes ← (← (← value.field? "nodes").array?).mapM Node.ofValue?
  return { edges, nodes }

theorem Edge.ofValue?_toValue (edge : Edge) :
    Edge.ofValue? (toValue edge.toJson) = some edge := rfl

theorem Node.ofValue?_toValue (node : Node) :
    Node.ofValue? (toValue node.toJson) = some node := rfl

theorem mapM_map_eq_some {α β : Type} {write : α → β} {read? : β → Option α}
    (h : ∀ a, read? (write a) = some a) (as : List α) :
    (as.map write).mapM read? = some as := by
  induction as with
  | nil => rfl
  | cons a as ih => rw [List.map_cons, List.mapM_cons, h, ih]; rfl

theorem ofValue?_object (edges nodes : List Value) :
    ofValue? (.object [("edges", .array edges), ("nodes", .array nodes)])
      = (edges.mapM Edge.ofValue?).bind fun edges =>
        (nodes.mapM Node.ofValue?).bind fun nodes => some { edges, nodes } :=
  rfl

theorem ofValue?_toValue (chart : Chart) :
    ofValue? (toValue chart.toJson) = some chart := by
  have hvalue : toValue chart.toJson
      = .object [("edges", .array (chart.edges.map (toValue ·.toJson))),
        ("nodes", .array (chart.nodes.map (toValue ·.toJson)))] := by
    simp only [toJson, toValue, toFields, toValues_eq_map, List.map_map]
    rfl
  rw [hvalue, ofValue?_object, mapM_map_eq_some Edge.ofValue?_toValue,
    mapM_map_eq_some Node.ofValue?_toValue]
  rfl

/-! ## Charts -/

/-- What is printed for a chart is a JSON text. -/
theorem isText_json (chart : Chart) :
    IsText (toValue chart.toJson) (chart.json ++ "\n") := by
  have hfeed : IsSpace ['\n'] := isSpace_newLine 0
  have hspelled := Spells.item isSpace_nil (spells_layout 0 chart.toJson) hfeed
  rw [IsText, String.toList_append, json, Json.text, String.toList_ofList]
  exact hspelled

theorem ofText?_json_bind (chart : Chart) :
    (Value.ofText? (chart.json ++ "\n")).bind ofValue? = some chart := by
  rw [ofText?_eq_some_iff.mpr chart.isText_json, Option.bind_some, ofValue?_toValue]

/-- The reader reads the texts of the grammar and no others. What is printed for a
chart is such a text, whatever its labels and names are, and read back it is the
chart; so it is with what a run prints, and no two charts have one text. -/
theorem json_reads_back :
    (∀ text value, Value.ofText? text = some value ↔ IsText value text)
      ∧ (∀ chart : Chart, (∃ value, IsText value (chart.json ++ "\n"))
          ∧ (Value.ofText? (chart.json ++ "\n")).bind ofValue? = some chart)
      ∧ (∀ (request : Cli.Request) (settings : Settings) (loaded : Module.Loaded),
          (Value.ofText? (Cli.chartText { request with json := true } settings loaded)).bind
              ofValue?
            = some (ofGraph (.ofPackages loaded.path settings.pathRules loaded.packages)))
      ∧ Function.Injective fun chart : Chart => chart.json ++ "\n" := by
  refine ⟨fun _ _ => ofText?_eq_some_iff,
    fun chart => ⟨⟨_, chart.isText_json⟩, chart.ofText?_json_bind⟩,
    fun _ _ _ => ofText?_json_bind _, fun chart other hsame => ?_⟩
  have hread := chart.ofText?_json_bind
  rw [show chart.json ++ "\n" = other.json ++ "\n" from hsame,
    other.ofText?_json_bind] at hread
  exact (Option.some.inj hread).symm

end Chart

end ImportChart
