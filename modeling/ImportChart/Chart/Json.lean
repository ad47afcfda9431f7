import ImportChart.Chart.Basic

/-!
# JSON text

Charts are also written as JSON, for other programs to read. The writer knows
the three kinds of value that a chart needs, strings, arrays and objects, and
lays them out on lines, two spaces deeper for each level.

In a string a quote, a backslash and the control characters below U+0020 are
escaped, the five that have a letter of their own by that letter; every other
character stands for itself.
-/

namespace ImportChart

/-- The JSON values that charts are made of. -/
inductive Json
  | string (text : String)
  | array (items : List Json)
  | object (fields : List (String × Json))

namespace Json

/-! ## Strings -/

/-- A digit below 16 as a lower-case hexadecimal character. -/
def hexDigit (digit : Nat) : Char :=
  if digit < 10 then Char.ofNat ('0'.toNat + digit) else Char.ofNat ('a'.toNat + (digit - 10))

def escape (c : Char) : List Char :=
  if c = '"' then ['\\', '"']
  else if c = '\\' then ['\\', '\\']
  else if c = '\x08' then ['\\', 'b']
  else if c = '\x0c' then ['\\', 'f']
  else if c = '\n' then ['\\', 'n']
  else if c = '\r' then ['\\', 'r']
  else if c = '\t' then ['\\', 't']
  else if c.toNat < 0x20 then
    ['\\', 'u', '0', '0', hexDigit (c.toNat / 16), hexDigit (c.toNat % 16)]
  else [c]

def quote (text : String) : List Char := '"' :: text.toList.flatMap escape ++ ['"']

/-! ## Layout -/

/-- A line end and the indentation of a level. -/
def newLine (level : Nat) : List Char := '\n' :: List.replicate (2 * level) ' '

mutual

/-- A value whose first line stands at the given level. -/
def layout (level : Nat) : Json → List Char
  | .string text => quote text
  | .array [] => ['[', ']']
  | .array (item :: items) =>
    '[' :: newLine (level + 1) ++ layout (level + 1) item ++ layoutItems (level + 1) items
      ++ newLine level ++ [']']
  | .object [] => ['\x7b', '\x7d']
  | .object (field :: fields) =>
    '\x7b' :: newLine (level + 1) ++ layoutField (level + 1) field
      ++ layoutFields (level + 1) fields ++ newLine level ++ ['\x7d']

/-- The items of an array after its first. -/
def layoutItems (level : Nat) : List Json → List Char
  | [] => []
  | item :: items => ',' :: newLine level ++ layout level item ++ layoutItems level items

def layoutField (level : Nat) : String × Json → List Char
  | (key, value) => quote key ++ [':', ' '] ++ layout level value

/-- The fields of an object after its first. -/
def layoutFields (level : Nat) : List (String × Json) → List Char
  | [] => []
  | field :: fields =>
    ',' :: newLine level ++ layoutField level field ++ layoutFields level fields

end

/-- The text of a value, without a final line end. -/
def text (value : Json) : String := String.ofList (layout 0 value)

end Json

/-! ## Charts -/

namespace Chart

def Edge.toJson (edge : Edge) : Json :=
  .object [("from", .string edge.source), ("to", .string edge.target)]

def Node.toJson (node : Node) : Json :=
  .object [("label", .string node.label), ("name", .string node.name)]

def toJson (chart : Chart) : Json :=
  .object [("edges", .array (chart.edges.map Edge.toJson)),
    ("nodes", .array (chart.nodes.map Node.toJson))]

def json (chart : Chart) : String := chart.toJson.text

end Chart

end ImportChart
