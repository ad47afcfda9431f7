/-!
# The grammar of JSON

What a JSON text is, and what it says, apart from any reader or writer.
`IsText value text` holds if the text is a value with white space around it. The
values are those of the whole format, not only the ones that a chart needs: next to
strings, arrays and objects the literal names and numbers, a number as it is
written.

In a string (`SpellsChar`) a character stands for itself or is escaped: by a letter,
by the four hexadecimal digits of its code, or, beyond U+FFFF, by those of two
surrogates. Half of such a pair spells no character.
-/

namespace ImportChart.Json

/-! ## Values -/

/-- What a JSON text says. -/
inductive Value
  | null
  | boolean (value : Bool)
  | number (text : List Char)
  | string (text : String)
  | array (items : List Value)
  | object (fields : List (String × Value))

/-- What may stand between the parts of a text. -/
def isSpace (c : Char) : Bool := c == ' ' || c == '\t' || c == '\n' || c == '\r'

def IsSpace (cs : List Char) : Prop := ∀ c ∈ cs, isSpace c = true

/-! ## Numbers -/

def isDigits (cs : List Char) : Bool := !cs.isEmpty && cs.all Char.isDigit

/-- Nothing, or an exponent with a sign or without one. -/
def isExponent : List Char → Bool
  | [] => true
  | mark :: '+' :: digits | mark :: '-' :: digits | mark :: digits =>
    (mark == 'e' || mark == 'E') && isDigits digits

/-- Nothing, or a point and digits, and then the exponent. -/
def isFraction : List Char → Bool
  | '.' :: cs => isDigits (cs.takeWhile Char.isDigit) && isExponent (cs.dropWhile Char.isDigit)
  | cs => isExponent cs

/-- Digits without a zero in front of others, and then the fraction. -/
def isUnsigned (cs : List Char) : Bool :=
  let digits := cs.takeWhile Char.isDigit
  isDigits digits && (digits == ['0'] || digits.head? != some '0')
    && isFraction (cs.dropWhile Char.isDigit)

def isNumber : List Char → Bool
  | '-' :: cs | cs => isUnsigned cs

/-! ## Strings -/

/-- The character that a letter behind a backslash stands for. -/
def escaped? : Char → Option Char
  | '"' => some '"'
  | '\\' => some '\\'
  | '/' => some '/'
  | 'b' => some '\x08'
  | 'f' => some '\x0c'
  | 'n' => some '\n'
  | 'r' => some '\r'
  | 't' => some '\t'
  | _ => none

def hexValue? (c : Char) : Option Nat :=
  if '0' ≤ c ∧ c ≤ '9' then some (c.toNat - '0'.toNat)
  else if 'a' ≤ c ∧ c ≤ 'f' then some (c.toNat - 'a'.toNat + 10)
  else if 'A' ≤ c ∧ c ≤ 'F' then some (c.toNat - 'A'.toNat + 10)
  else none

/-- The number that four hexadecimal digits write. -/
def unit? (first second third fourth : Char) : Option Nat := do
  let high := 16 * (← hexValue? first) + (← hexValue? second)
  let low := 16 * (← hexValue? third) + (← hexValue? fourth)
  return 256 * high + low

def IsHighHalf (unit : Nat) : Prop := 0xD800 ≤ unit ∧ unit < 0xDC00

def IsLowHalf (unit : Nat) : Prop := 0xDC00 ≤ unit ∧ unit < 0xE000

/-- The number of the character that two halves make. -/
def joinHalves (high low : Nat) : Nat :=
  0x10000 + (high - 0xD800) * 0x400 + (low - 0xDC00)

/-- A character as it may stand in a string. -/
inductive SpellsChar : Char → List Char → Prop
  | self {c : Char} : c ≠ '"' → c ≠ '\\' → 0x20 ≤ c.toNat → SpellsChar c [c]
  | letter {c letter : Char} : escaped? letter = some c → SpellsChar c ['\\', letter]
  | code {c first second third fourth : Char} :
      unit? first second third fourth = some c.toNat →
      SpellsChar c ['\\', 'u', first, second, third, fourth]
  | pair {c first second third fourth first' second' third' fourth' : Char}
      {high low : Nat} :
      unit? first second third fourth = some high → IsHighHalf high →
      unit? first' second' third' fourth' = some low → IsLowHalf low →
      c.toNat = joinHalves high low →
      SpellsChar c ['\\', 'u', first, second, third, fourth,
        '\\', 'u', first', second', third', fourth']

/-- The characters of a string, without its quotes. -/
inductive SpellsChars : List Char → List Char → Prop
  | nil : SpellsChars [] []
  | cons {c : Char} {cs spelled rest : List Char} : SpellsChar c spelled →
      SpellsChars cs rest → SpellsChars (c :: cs) (spelled ++ rest)

inductive SpellsString : String → List Char → Prop
  | quoted {text : String} {spelled : List Char} : SpellsChars text.toList spelled →
      SpellsString text ('"' :: spelled ++ ['"'])

/-! ## Texts -/

/-- The parts of a text: a value by itself or as an item, with white space around
it, and what stands between the brackets of an array or the braces of an object
if they are not empty. -/
inductive Part
  | value (value : Value)
  | item (item : Value)
  | items (items : List Value)
  | field (field : String × Value)
  | fields (fields : List (String × Value))

inductive Spells : Part → List Char → Prop
  | null : Spells (.value .null) "null".toList
  | true : Spells (.value (.boolean true)) "true".toList
  | false : Spells (.value (.boolean false)) "false".toList
  | number {text : List Char} : isNumber text = true →
      Spells (.value (.number text)) text
  | string {text : String} {spelled : List Char} : SpellsString text spelled →
      Spells (.value (.string text)) spelled
  | emptyArray {space : List Char} : IsSpace space →
      Spells (.value (.array [])) ('[' :: space ++ [']'])
  | array {items : List Value} {spelled : List Char} : Spells (.items items) spelled →
      Spells (.value (.array items)) ('[' :: spelled ++ [']'])
  | emptyObject {space : List Char} : IsSpace space →
      Spells (.value (.object [])) ('\x7b' :: space ++ ['\x7d'])
  | object {fields : List (String × Value)} {spelled : List Char} :
      Spells (.fields fields) spelled →
      Spells (.value (.object fields)) ('\x7b' :: spelled ++ ['\x7d'])
  | item {value : Value} {before spelled after : List Char} :
      IsSpace before → Spells (.value value) spelled → IsSpace after →
      Spells (.item value) (before ++ spelled ++ after)
  | lastItem {item : Value} {spelled : List Char} : Spells (.item item) spelled →
      Spells (.items [item]) spelled
  | moreItems {item : Value} {items : List Value} {spelled rest : List Char} :
      Spells (.item item) spelled → Spells (.items items) rest →
      Spells (.items (item :: items)) (spelled ++ ',' :: rest)
  | field {key : String} {value : Value} {before name after spelled : List Char} :
      IsSpace before → SpellsString key name → IsSpace after →
      Spells (.item value) spelled →
      Spells (.field (key, value)) (before ++ name ++ after ++ ':' :: spelled)
  | lastField {field : String × Value} {spelled : List Char} :
      Spells (.field field) spelled → Spells (.fields [field]) spelled
  | moreFields {field : String × Value} {fields : List (String × Value)}
      {spelled rest : List Char} :
      Spells (.field field) spelled → Spells (.fields fields) rest →
      Spells (.fields (field :: fields)) (spelled ++ ',' :: rest)

/-- The whole text is a value, with white space around it or not. -/
def IsText (value : Value) (text : String) : Prop := Spells (.item value) text.toList

end ImportChart.Json
