import ImportChart.Proofs.CharacterRuns
import ImportChart.Proofs.JsonStrings

/-!
# Reading JSON

A reader for the grammar takes one token after another and keeps what it has read on
a stack: an opening mark, a comma or a colon stays as it is, and a closing mark puts
one array or one object in the place of all down to the mark that opened it. In the
end one value must be left.

`Value.ofText?` reads a text as a value exactly if the text spells the value
(`ofText?_eq_some_iff`). Completeness goes by induction on the spelling: on any
stack, and with any text behind it, a part of a text is read as what it spells
(`readFrom_append`). Soundness is an invariant of the reader: the text that has been
read spells the stack (`Spelled`), which each token preserves (`spelled_next?`).
-/

namespace ImportChart.Json

open ImportChart.Source

/-! ## Words -/

/-- What a number or a literal name is written with. -/
def isWordChar (c : Char) : Bool := c.isAlphanum || c == '+' || c == '-' || c == '.'

/-- The value that a run of such characters spells. -/
def word? (word : List Char) : Option Value :=
  if word = "null".toList then some .null
  else if word = "true".toList then some (.boolean true)
  else if word = "false".toList then some (.boolean false)
  else if isNumber word then some (.number word)
  else none

def IsWord (word : List Char) : Prop := ∀ c ∈ word, isWordChar c = true

theorem IsWord.append {front back : List Char} (hfront : IsWord front)
    (hback : IsWord back) : IsWord (front ++ back) := by
  intro c hc
  rcases List.mem_append.mp hc with hc | hc
  · exact hfront c hc
  · exact hback c hc

theorem IsWord.cons {c : Char} {cs : List Char} (hc : isWordChar c = true)
    (h : IsWord cs) : IsWord (c :: cs) :=
  List.forall_mem_cons.mpr ⟨hc, h⟩

theorem isWord_of_isDigits {cs : List Char} (h : isDigits cs = true) : IsWord cs := by
  intro c hc
  rw [isDigits, Bool.and_eq_true, List.all_eq_true] at h
  simp only [isWordChar, Char.isAlphanum, h.2 c hc, Bool.or_true, Bool.true_or]

theorem isWord_of_isExponent {cs : List Char} (h : isExponent cs = true) :
    IsWord cs := by
  have hmark {mark : Char} (h : (mark == 'e' || mark == 'E') = true) :
      isWordChar mark = true := by
    rw [Bool.or_eq_true, beq_iff_eq, beq_iff_eq] at h
    rcases h with rfl | rfl <;> rfl
  unfold isExponent at h
  split at h
  · exact fun c hc => absurd hc List.not_mem_nil
  all_goals
    rw [Bool.and_eq_true] at h
    have hdigits := isWord_of_isDigits h.2
  · exact (hdigits.cons rfl).cons (hmark h.1)
  · exact (hdigits.cons rfl).cons (hmark h.1)
  · exact hdigits.cons (hmark h.1)

theorem isWord_of_isFraction {cs : List Char} (h : isFraction cs = true) :
    IsWord cs := by
  unfold isFraction at h
  split at h
  · next digits =>
      rw [Bool.and_eq_true] at h
      have hword := (isWord_of_isDigits h.1).append (isWord_of_isExponent h.2)
      rw [List.takeWhile_append_dropWhile] at hword
      exact hword.cons rfl
  · exact isWord_of_isExponent h

theorem isWord_of_isUnsigned {cs : List Char} (h : isUnsigned cs = true) :
    IsWord cs := by
  rw [isUnsigned, Bool.and_eq_true, Bool.and_eq_true] at h
  have hword := (isWord_of_isDigits h.1.1).append (isWord_of_isFraction h.2)
  rwa [List.takeWhile_append_dropWhile] at hword

theorem isWord_of_isNumber {cs : List Char} (h : isNumber cs = true) : IsWord cs := by
  unfold isNumber at h
  split at h
  · exact (isWord_of_isUnsigned h).cons rfl
  · exact isWord_of_isUnsigned h

theorem word?_of_isNumber {word : List Char} (h : isNumber word = true) :
    word? word = some (.number word) := by
  have hne (name : List Char) (hname : isNumber name = false) : word ≠ name := by
    rintro rfl
    rw [h] at hname
    cases hname
  rw [word?, if_neg (hne _ rfl), if_neg (hne _ rfl), if_neg (hne _ rfl), if_pos h]

theorem spells_of_word? {word : List Char} {value : Value}
    (h : word? word = some value) : Spells (.value value) word := by
  unfold word? at h
  split at h
  · next heq => subst heq; cases h; exact .null
  · split at h
    · next heq => subst heq; cases h; exact .true
    · split at h
      · next heq => subst heq; cases h; exact .false
      · split at h
        · next hnumber => cases h; exact .number hnumber
        · cases h

/-! ## The stack -/

/-- The marks that close nothing. -/
def isMark (c : Char) : Bool := c == '[' || c == '\x7b' || c == ',' || c == ':'

/-- What the reader keeps: such a mark, or a value. -/
inductive Symbol
  | mark (sign : Char)
  | value (value : Value)

/-- Puts an array in the place of its last items and all down to its bracket. -/
def popItems (last : List Value) : List Symbol → Option (List Symbol)
  | .mark '[' :: stack => some (.value (.array last) :: stack)
  | .mark ',' :: .value item :: stack => popItems (item :: last) stack
  | _ => none

def closeArray? : List Symbol → Option (List Symbol)
  | .mark '[' :: stack => some (.value (.array []) :: stack)
  | .value item :: stack => popItems [item] stack
  | _ => none

/-- Puts an object in the place of its last fields and all down to its brace. -/
def popFields (last : List (String × Value)) : List Symbol → Option (List Symbol)
  | .mark '\x7b' :: stack => some (.value (.object last) :: stack)
  | .mark ',' :: .value value :: .mark ':' :: .value (.string key) :: stack =>
    popFields ((key, value) :: last) stack
  | _ => none

def closeObject? : List Symbol → Option (List Symbol)
  | .mark '\x7b' :: stack => some (.value (.object []) :: stack)
  | .value value :: .mark ':' :: .value (.string key) :: stack =>
    popFields [(key, value)] stack
  | _ => none

/-- The stack with the token that starts with `c`, and what is left of the text. -/
def next? (stack : List Symbol) (c : Char) (cs : List Char) :
    Option (List Symbol × List Char) :=
  match c with
  | ']' => (closeArray? stack).map (·, cs)
  | '\x7d' => (closeObject? stack).map (·, cs)
  | '"' => (charsAt? cs).map fun (text, rest) =>
    (.value (.string (String.ofList text)) :: stack, rest)
  | c =>
    if isMark c then some (.mark c :: stack, cs)
    else (word? (c :: cs.takeWhile isWordChar)).map fun value =>
      (.value value :: stack, cs.dropWhile isWordChar)

/-! ## What has been read -/

/-- The text spells the stack, from its bottom to its top. -/
inductive Spelled : List Symbol → List Char → Prop
  | nil : Spelled [] []
  | mark {stack : List Symbol} {sign : Char} {front space : List Char} :
      Spelled stack front → IsSpace space →
      Spelled (.mark sign :: stack) (front ++ space ++ [sign])
  | value {stack : List Symbol} {value : Value} {front space spelled : List Char} :
      Spelled stack front → IsSpace space → Spells (.value value) spelled →
      Spelled (.value value :: stack) (front ++ space ++ spelled)

theorem exists_of_spelled_mark {sign : Char} {stack : List Symbol} {text : List Char}
    (h : Spelled (.mark sign :: stack) text) : ∃ front space,
      text = front ++ space ++ [sign] ∧ Spelled stack front ∧ IsSpace space := by
  cases h with
  | @mark _ _ front space hstack hspace => exact ⟨front, space, rfl, hstack, hspace⟩

/-- A value on the stack is an item, with white space up to the next mark. -/
theorem exists_of_spelled_value {item : Value} {stack : List Symbol} {text : List Char}
    (h : Spelled (.value item :: stack) text) : ∃ front spelled,
      text = front ++ spelled ∧ Spelled stack front
        ∧ ∀ {space}, IsSpace space → Spells (.item item) (spelled ++ space) := by
  cases h with
  | @value _ _ front before spelled hstack hbefore hitem =>
      exact ⟨front, before ++ spelled, List.append_assoc .., hstack,
        fun hspace => .item hbefore hitem hspace⟩

/-- So a string, a colon and a value are a field. -/
theorem exists_of_spelled_field {key : String} {value : Value} {stack : List Symbol}
    {text : List Char}
    (h : Spelled (.value value :: .mark ':' :: .value (.string key) :: stack) text) :
    ∃ front spelled, text = front ++ spelled ∧ Spelled stack front
      ∧ ∀ {space}, IsSpace space → Spells (.field (key, value)) (spelled ++ space) := by
  obtain ⟨marked, spelled, rfl, hmarked, hvalue⟩ := exists_of_spelled_value h
  obtain ⟨named, after, rfl, hnamed, hafter⟩ := exists_of_spelled_mark hmarked
  cases hnamed with
  | @value _ _ front before name hstack hbefore hname =>
      cases hname with
      | string hkey =>
          refine ⟨front, before ++ name ++ after ++ ':' :: spelled, by simp, hstack,
            fun hspace => ?_⟩
          simpa using Spells.field hbefore hkey hafter (hvalue hspace)

theorem spelled_popItems {last : List Value} {stack stack' : List Symbol}
    {front tail : List Char} (h : popItems last stack = some stack')
    (hstack : Spelled stack front) (hlast : Spells (.items last) tail) :
    Spelled stack' (front ++ tail ++ [']']) := by
  fun_induction popItems last stack generalizing front tail with
  | case1 last stack =>
      obtain rfl := Option.some.inj h
      obtain ⟨front, space, rfl, hstack, hspace⟩ := exists_of_spelled_mark hstack
      simpa using hstack.value hspace (.array hlast)
  | case2 last item stack ih =>
      obtain ⟨marked, space, rfl, hmarked, hspace⟩ := exists_of_spelled_mark hstack
      obtain ⟨front, spelled, rfl, hstack, hitem⟩ := exists_of_spelled_value hmarked
      simpa using ih h hstack (.moreItems (hitem hspace) hlast)
  | case3 => cases h

theorem spelled_closeArray? {stack stack' : List Symbol} {front space : List Char}
    (h : closeArray? stack = some stack') (hstack : Spelled stack front)
    (hspace : IsSpace space) : Spelled stack' (front ++ space ++ [']']) := by
  unfold closeArray? at h
  split at h
  · obtain rfl := Option.some.inj h
    obtain ⟨front, before, rfl, hstack, hbefore⟩ := exists_of_spelled_mark hstack
    simpa using hstack.value hbefore (.emptyArray hspace)
  · obtain ⟨front, spelled, rfl, hstack, hitem⟩ := exists_of_spelled_value hstack
    simpa using spelled_popItems h hstack (.lastItem (hitem hspace))
  · cases h

theorem spelled_popFields {last : List (String × Value)} {stack stack' : List Symbol}
    {front tail : List Char} (h : popFields last stack = some stack')
    (hstack : Spelled stack front) (hlast : Spells (.fields last) tail) :
    Spelled stack' (front ++ tail ++ ['\x7d']) := by
  fun_induction popFields last stack generalizing front tail with
  | case1 last stack =>
      obtain rfl := Option.some.inj h
      obtain ⟨front, space, rfl, hstack, hspace⟩ := exists_of_spelled_mark hstack
      simpa using hstack.value hspace (.object hlast)
  | case2 last value key stack ih =>
      obtain ⟨marked, space, rfl, hmarked, hspace⟩ := exists_of_spelled_mark hstack
      obtain ⟨front, spelled, rfl, hstack, hfield⟩ := exists_of_spelled_field hmarked
      simpa using ih h hstack (.moreFields (hfield hspace) hlast)
  | case3 => cases h

theorem spelled_closeObject? {stack stack' : List Symbol} {front space : List Char}
    (h : closeObject? stack = some stack') (hstack : Spelled stack front)
    (hspace : IsSpace space) : Spelled stack' (front ++ space ++ ['\x7d']) := by
  unfold closeObject? at h
  split at h
  · obtain rfl := Option.some.inj h
    obtain ⟨front, before, rfl, hstack, hbefore⟩ := exists_of_spelled_mark hstack
    simpa using hstack.value hbefore (.emptyObject hspace)
  · obtain ⟨front, spelled, rfl, hstack, hfield⟩ := exists_of_spelled_field hstack
    simpa using spelled_popFields h hstack (.lastField (hfield hspace))
  · cases h

/-- A token is read from the front of the text, and the text read so far spells the
stack again. -/
theorem spelled_next? {stack stack' : List Symbol} {c : Char} {cs rest : List Char}
    (h : next? stack c cs = some (stack', rest)) : ∃ token, cs = token ++ rest ∧
      ∀ {front space}, Spelled stack front → IsSpace space →
        Spelled stack' (front ++ space ++ c :: token) := by
  unfold next? at h
  split at h
  · obtain ⟨closed, hclosed, heq⟩ := Option.map_eq_some_iff.mp h
    obtain ⟨rfl, rfl⟩ := Prod.mk.inj heq
    exact ⟨[], rfl, spelled_closeArray? hclosed⟩
  · obtain ⟨closed, hclosed, heq⟩ := Option.map_eq_some_iff.mp h
    obtain ⟨rfl, rfl⟩ := Prod.mk.inj heq
    exact ⟨[], rfl, spelled_closeObject? hclosed⟩
  · obtain ⟨⟨text, more⟩, htext, heq⟩ := Option.map_eq_some_iff.mp h
    obtain ⟨rfl, rfl⟩ := Prod.mk.inj heq
    obtain ⟨spelled, rfl, hspelled⟩ := exists_of_charsAt? htext
    rw [← String.toList_ofList (l := text)] at hspelled
    exact ⟨spelled ++ ['"'], by simp, fun hstack hspace =>
      hstack.value hspace (.string (.quoted hspelled))⟩
  · split at h
    · obtain ⟨rfl, rfl⟩ := Prod.mk.inj (Option.some.inj h)
      exact ⟨[], rfl, .mark⟩
    · obtain ⟨value, hvalue, heq⟩ := Option.map_eq_some_iff.mp h
      obtain ⟨rfl, rfl⟩ := Prod.mk.inj heq
      exact ⟨_, List.takeWhile_append_dropWhile.symm, fun hstack hspace =>
        hstack.value hspace (spells_of_word? hvalue)⟩

/-! ## The reader -/

/-- The one value that is left in the end. Text that goes on behind a value, or in
which something is still open, leaves more than one symbol. -/
def result? : List Symbol → Option Value
  | [.value value] => some value
  | _ => none

/-- Reads a text token by token, with what has been read before on the stack. -/
def readFrom (stack : List Symbol) (cs : List Char) : Option Value :=
  match _ : cs.dropWhile isSpace with
  | [] => result? stack
  | c :: after =>
    match _ : next? stack c after with
    | none => none
    | some (stack, rest) => readFrom stack rest
termination_by cs.length
decreasing_by
  obtain ⟨token, rfl, -⟩ := spelled_next? ‹_›
  have hle := (List.dropWhile_suffix (l := cs) isSpace).length_le
  rw [‹cs.dropWhile isSpace = _›, List.length_cons, List.length_append] at hle
  omega

/-- The value that a text spells. -/
def Value.ofText? (text : String) : Option Value := readFrom [] text.toList

theorem readFrom_space_append {space : List Char} (h : IsSpace space)
    (stack : List Symbol) (cs : List Char) :
    readFrom stack (space ++ cs) = readFrom stack cs := by
  rw [readFrom, readFrom, List.dropWhile_append_of_pos h]

theorem readFrom_of_next? {stack stack' : List Symbol} {c : Char} {cs rest : List Char}
    (h : next? stack c cs = some (stack', rest)) (hc : isSpace c = false) :
    readFrom stack (c :: cs) = readFrom stack' rest := by
  have hdrop : (c :: cs).dropWhile isSpace = c :: cs := (stopsAt_cons hc cs).dropWhile
  rw [readFrom]
  split
  · next hnil => rw [hdrop] at hnil; cases hnil
  · next heq =>
      obtain ⟨rfl, rfl⟩ := List.cons.inj (hdrop.symm.trans heq)
      rw [h]

theorem isSpace_takeWhile (cs : List Char) : IsSpace (cs.takeWhile isSpace) :=
  List.all_eq_true.mp List.all_takeWhile

/-- If a value is read, then all of the text spells it. -/
theorem spells_of_readFrom {stack : List Symbol} {front cs : List Char} {value : Value}
    (h : readFrom stack cs = some value) (hstack : Spelled stack front) :
    Spells (.item value) (front ++ cs) := by
  fun_induction readFrom stack cs generalizing front with
  | case1 stack cs hdrop =>
      have hcs : cs.takeWhile isSpace ++ [] = cs := by
        rw [← hdrop, List.takeWhile_append_dropWhile]
      have hafter : IsSpace cs := by
        rw [← hcs, List.append_nil]
        exact isSpace_takeWhile cs
      unfold result? at h
      split at h
      · obtain rfl := Option.some.inj h
        obtain ⟨bottom, spelled, rfl, hbottom, hitem⟩ := exists_of_spelled_value hstack
        cases hbottom with
        | nil => exact hitem hafter
      · cases h
  | case2 => cases h
  | case3 stack cs c after hdrop stack' rest hnext ih =>
      obtain ⟨token, rfl, htoken⟩ := spelled_next? hnext
      have hcs : cs.takeWhile isSpace ++ c :: (token ++ rest) = cs := by
        rw [← hdrop, List.takeWhile_append_dropWhile]
      have hread := ih h (htoken hstack (isSpace_takeWhile cs))
      rw [← hcs]
      simpa using hread

/-! ## What is spelled is read -/

/-- The stack with the items of an array on it that is still open. -/
def pushItems : List Value → List Symbol → List Symbol
  | [], stack => stack
  | [item], stack => .value item :: stack
  | item :: items, stack => pushItems items (.mark ',' :: .value item :: stack)

def pushField (field : String × Value) (stack : List Symbol) : List Symbol :=
  .value field.2 :: .mark ':' :: .value (.string field.1) :: stack

def pushFields : List (String × Value) → List Symbol → List Symbol
  | [], stack => stack
  | [field], stack => pushField field stack
  | field :: fields, stack => pushFields fields (.mark ',' :: pushField field stack)

/-- The stack with a part of a text on it. -/
def pushPart : Part → List Symbol → List Symbol
  | .value value, stack => .value value :: stack
  | .item item, stack => .value item :: stack
  | .items items, stack => pushItems items stack
  | .field field, stack => pushField field stack
  | .fields fields, stack => pushFields fields stack

theorem closeArray?_pushItems {items : List Value} (hne : items ≠ [])
    (stack : List Symbol) : closeArray? (pushItems items stack) = popItems items stack := by
  fun_induction pushItems items stack with
  | case1 => exact absurd rfl hne
  | case2 => rfl
  | case3 item items stack hmore ih => exact ih hmore

theorem closeObject?_pushFields {fields : List (String × Value)} (hne : fields ≠ [])
    (stack : List Symbol) :
    closeObject? (pushFields fields stack) = popFields fields stack := by
  fun_induction pushFields fields stack with
  | case1 => exact absurd rfl hne
  | case2 => rfl
  | case3 field fields stack hmore ih => exact ih hmore

theorem ne_nil_of_spells_items {items : List Value} {spelled : List Char}
    (h : Spells (.items items) spelled) : items ≠ [] := by
  cases h <;> exact List.cons_ne_nil _ _

theorem ne_nil_of_spells_fields {fields : List (String × Value)} {spelled : List Char}
    (h : Spells (.fields fields) spelled) : fields ≠ [] := by
  cases h <;> exact List.cons_ne_nil _ _

theorem next?_of_isWordChar {c : Char} (hc : isWordChar c = true)
    (stack : List Symbol) (cs : List Char) :
    next? stack c cs = (word? (c :: cs.takeWhile isWordChar)).map fun value =>
      (.value value :: stack, cs.dropWhile isWordChar) := by
  have hmark : ¬ isMark c = true := by
    simp only [isMark, Bool.or_eq_true, beq_iff_eq]
    rintro (((rfl | rfl) | rfl) | rfl) <;> cases hc
  unfold next?
  split
  · cases hc
  · cases hc
  · cases hc
  · rw [if_neg hmark]

theorem isSpace_of_isWordChar {c : Char} (hc : isWordChar c = true) :
    isSpace c = false := by
  rw [Bool.eq_false_iff]
  simp only [isSpace, ne_eq, Bool.or_eq_true, beq_iff_eq]
  rintro (((rfl | rfl) | rfl) | rfl) <;> cases hc

theorem readFrom_word {word rest : List Char} {value : Value}
    (h : word? word = some value) (hword : IsWord word)
    (hrest : StopsAt isWordChar rest) (stack : List Symbol) :
    readFrom stack (word ++ rest) = readFrom (.value value :: stack) rest := by
  cases word with
  | nil => cases h
  | cons c cs =>
      obtain ⟨hc, hcs⟩ := List.forall_mem_cons.mp hword
      have hnext : next? stack c (cs ++ rest) = some (.value value :: stack, rest) := by
        rw [next?_of_isWordChar hc, hrest.takeWhile_append hcs,
          hrest.dropWhile_append hcs, h, Option.map_some]
      exact readFrom_of_next? hnext (isSpace_of_isWordChar hc)

theorem stopsAt_space_append {space rest : List Char} (hspace : IsSpace space)
    (hrest : StopsAt isWordChar rest) : StopsAt isWordChar (space ++ rest) := by
  cases space with
  | nil => exact hrest
  | cons c cs =>
      refine stopsAt_cons (Bool.eq_false_iff.mpr fun hword => ?_) (cs ++ rest)
      have hc := hspace c List.mem_cons_self
      rw [isSpace_of_isWordChar hword] at hc
      cases hc

theorem readFrom_string {text : String} {spelled : List Char}
    (h : SpellsString text spelled) (stack : List Symbol) (rest : List Char) :
    readFrom stack (spelled ++ rest) = readFrom (.value (.string text) :: stack) rest := by
  obtain @⟨chars, hchars⟩ := h
  have hnext : next? stack '"' (chars ++ '"' :: rest)
      = some (.value (.string text) :: stack, rest) := by
    simp only [next?, charsAt?_append hchars, Option.map_some, String.ofList_toList]
  rw [List.append_assoc]
  exact readFrom_of_next? hnext rfl

theorem readFrom_mark {sign : Char} (h : isMark sign = true) (stack : List Symbol)
    (rest : List Char) :
    readFrom stack (sign :: rest) = readFrom (.mark sign :: stack) rest := by
  simp only [isMark, Bool.or_eq_true, beq_iff_eq] at h
  rcases h with ((rfl | rfl) | rfl) | rfl <;> exact readFrom_of_next? rfl rfl

/-- What stands between an opening and a closing mark is read before the second. -/
theorem readFrom_enclosed {opening closing : Char} {stack inner closed : List Symbol}
    {spelled rest : List Char} (hopening : isMark opening = true)
    (hinner : readFrom (.mark opening :: stack) (spelled ++ closing :: rest)
      = readFrom inner (closing :: rest))
    (hclosed : next? inner closing rest = some (closed, rest))
    (hclosing : isSpace closing = false) :
    readFrom stack (opening :: spelled ++ [closing] ++ rest) = readFrom closed rest := by
  rw [List.append_assoc, List.cons_append, List.singleton_append,
    readFrom_mark hopening, hinner, readFrom_of_next? hclosed hclosing]

/-- A part of a text is read as what it spells, whatever stands around it. -/
theorem readFrom_append {part : Part} {text : List Char} (h : Spells part text) :
    ∀ {rest : List Char}, StopsAt isWordChar rest → ∀ stack : List Symbol,
      readFrom stack (text ++ rest) = readFrom (pushPart part stack) rest := by
  induction h with
  | null | true | false =>
      intro rest hrest
      exact readFrom_word rfl (List.all_eq_true.mp rfl) hrest
  | number hnumber =>
      intro rest hrest
      exact readFrom_word (word?_of_isNumber hnumber) (isWord_of_isNumber hnumber) hrest
  | string hstring =>
      intro rest _ stack
      exact readFrom_string hstring stack rest
  | emptyArray hspace =>
      intro rest _ stack
      exact readFrom_enclosed rfl (readFrom_space_append hspace _ _) rfl rfl
  | @array items spelled hitems ih =>
      intro rest _ stack
      have hclosed : next? (pushItems items (.mark '[' :: stack)) ']' rest
          = some (.value (.array items) :: stack, rest) := by
        rw [next?, closeArray?_pushItems (ne_nil_of_spells_items hitems)]
        rfl
      exact readFrom_enclosed rfl (ih (stopsAt_cons rfl rest) _) hclosed rfl
  | emptyObject hspace =>
      intro rest _ stack
      exact readFrom_enclosed rfl (readFrom_space_append hspace _ _) rfl rfl
  | @object fields spelled hfields ih =>
      intro rest _ stack
      have hclosed : next? (pushFields fields (.mark '\x7b' :: stack)) '\x7d' rest
          = some (.value (.object fields) :: stack, rest) := by
        rw [next?, closeObject?_pushFields (ne_nil_of_spells_fields hfields)]
        rfl
      exact readFrom_enclosed rfl (ih (stopsAt_cons rfl rest) _) hclosed rfl
  | @item value before spelled after hbefore _ hafter ih =>
      intro rest hrest stack
      calc readFrom stack (before ++ spelled ++ after ++ rest)
          = readFrom stack (spelled ++ (after ++ rest)) := by
            rw [List.append_assoc, List.append_assoc, readFrom_space_append hbefore]
        _ = readFrom (.value value :: stack) (after ++ rest) :=
            ih (stopsAt_space_append hafter hrest) stack
        _ = readFrom (.value value :: stack) rest := readFrom_space_append hafter _ _
  | lastItem _ ih => exact ih
  | @moreItems item items spelled more _ hitems ih ihs =>
      intro rest hrest stack
      obtain ⟨second, others, rfl⟩ :=
        List.exists_cons_of_ne_nil (ne_nil_of_spells_items hitems)
      rw [List.append_assoc, List.cons_append, ih (stopsAt_cons rfl _),
        readFrom_mark rfl]
      exact ihs hrest (.mark ',' :: .value item :: stack)
  | @field key value before name after spelled hbefore hname hafter _ ih =>
      intro rest hrest stack
      calc readFrom stack (before ++ name ++ after ++ ':' :: spelled ++ rest)
          = readFrom stack (name ++ (after ++ ':' :: (spelled ++ rest))) := by
            simp only [List.append_assoc, List.cons_append, readFrom_space_append hbefore]
        _ = readFrom (.value (.string key) :: stack) (':' :: (spelled ++ rest)) := by
            rw [readFrom_string hname, readFrom_space_append hafter]
        _ = readFrom (.mark ':' :: .value (.string key) :: stack) (spelled ++ rest) :=
            readFrom_mark rfl _ _
        _ = readFrom (pushField (key, value) stack) rest := ih hrest _
  | lastField _ ih => exact ih
  | @moreFields field fields spelled more _ hfields ih ihs =>
      intro rest hrest stack
      obtain ⟨second, others, rfl⟩ :=
        List.exists_cons_of_ne_nil (ne_nil_of_spells_fields hfields)
      rw [List.append_assoc, List.cons_append, ih (stopsAt_cons rfl _),
        readFrom_mark rfl]
      exact ihs hrest (.mark ',' :: pushField field stack)

/-- A text is read as a value exactly if it spells the value. -/
theorem ofText?_eq_some_iff {text : String} {value : Value} :
    Value.ofText? text = some value ↔ IsText value text := by
  constructor
  · intro h
    exact spells_of_readFrom h .nil
  · intro h
    have hend : StopsAt isWordChar [] := stopsAt_of_forall (by simp)
    have hread := readFrom_append h hend []
    rw [List.append_nil] at hread
    rw [Value.ofText?, hread, pushPart, readFrom]
    rfl

end ImportChart.Json
