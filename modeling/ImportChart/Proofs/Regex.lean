import ImportChart.Pattern
import ImportChart.Text.Blank
import ImportChart.Text.Letter

/-!
# Regular expressions

A regular expression as a syntax tree, how the tree is written (`Regex.text`),
and what it takes of the head of a text (`Regex.runs`). An expression may take
the head of a text in several ways. They are listed in the order in which they
are preferred: the first of two alternatives before the second, and one round
more before one round less. So the match at a place is the first run of the list.

Where a repeated class is followed by something that no character of the class
can start, only the longest run of the class counts (`runs_star_seq`). That is
what lets a reader go through a text without ever turning back.
-/

namespace ImportChart

open Text

/-! ## Expressions -/

/-- What a class in brackets may list. -/
inductive ClassItem
  | letters
  | numbers
  | char (c : Char)

inductive Regex
  /-- A text that stands for itself. -/
  | word (text : List Char)
  | blank
  /-- Anything but a line feed. -/
  | any
  | oneOf (items : List ClassItem)
  | noneOf (items : List ClassItem)
  | seq (first second : Regex)
  | either (first second : Regex)
  | optional (inner : Regex)
  | star (inner : Regex)
  | plus (inner : Regex)
  /-- A group whose text is kept. -/
  | capture (inner : Regex)
  | group (inner : Regex)

/-- A character that stands for itself, as it is written. -/
def charText (c : Char) : List Char :=
  if c = '\n' then ['\\', 'n']
  else if Pattern.regexMarks.contains c then ['\\', c] else [c]

def ClassItem.text : ClassItem → List Char
  | letters => "\\p\x7bL\x7d".toList
  | numbers => "\\p\x7bN\x7d".toList
  | char c => charText c

def ClassItem.holds : ClassItem → Char → Bool
  | letters, c => isLetter c
  | numbers, c => isNumber c
  | char d, c => c == d

namespace Regex

def text : Regex → List Char
  | word text => text.flatMap charText
  | blank => ['\\', 's']
  | any => ['.']
  | oneOf items => '[' :: items.flatMap ClassItem.text ++ [']']
  | noneOf items => '[' :: '^' :: items.flatMap ClassItem.text ++ [']']
  | seq first second => first.text ++ second.text
  | either first second => first.text ++ '|' :: second.text
  | optional inner => inner.text ++ ['?']
  | star inner => inner.text ++ ['*']
  | plus inner => inner.text ++ ['+']
  | capture inner => '(' :: inner.text ++ [')']
  | group inner => '(' :: '?' :: ':' :: inner.text ++ [')']

end Regex

/-! ## Runs -/

/-- One way to take the head of a text: what is taken, the texts of the groups
that took part, and what is left. -/
structure Run where
  taken : List Char
  captures : List (List Char)
  rest : List Char

namespace Run

def nothing (cs : List Char) : Run := ⟨[], [], cs⟩

/-- A run and one that goes on where it ends. -/
def andThen (first second : Run) : Run :=
  ⟨first.taken ++ second.taken, first.captures ++ second.captures, second.rest⟩

def captured (run : Run) : Run := { run with captures := run.taken :: run.captures }

/-- The text of the first group that took part, and what is left. -/
def reading? (run : Run) : Option (List Char × List Char) :=
  run.captures.head?.map fun text => (text, run.rest)

@[simp] theorem rest_andThen (first second : Run) :
    (first.andThen second).rest = second.rest := rfl

@[simp] theorem rest_captured (run : Run) : run.captured.rest = run.rest := rfl

theorem andThen_andThen (first second : Run) :
    (first.andThen second).andThen = fun third => first.andThen (second.andThen third) := by
  funext third
  simp [andThen, List.append_assoc]

theorem reading?_andThen {first : Run} (h : first.captures = []) (second : Run) :
    (first.andThen second).reading? = second.reading? := by
  rw [reading?, reading?, andThen, h, List.nil_append]

end Run

/-- The runs of a step and of what follows it. -/
def followed (front : List Run) (next : List Char → List Run) : List Run :=
  front.flatMap fun run => (next run.rest).map run.andThen

/-- One character from `p`. -/
def one (p : Char → Bool) : List Char → List Run
  | [] => []
  | c :: cs => if p c then [⟨[c], [], cs⟩] else []

/-- A step taken over and over, as often as possible first. A round that takes
nothing is none. -/
def rounds (step : List Char → List Run) (cs : List Char) : List Run :=
  ((step cs).flatMap fun run =>
    if run.rest.length < cs.length then (rounds step run.rest).map run.andThen
    else []) ++ [.nothing cs]
termination_by cs.length

namespace Regex

/-- The runs of an expression at the head of a text, the preferred ones first. -/
def runs : Regex → List Char → List Run
  | word text, cs => (afterHead? text cs).toList.map (⟨text, [], ·⟩)
  | blank, cs => one isBlank cs
  | any, cs => one (· != '\n') cs
  | oneOf items, cs => one (fun c => items.any (·.holds c)) cs
  | noneOf items, cs => one (fun c => !items.any (·.holds c)) cs
  | seq first second, cs => followed (first.runs cs) second.runs
  | either first second, cs => first.runs cs ++ second.runs cs
  | optional inner, cs => inner.runs cs ++ [.nothing cs]
  | star inner, cs => rounds inner.runs cs
  | plus inner, cs => followed (inner.runs cs) (rounds inner.runs)
  | capture inner, cs => (inner.runs cs).map Run.captured
  | group inner, cs => inner.runs cs

/-- What the match at the head of a text reads, and what is left. -/
def read? (regex : Regex) (cs : List Char) : Option (List Char × List Char) :=
  (regex.runs cs).head?.bind Run.reading?

/-- What all matches in a text read, from left to right. Behind a match the
search goes on where it ends, and else one character further. -/
def readAll (regex : Regex) (cs : List Char) : List (List Char) :=
  match cs with
  | [] => []
  | c :: cs =>
    match regex.read? (c :: cs) with
    | some (text, rest) =>
      if rest.length ≤ cs.length then text :: readAll regex rest else readAll regex cs
    | none => readAll regex cs
termination_by cs.length

/-- What the leftmost match that starts a line reads, and what is left;
`atStart` tells whether the text starts a line. -/
def readLine? (regex : Regex) (atStart : Bool) : List Char → Option (List Char × List Char)
  | [] => if atStart then regex.read? [] else none
  | c :: cs =>
    match if atStart then regex.read? (c :: cs) else none with
    | some read => some read
    | none => readLine? regex (c == '\n') cs

end Regex

/-! ## Steps that follow each other -/

@[simp] theorem followed_nil (next : List Char → List Run) : followed [] next = [] := rfl

theorem followed_cons (run : Run) (front : List Run) (next : List Char → List Run) :
    followed (run :: front) next
      = (next run.rest).map run.andThen ++ followed front next :=
  List.flatMap_cons

theorem followed_singleton (run : Run) (next : List Char → List Run) :
    followed [run] next = (next run.rest).map run.andThen := by
  rw [followed_cons, followed_nil, List.append_nil]

theorem followed_append (front back : List Run) (next : List Char → List Run) :
    followed (front ++ back) next = followed front next ++ followed back next :=
  List.flatMap_append

theorem map_nothing_andThen (cs : List Char) (runs : List Run) :
    runs.map (Run.nothing cs).andThen = runs :=
  List.map_id runs

theorem followed_map_andThen (first : Run) (front : List Run)
    (next : List Char → List Run) :
    followed (front.map first.andThen) next
      = (followed front next).map first.andThen := by
  simp only [followed, List.flatMap_map, List.map_flatMap, List.map_map,
    Function.comp_def, Run.rest_andThen, Run.andThen_andThen]

theorem followed_assoc (front : List Run) (next last : List Char → List Run) :
    followed (followed front next) last
      = followed front fun cs => followed (next cs) last := by
  simp only [followed, List.flatMap_assoc, List.flatMap_map, List.map_flatMap,
    List.map_map, Function.comp_def, Run.rest_andThen, Run.andThen_andThen]

/-! ## Greedy runs of a class -/

section

variable {p : Char → Bool}

theorem rounds_one_nil : rounds (one p) [] = [.nothing []] := by
  rw [rounds]
  rfl

theorem rounds_one_cons (c : Char) (cs : List Char) :
    rounds (one p) (c :: cs)
      = if p c then
          (rounds (one p) cs).map (Run.andThen ⟨[c], [], cs⟩) ++ [.nothing (c :: cs)]
        else [.nothing (c :: cs)] := by
  rw [rounds, one]
  split
  · simp
  · rfl

/-- The run of a class that takes as much as possible. -/
def longest (p : Char → Bool) (cs : List Char) : Run :=
  ⟨cs.takeWhile p, [], cs.dropWhile p⟩

theorem longest_cons {c : Char} (h : p c = true) (cs : List Char) :
    longest p (c :: cs) = Run.andThen ⟨[c], [], cs⟩ (longest p cs) := by
  simp [longest, Run.andThen, h]

theorem longest_of_not {c : Char} (h : p c = false) (cs : List Char) :
    longest p (c :: cs) = .nothing (c :: cs) := by
  simp [longest, Run.nothing, h]

/-- The longest run is the preferred one. -/
theorem head?_rounds_one : ∀ cs : List Char,
    (rounds (one p) cs).head? = some (longest p cs)
  | [] => by rw [rounds_one_nil]; rfl
  | c :: cs => by
      rw [rounds_one_cons]
      cases h : p c with
      | false => rw [longest_of_not h]; rfl
      | true =>
          rw [longest_cons h, if_pos rfl, List.head?_append, List.head?_map,
            head?_rounds_one cs]
          rfl

/-- If nothing that starts with a character of the class can follow, all runs
but the longest fail. -/
theorem followed_rounds_one {next : List Char → List Run}
    (hnext : ∀ c cs, p c = true → next (c :: cs) = []) : ∀ cs : List Char,
    followed (rounds (one p) cs) next
      = (next (cs.dropWhile p)).map (longest p cs).andThen
  | [] => by rw [rounds_one_nil, followed_singleton]; rfl
  | c :: cs => by
      rw [rounds_one_cons]
      cases h : p c with
      | false =>
          rw [longest_of_not h, if_neg (by simp), followed_singleton,
            List.dropWhile_cons_of_neg (by simp [h])]
          rfl
      | true =>
          have hshort : followed [.nothing (c :: cs)] next = [] := by
            rw [followed_singleton, Run.nothing, hnext c cs h]
            rfl
          rw [if_pos rfl, followed_append, hshort, List.append_nil,
            followed_map_andThen, followed_rounds_one hnext cs, List.map_map,
            longest_cons h, List.dropWhile_cons_of_pos h, Run.andThen_andThen]
          rfl

end

namespace Regex

variable {first second : Regex} {p : Char → Bool}

theorem runs_star (inner : Regex) : (star inner).runs = rounds inner.runs := rfl

theorem runs_seq_assoc (first second third : Regex) (cs : List Char) :
    (seq (seq first second) third).runs cs
      = (seq first (seq second third)).runs cs := by
  rw [runs, runs, runs, followed_assoc]
  rfl

theorem runs_star_seq (hfirst : first.runs = one p)
    (hsecond : ∀ c cs, p c = true → second.runs (c :: cs) = []) (cs : List Char) :
    (seq (star first) second).runs cs
      = (second.runs (cs.dropWhile p)).map (longest p cs).andThen := by
  rw [runs, runs, hfirst]
  exact followed_rounds_one hsecond cs

theorem runs_plus_seq (hfirst : first.runs = one p)
    (hsecond : ∀ c cs, p c = true → second.runs (c :: cs) = [])
    (c : Char) (cs : List Char) :
    (seq (plus first) second).runs (c :: cs)
      = if p c then (second.runs (cs.dropWhile p)).map (longest p (c :: cs)).andThen
        else [] := by
  rw [runs, runs, hfirst, followed_assoc, one]
  cases h : p c with
  | false => rfl
  | true =>
      rw [if_pos rfl, if_pos rfl, followed_singleton,
        followed_rounds_one hsecond cs, List.map_map, longest_cons h,
        Run.andThen_andThen]
      rfl

theorem runs_plus_seq_nil (hfirst : first.runs = one p) :
    (seq (plus first) second).runs [] = [] := by
  rw [runs, runs, hfirst]
  rfl

/-- A run in front that keeps no text makes no difference to what is read. -/
theorem reading?_map_andThen {front : Run} (h : front.captures = [])
    (runs : List Run) :
    (runs.map front.andThen).head?.bind Run.reading?
      = runs.head?.bind Run.reading? := by
  cases runs with
  | nil => rfl
  | cons run runs => exact Run.reading?_andThen h run

theorem read?_either_of_left {cs : List Char} (h : second.runs cs = []) :
    (either first second).read? cs = first.read? cs := by
  rw [read?, runs, h, List.append_nil, read?]

theorem read?_either_of_right {cs : List Char} (h : first.runs cs = []) :
    (either first second).read? cs = second.read? cs := by
  rw [read?, runs, h, List.nil_append, read?]

theorem read?_star_seq (hfirst : first.runs = one p)
    (hsecond : ∀ c cs, p c = true → second.runs (c :: cs) = []) (cs : List Char) :
    (seq (star first) second).read? cs = second.read? (cs.dropWhile p) := by
  rw [read?, runs_star_seq hfirst hsecond]
  exact reading?_map_andThen rfl _

theorem read?_plus_seq (hfirst : first.runs = one p)
    (hsecond : ∀ c cs, p c = true → second.runs (c :: cs) = [])
    (c : Char) (cs : List Char) :
    (seq (plus first) second).read? (c :: cs)
      = if p c then second.read? (cs.dropWhile p) else none := by
  rw [read?, runs_plus_seq hfirst hsecond]
  split
  · exact reading?_map_andThen rfl _
  · rfl

/-! ## Words in front -/

theorem runs_seq_word (word : List Char) (second : Regex) (cs : List Char) :
    (seq (.word word) second).runs cs
      = match afterHead? word cs with
        | some rest => (second.runs rest).map (Run.andThen ⟨word, [], rest⟩)
        | none => [] := by
  rw [runs, runs]
  cases afterHead? word cs with
  | none => rfl
  | some rest => exact followed_singleton _ _

/-- A word does not stand at the head of a text that starts in another way. -/
theorem runs_seq_word_of_ne {c d : Char} (h : c ≠ d) (word : List Char)
    (second : Regex) (cs : List Char) :
    (seq (.word (d :: word)) second).runs (c :: cs) = [] := by
  have hnone : afterHead? (d :: word) (c :: cs) = none := by
    refine Option.eq_none_iff_forall_ne_some.mpr fun rest hrest => ?_
    exact h (List.cons.inj (afterHead?_eq_some_iff.mp hrest)).1
  rw [runs_seq_word, hnone]

theorem read?_seq_word (word : List Char) (second : Regex) (cs : List Char) :
    (seq (.word word) second).read? cs = (afterHead? word cs).bind second.read? := by
  rw [read?, runs_seq_word]
  cases afterHead? word cs with
  | none => rfl
  | some rest => exact reading?_map_andThen rfl _

end Regex

/-! ## Runs up to a closing character -/

/-- The runs that end in front of the character. -/
def endingBefore (close : Char) (runs : List Run) : List Run :=
  runs.filter fun run => run.rest.head? == some close

theorem endingBefore_cons (close : Char) (run : Run) (runs : List Run) :
    endingBefore close (run :: runs)
      = if run.rest.head? = some close then run :: endingBefore close runs
        else endingBefore close runs := by
  rw [endingBefore, List.filter_cons]
  split <;> simp_all [endingBefore]

theorem endingBefore_nothing (close : Char) (cs : List Char) :
    endingBefore close [.nothing cs]
      = if cs.head? = some close then [.nothing cs] else [] :=
  endingBefore_cons close (.nothing cs) []

theorem endingBefore_map_andThen (close : Char) (first : Run) (runs : List Run) :
    endingBefore close (runs.map first.andThen)
      = (endingBefore close runs).map first.andThen :=
  List.filter_map

/-- Where a step fails, no rounds are taken. -/
theorem rounds_of_eq_nil {step : List Char → List Run} {cs : List Char}
    (h : step cs = []) : rounds step cs = [.nothing cs] := by
  rw [rounds, h]
  rfl

/-- Where the text does not close and a step goes one way only, what closes it
is found behind the step. -/
theorem endingBefore_rounds_of_eq {close : Char} {step : List Char → List Run}
    {cs : List Char} {run : Run} (hstep : step cs = [run])
    (hlength : run.rest.length < cs.length) (hclose : cs.head? ≠ some close) :
    endingBefore close (rounds step cs)
      = (endingBefore close (rounds step run.rest)).map run.andThen := by
  have hstop : endingBefore close [.nothing cs] = [] := by
    rw [endingBefore_nothing, if_neg hclose]
  rw [rounds, hstep, List.flatMap_singleton, if_pos hlength,
    ← endingBefore_map_andThen]
  refine (List.filter_append _ _).trans ?_
  rw [← endingBefore, ← endingBefore, hstop, List.append_nil]

/-- A kept text and a character that closes it. -/
theorem followed_captured_word (close : Char) (runs : List Run) :
    followed (runs.map Run.captured) (Regex.word [close]).runs
      = (endingBefore close runs).map fun run =>
        ⟨run.taken ++ [close], run.taken :: run.captures, run.rest.tail⟩ := by
  induction runs with
  | nil => rfl
  | cons run runs ih =>
      rw [List.map_cons, followed_cons, ih, endingBefore_cons, Run.rest_captured]
      cases hrest : run.rest with
      | nil => simp [Regex.runs, afterHead?]
      | cons c cs =>
          by_cases hc : c = close
          · subst hc
            simp [Regex.runs, hrest, afterHead?, Run.andThen, Run.captured]
          · simp [Regex.runs, afterHead?, hc, Ne.symm hc]

end ImportChart
