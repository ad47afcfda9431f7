import ImportChart.Cli.Text

/-!
# Options in front of the arguments

An option that is put in front of arguments in which it is not given makes a
difference in one place only: in the request that they make, the option's field
is set. Arguments that make no request make none with the option either. A
reader for which this holds takes options (`TakesOptions`), and that is all that
is asked of a reader anywhere.

The program's own reader takes them (`takesOptions_readArguments`). The
arguments behind the option are read as before, and each fault among them is the
same fault (`ofArguments_written`); only the report of a fault names the options
that are given.

The reason is that the steps of reading see no other field than their own. So it
makes no difference whether a field is set before the arguments are read or
afterwards (`commandFrom_assign`). For a field that is set to nothing this says
that an option which is not given leaves its field empty (`assign_none_eq`).
-/

namespace ImportChart.Cli

/-! ## Options among the arguments -/

/-- The argument that gives an option a value. -/
def ValueOption.written (option : ValueOption) (value : String) : String :=
  option.name ++ "=" ++ value

/-- The texts that can be given as the value of an option. -/
def ValueOption.Accepts : ValueOption → String → Prop
  | .direction, value => ∃ direction, Direction.ofText? value = some direction
  | .output, value => value ≠ ""
  | .pattern, _ | .ignore, _ | .ignorePrefix, _ => True

theorem ofText_written (option : ValueOption) (value : String) :
    Argument.ofText (option.written value) = .option option (some value) := by
  cases option <;>
    simp [Argument.ofText, ValueOption.written, ValueOption.name, longArgument]

theorem ne_dashes_of_ofText {text : String}
    (h : Argument.ofText text ≠ .separator) : text ≠ "--" := by
  rintro rfl
  exact h (by decide)

/-- The options from one more argument on, if it does not end them. -/
theorem givenOptions_cons {text : String} (h : text ≠ "--")
    (arguments : List String) :
    givenOptions (text :: arguments)
      = (Argument.ofText text).option?.toList ++ givenOptions arguments := by
  have htext : (text != "--") = true := by simp [h]
  rw [givenOptions, List.takeWhile_cons, if_pos htext, List.filterMap_cons]
  cases (Argument.ofText text).option? with
  | none => rfl
  | some given => rfl

theorem not_mem_givenOptions_of_cons {option : ValueOption} {text : String}
    {arguments : List String} (h : text ≠ "--")
    (hgiven : option ∉ givenOptions (text :: arguments)) :
    (Argument.ofText text).option? ≠ some option
      ∧ option ∉ givenOptions arguments := by
  rw [givenOptions_cons h, List.mem_append, not_or, Option.mem_toList] at hgiven
  exact hgiven

/-! ## Setting one field -/

/-- The draft with the value of an option set, or with none. -/
def Draft.assign (option : ValueOption) (value : Option String)
    (draft : Draft) : Draft :=
  match option with
  | .pattern => { draft with pattern := value }
  | .ignore => { draft with ignore := value }
  | .ignorePrefix => { draft with ignorePrefix := value }
  | .direction => { draft with direction := value.bind Direction.ofText? }
  | .output => { draft with output := value }

/-- The request with the value of an option set, or with none. -/
def Request.assign (option : ValueOption) (value : Option String)
    (request : Request) : Request :=
  match option with
  | .pattern => { request with pattern := value }
  | .ignore => { request with ignore := value }
  | .ignorePrefix => { request with ignorePrefix := value }
  | .direction => { request with direction := value.bind Direction.ofText? }
  | .output => { request with output := value }

/-! ## Readers -/

/-- `TakesOptions read`: an option in front of arguments in which it is not given
sets its field of what they ask for, and nothing else but the words of a
refusal. -/
structure TakesOptions (read : List String → Reading) : Prop where
  /-- An option that is not given has no value. -/
  notGiven : ∀ {option : ValueOption} {arguments : List String}
    {request : Request}, option ∉ givenOptions arguments →
    read arguments = .request request → request.assign option none = request
  request : ∀ {option : ValueOption} {value : String} {arguments : List String}
    {request : Request}, option.Accepts value →
    option ∉ givenOptions arguments → read arguments = .request request →
    read (option.written value :: arguments)
      = .request (request.assign option (some value))
  answer : ∀ {option : ValueOption} {value : String} {arguments : List String}
    {text : String}, option.Accepts value → option ∉ givenOptions arguments →
    read arguments = .answer text →
    read (option.written value :: arguments) = .answer text
  refusal : ∀ {option : ValueOption} {value : String} {arguments : List String}
    {complaint : String}, option.Accepts value →
    option ∉ givenOptions arguments → read arguments = .refusal complaint →
    ∃ complaint', read (option.written value :: arguments) = .refusal complaint'

/-- The command with the value of an option set, if it asks for a chart. -/
def Command.assign (option : ValueOption) (value : Option String) :
    Command → Command
  | .chart request => .chart (request.assign option value)
  | .help => .help
  | .version => .version

section

variable {option : ValueOption} {value : Option String} (draft : Draft)

theorem setJson_assign :
    (draft.assign option value).setJson
      = draft.setJson.map (Draft.assign option value) := by
  obtain ⟨_, _, _, _, _, json, _⟩ := draft
  cases json <;> cases option <;> rfl

theorem setFolder_assign (name : String) :
    (draft.assign option value).setFolder name
      = (draft.setFolder name).map (Draft.assign option value) := by
  obtain ⟨folder, _, _, _, _, _, _⟩ := draft
  cases folder with
  | some _ => cases option <;> rfl
  | none =>
      by_cases hname : (name == "") = true
      · cases option <;>
          simp only [Draft.setFolder, Draft.assign, hname] <;> rfl
      · cases option <;>
          simp only [Draft.setFolder, Draft.assign, hname] <;> rfl

theorem request_assign :
    (draft.assign option value).request
      = draft.request.map (Request.assign option value) := by
  obtain ⟨folder, _, _, _, _, _, _⟩ := draft
  cases folder <;> cases option <;> rfl

/-- Giving one option and setting another may change places. -/
theorem setOption_assign {given : ValueOption} (hne : given ≠ option)
    (text : String) :
    (draft.assign option value).setOption given text
      = (draft.setOption given text).map (Draft.assign option value) := by
  obtain ⟨_, pattern, ignore, ignorePrefix, direction, _, output⟩ := draft
  cases given with
  | pattern =>
      cases option with
      | pattern => exact absurd rfl hne
      | _ => cases pattern <;> rfl
  | ignore =>
      cases option with
      | ignore => exact absurd rfl hne
      | _ => cases ignore <;> rfl
  | ignorePrefix =>
      cases option with
      | ignorePrefix => exact absurd rfl hne
      | _ => cases ignorePrefix <;> rfl
  | direction =>
      cases option with
      | direction => exact absurd rfl hne
      | _ =>
          simp only [Draft.setOption]
          cases Direction.ofText? text <;> cases direction <;> rfl
  | output =>
      cases option with
      | output => exact absurd rfl hne
      | _ =>
          simp only [Draft.setOption]
          cases text == "" <;> cases output <;> rfl

/-! ## Reading on -/

theorem bind_map_of_forall {ε α β : Type} {x : Except ε α} {f : α → α}
    {next : α → Except ε β} {g : β → β}
    (h : ∀ a, next (f a) = (next a).map g) :
    (x.map f >>= next) = (x >>= next).map g := by
  cases x with
  | error e => rfl
  | ok a => exact h a

theorem foldlM_setFolder_assign : ∀ (texts : List String) (draft : Draft),
    texts.foldlM Draft.setFolder (draft.assign option value)
      = (texts.foldlM Draft.setFolder draft).map (Draft.assign option value)
  | [], _ => rfl
  | text :: texts, draft => by
      rw [List.foldlM_cons, List.foldlM_cons, setFolder_assign]
      exact bind_map_of_forall (foldlM_setFolder_assign texts)

theorem map_chart_request_assign :
    (draft.assign option value).request.map Command.chart
      = (draft.request.map Command.chart).map
        (Command.assign option value) := by
  rw [request_assign]
  cases draft.request <;> rfl

/-- Setting a field before the arguments are read or in what they ask for is the
same, unless they give the option of the field. -/
theorem commandFrom_assign (arguments : List String) (draft : Draft)
    (hgiven : option ∉ givenOptions arguments) :
    commandFrom (draft.assign option value) arguments
      = (commandFrom draft arguments).map (Command.assign option value) := by
  cases arguments with
  | nil =>
      rw [commandFrom, commandFrom]
      exact map_chart_request_assign draft
  | cons text texts =>
      have hbehind (htext : Argument.ofText text ≠ .separator) :=
        not_mem_givenOptions_of_cons (ne_dashes_of_ofText htext) hgiven
      rw [commandFrom, commandFrom]
      cases htext : Argument.ofText text with
      | separator =>
          simp only [foldlM_setFolder_assign]
          exact bind_map_of_forall map_chart_request_assign
      | help => rfl
      | version => rfl
      | refused error => rfl
      | plain folder =>
          have hrest := hbehind (by simp [htext])
          simp only [setFolder_assign]
          exact bind_map_of_forall fun draft =>
            commandFrom_assign texts draft hrest.2
      | json =>
          have hrest := hbehind (by simp [htext])
          simp only [setJson_assign]
          exact bind_map_of_forall fun draft =>
            commandFrom_assign texts draft hrest.2
      | option given value? =>
          have hrest := hbehind (by simp [htext])
          have hne : given ≠ option := by
            rintro rfl
            exact hrest.1 (by rw [htext]; rfl)
          cases value? with
          | some written =>
              simp only [setOption_assign _ hne]
              exact bind_map_of_forall fun draft =>
                commandFrom_assign texts draft hrest.2
          | none =>
              cases texts with
              | nil => rfl
              | cons next texts =>
                  -- a value of its own never looks like `--`, so the options
                  -- behind it are among those that are given
                  by_cases hnext : looksLikeOption next = true
                  · simp only [hnext, if_true]
                    rfl
                  · have hlater := not_mem_givenOptions_of_cons
                      (by rintro rfl; exact hnext (by decide)) hrest.2
                    simp only [hnext, setOption_assign _ hne]
                    exact bind_map_of_forall fun draft =>
                      commandFrom_assign texts draft hlater.2
termination_by arguments.length

end

/-! ## An option in front -/

theorem setOption_empty {option : ValueOption} {value : String}
    (haccepts : option.Accepts value) :
    Draft.empty.setOption option value
      = .ok (Draft.empty.assign option (some value)) := by
  cases option with
  | pattern => rfl
  | ignore => rfl
  | ignorePrefix => rfl
  | direction =>
      obtain ⟨direction, hdirection⟩ := haccepts
      simp only [Draft.setOption, Draft.assign, hdirection, Option.bind_some]
      rfl
  | output =>
      have hvalue : (value == "") = false := beq_eq_false_iff_ne.mpr haccepts
      simp only [Draft.setOption, Draft.assign, hvalue]
      rfl

/-- An option in front of arguments that do not give it sets its field in what
they ask for, and changes nothing else. -/
theorem ofArguments_written {option : ValueOption} {value : String}
    {arguments : List String} (haccepts : option.Accepts value)
    (hgiven : option ∉ givenOptions arguments) :
    Command.ofArguments (option.written value :: arguments)
      = (Command.ofArguments arguments).map
        (Command.assign option (some value)) := by
  rw [Command.ofArguments, commandFrom, ofText_written]
  simp only [setOption_empty haccepts]
  exact commandFrom_assign arguments .empty hgiven

/-- An option that is not given has no value. -/
theorem assign_none_eq {option : ValueOption} {arguments : List String}
    {request : Request}
    (h : Command.ofArguments arguments = .ok (.chart request))
    (hgiven : option ∉ givenOptions arguments) :
    request.assign option none = request := by
  have hempty : Draft.empty.assign option none = Draft.empty := by
    cases option <;> rfl
  have hcommand := @commandFrom_assign option none arguments .empty hgiven
  rw [hempty, ← Command.ofArguments, h] at hcommand
  exact (Command.chart.inj (Except.ok.inj hcommand)).symm

/-! ## The program's own reader -/

theorem readArguments_eq_request_iff {arguments : List String}
    {request : Request} :
    readArguments arguments = .request request
      ↔ Command.ofArguments arguments = .ok (.chart request) := by
  unfold readArguments
  split <;> simp [*]

theorem takesOptions_readArguments : TakesOptions readArguments where
  notGiven hgiven hread :=
    assign_none_eq (readArguments_eq_request_iff.mp hread) hgiven
  request haccepts hgiven hread := by
    rw [readArguments_eq_request_iff] at hread ⊢
    rw [ofArguments_written haccepts hgiven, hread]
    rfl
  answer haccepts hgiven hread := by
    rw [readArguments, ofArguments_written haccepts hgiven]
    cases hcommand : Command.ofArguments _ with
    | error error =>
        rw [readArguments, hcommand] at hread
        cases hread
    | ok command =>
        rw [readArguments, hcommand] at hread
        cases command with
        | chart request => cases hread
        | help => exact hread
        | version => exact hread
  refusal haccepts hgiven hread := by
    rw [readArguments, ofArguments_written haccepts hgiven]
    cases hcommand : Command.ofArguments _ with
    | error error => exact ⟨_, rfl⟩
    | ok command =>
        rw [readArguments, hcommand] at hread
        cases command <;> cases hread

end ImportChart.Cli
