import ImportChart.Proofs.CharacterRuns
import ImportChart.Proofs.FailedRuns
import ImportChart.Proofs.LeadingOptions

/-!
# Flags and variables

Each setting of a chart can be given by a flag or by a variable of the
environment, and what is given by a flag wins. For a value that is valid both
ways are one: with the log off, a run with the variable leaves the same as one
with the flag in front of the arguments, whatever the variable says then
(`leavesSame_run_written`).

There is one place where the two can be told apart. The report of a fault in the
arguments names the options that were given, and a variable is no option
(`run_ne_run_written_patterned`).

There are two readers, one for the environment and one for the arguments, and it
is in the settings of a request that they meet. A setting is decided there by
its own variable and its own flag alone (`sameIn_of_ne`), and from a valid value
both readers make the same of it (`sameIn_self`). The rest of a run sees the
settings and not where they come from (`planChart_congr`).
-/

namespace ImportChart.Cli

open ImportChart.Text

/-- The settings that have a flag and a variable. -/
inductive Setting
  | pattern
  | ignore
  | ignorePrefix
  | direction
  deriving DecidableEq

namespace Setting

def option : Setting → ValueOption
  | pattern => .pattern
  | ignore => .ignore
  | ignorePrefix => .ignorePrefix
  | direction => .direction

def variableName : Setting → String
  | pattern => Settings.patternVariable
  | ignore => Settings.ignoreVariable
  | ignorePrefix => Settings.ignorePrefixVariable
  | direction => Settings.directionVariable

/-- The values of a setting that both ways of giving it take as they are: of the
patterns those that are not blank, of the directions those that are one, and all
lists and prefixes. -/
def Valid : Setting → String → Prop
  | pattern, value => ∃ c ∈ value.toList, isBlank c = false
  | direction, value => ∃ direction, Direction.ofText? value = some direction
  | ignore, _ | ignorePrefix, _ => True

/-- The setting is the same in both. -/
def SameIn : Setting → Settings → Settings → Prop
  | pattern, settings, settings' => settings.pattern = settings'.pattern
  | ignore, settings, settings' => settings.ignore = settings'.ignore
  | ignorePrefix, settings, settings' =>
      settings.ignorePrefix = settings'.ignorePrefix
  | direction, settings, settings' => settings.direction = settings'.direction

theorem Valid.accepts {setting : Setting} {value : String}
    (h : setting.Valid value) : setting.option.Accepts value := by
  cases setting with
  | direction => exact h
  | _ => trivial

theorem variableName_injective {setting other : Setting}
    (h : setting.variableName = other.variableName) : setting = other := by
  revert h
  cases setting <;> cases other <;> decide

theorem eq_of_forall_sameIn {settings settings' : Settings}
    (h : ∀ setting : Setting, setting.SameIn settings settings') :
    settings = settings' := by
  obtain ⟨_, _, _, _⟩ := settings
  obtain ⟨_, _, _, _⟩ := settings'
  cases h .pattern
  cases h .ignore
  cases h .ignorePrefix
  cases h .direction
  rfl

end Setting

/-! ## Settings of a request -/

theorem trim_isEmpty_eq_false {cs : List Char}
    (h : ∃ c ∈ cs, isBlank c = false) : (trim cs).isEmpty = false := by
  obtain ⟨c, hc, hblank⟩ := h
  have hkept := Source.filter_dropBothWhile (p := isBlank)
    (q := fun c => !isBlank c) (fun c hc => by rw [hc]; rfl) cs
  have hmem : c ∈ cs.filter fun c => !isBlank c :=
    List.mem_filter.mpr ⟨hc, by rw [hblank]; rfl⟩
  rw [← hkept] at hmem
  have hne := List.ne_nil_of_mem (List.mem_filter.mp hmem).1
  exact Bool.eq_false_iff.mpr fun hempty => hne (List.isEmpty_iff.mp hempty)

section

variable {setting : Setting} {value? value'? : String → Option String}
  (hothers : ∀ name, name ≠ setting.variableName → value'? name = value? name)
  (request : Request)

include hothers

/-- Whatever a setting's variable and flag say, the other settings stay as they
are. -/
theorem sameIn_of_ne (text? : Option String) {other : Setting}
    (hne : other ≠ setting) :
    other.SameIn (request.settings (.ofVariables value?))
      ((request.assign setting.option text?).settings
        (.ofVariables value'?)) := by
  have hvariable : value'? other.variableName = value? other.variableName :=
    hothers _ fun h => hne (Setting.variableName_injective h)
  -- of what decides the one setting nothing belongs to the other
  cases other <;>
    simp only [Setting.SameIn, Setting.variableName, Request.settings,
      Settings.ofVariables] at hvariable ⊢ <;>
    rw [hvariable] <;>
    cases setting <;>
    first | rfl | exact absurd rfl hne

omit hothers in
/-- A valid value of a setting is read alike from its variable, if there is no
flag, and from its flag, whatever the variable says. -/
theorem sameIn_self {value : String} (hvalid : setting.Valid value)
    (hvariable : value? setting.variableName = some value)
    (hnone : request.assign setting.option none = request) :
    setting.SameIn (request.settings (.ofVariables value?))
      ((request.assign setting.option (some value)).settings
        (.ofVariables value'?)) := by
  cases setting with
  | pattern =>
      have hpattern : none = request.pattern :=
        congrArg Request.pattern hnone
      have hkept : (some value).filter
          (fun text => !(trim text.toList).isEmpty) = some value := by
        simp only [Option.filter, trim_isEmpty_eq_false hvalid]
        rfl
      simp only [Setting.variableName] at hvariable
      simp [Setting.SameIn, Request.settings, Settings.ofVariables, ← hpattern,
        hvariable, hkept, Setting.option, Request.assign]
  | ignore =>
      have hignore : none = request.ignore := congrArg Request.ignore hnone
      simp only [Setting.variableName] at hvariable
      simp [Setting.SameIn, Request.settings, Settings.ofVariables, ← hignore,
        hvariable, Setting.option, Request.assign]
  | ignorePrefix =>
      have hprefix : none = request.ignorePrefix :=
        congrArg Request.ignorePrefix hnone
      simp only [Setting.variableName] at hvariable
      simp [Setting.SameIn, Request.settings, Settings.ofVariables, ← hprefix,
        hvariable, Setting.option, Request.assign]
  | direction =>
      have hdirection : none = request.direction :=
        congrArg Request.direction hnone
      obtain ⟨direction, hread⟩ := hvalid
      simp only [Setting.variableName] at hvariable
      simp [Setting.SameIn, Request.settings, Settings.ofVariables,
        ← hdirection, hvariable, hread, Setting.option, Request.assign]

theorem settings_assign {value : String} (hvalid : setting.Valid value)
    (hvariable : value? setting.variableName = some value)
    (hnone : request.assign setting.option none = request) :
    (request.assign setting.option (some value)).settings (.ofVariables value'?)
      = request.settings (.ofVariables value?) := by
  refine (Setting.eq_of_forall_sameIn fun other => ?_).symm
  by_cases hne : other = setting
  · subst hne
    exact sameIn_self request hvalid hvariable hnone
  · exact sameIn_of_ne hothers request (some value) hne

end

/-! ## Runs -/

/-- A plan sees nothing of the environment and of the arguments but the settings
that they make together, and what no setting is about. -/
theorem planChart_congr {tree : FileTree} {environment environment' : Settings}
    {request request' : Request}
    (hsettings : request.settings environment = request'.settings environment')
    (hfolder : request.folder = request'.folder)
    (hjson : request.json = request'.json)
    (houtput : request.output = request'.output) :
    planChart tree environment request
      = planChart tree environment' request' := by
  simp only [planChart, chartText, fileText, hsettings, hfolder, hjson, houtput]

theorem folder_assign (option : ValueOption) (value : Option String)
    (request : Request) :
    (request.assign option value).folder = request.folder := by
  cases option <;> rfl

theorem json_assign (option : ValueOption) (value : Option String)
    (request : Request) :
    (request.assign option value).json = request.json := by
  cases option <;> rfl

theorem output_assign {option : ValueOption} (h : option ≠ .output)
    (value : Option String) (request : Request) :
    (request.assign option value).output = request.output := by
  cases option with
  | output => exact absurd rfl h
  | _ => rfl

theorem Setting.option_ne_output (setting : Setting) : setting.option ≠ .output := by
  cases setting <;> decide

/-- `LeavesSame ran ran'`: two runs leave the same, but for what is said of
arguments that are not understood. -/
structure LeavesSame (ran ran' : Outcome × FileTree) : Prop where
  exitCode : ran'.1.exitCode = ran.1.exitCode
  stdout : ran'.1.stdout = ran.1.stdout
  stderr : ran.1.exitCode ≠ 2 → ran'.1.stderr = ran.1.stderr
  tree : ran'.2 = ran.2

theorem LeavesSame.of_eq {ran ran' : Outcome × FileTree} (h : ran' = ran) :
    LeavesSame ran ran' where
  exitCode := by rw [h]
  stdout := by rw [h]
  stderr _ := by rw [h]
  tree := by rw [h]

theorem log_silent (read : List String → Reading) :
    ∀ events : List Event, (Host.silent read).log events = ""
  | [] => rfl
  | event :: events => by
      rw [Host.log_cons, log_silent read events]
      rfl

/-- With the log off a run is the outcome of its plan. -/
theorem run_silent_of_request {read : List String → Reading}
    {tree : FileTree} {value? : String → Option String}
    {arguments : List String} {request : Request}
    (h : read arguments = .request request) :
    (Host.silent read).run tree value? arguments
      = (planChart tree (.ofVariables value?) request).outcome
        (Host.silent read) tree [] := by
  have hloads : Loads (Host.silent read) tree value? arguments request _ :=
    ⟨h, rfl⟩
  rw [run_of_loads hloads]
  cases planChart tree (.ofVariables value?) request <;>
    simp only [Plan.outcome, log_silent]

/-- For a valid value it makes no difference to a run whether it stands in the
setting's variable or in its flag in front of the arguments; and whatever the
two say, every other setting stays as it is. -/
theorem leavesSame_run_written {read : List String → Reading}
    (hread : TakesOptions read) {setting : Setting}
    {value? value'? : String → Option String}
    (hothers : ∀ name, name ≠ setting.variableName →
      value'? name = value? name) :
    (∀ (tree : FileTree) (value : String) (arguments : List String),
        setting.Valid value →
        value? setting.variableName = some value →
        setting.option ∉ givenOptions arguments →
        LeavesSame ((Host.silent read).run tree value? arguments)
          ((Host.silent read).run tree value'?
            (setting.option.written value :: arguments)))
      ∧ ∀ (request : Request) (text? : Option String) (other : Setting),
        other ≠ setting →
        other.SameIn (request.settings (.ofVariables value?))
          ((request.assign setting.option text?).settings
            (.ofVariables value'?)) := by
  refine ⟨?_, fun request text? other => sameIn_of_ne hothers request text?⟩
  intro tree value arguments hvalid hvariable hgiven
  have haccepts := hvalid.accepts
  cases hcommand : read arguments with
  | refusal complaint =>
      obtain ⟨complaint', hrefused⟩ := hread.refusal haccepts hgiven hcommand
      have hfails : Fails (.silent read) tree value? arguments 2 complaint :=
        .usage hcommand
      have hfails' : Fails (.silent read) tree value'? _ 2 complaint' :=
        .usage hrefused
      rw [run_of_fails hfails, run_of_fails hfails']
      exact ⟨rfl, rfl, fun hcode => absurd rfl hcode, rfl⟩
  | answer text =>
      have hanswered := hread.answer haccepts hgiven hcommand
      have hsucceeds : Succeeds (.silent read) tree value? arguments text "" tree :=
        .answering hcommand
      have hsucceeds' : Succeeds (.silent read) tree value'? _ text "" tree :=
        .answering hanswered
      rw [run_of_succeeds hsucceeds, run_of_succeeds hsucceeds']
      exact .of_eq rfl
  | request request =>
      have hrequest := hread.request haccepts hgiven hcommand
      have hnone := hread.notGiven hgiven hcommand
      have hplan : planChart tree (.ofVariables value'?)
            (request.assign setting.option (some value))
          = planChart tree (.ofVariables value?) request :=
        planChart_congr (settings_assign hothers request hvalid hvariable hnone)
          (folder_assign _ _ _) (json_assign _ _ _)
          (output_assign setting.option_ne_output _ _)
      rw [run_silent_of_request hcommand, run_silent_of_request hrequest, hplan]
      exact .of_eq rfl

/-- A module with two packages, one of which imports the other. -/
def pairTree : FileTree where
  top := .folder [
    ("m", .folder [
      ("go.mod", .file "module x/m".toUTF8),
      ("a", .folder [("a.go", .file "package a\nimport \"x/m/b\"".toUTF8)]),
      ("b", .folder [("b.go", .file "package b".toUTF8)])])]
  working := []

/-- An environment that says what to ignore, and this of the direction. -/
def directed (text : String) (name : String) : Option String :=
  if name = Settings.directionVariable then some text
  else if name = Settings.ignoreVariable then some "mocks"
  else none

/-- A direction with blanks around it, and behind its flag one that is none. -/
theorem leavesSame_run_written_pairTree :
    TakesOptions readArguments
      ∧ (∀ name, name ≠ Setting.direction.variableName →
        directed "up" name = directed " lr" name)
      ∧ Setting.direction.Valid " lr"
      ∧ directed " lr" Setting.direction.variableName = some " lr"
      ∧ Setting.direction.option ∉ givenOptions ["--ignore-prefix", "x/", "m"]
      ∧ LeavesSame (run pairTree (directed " lr") ["--ignore-prefix", "x/", "m"])
        (run pairTree (directed "up")
          ["--direction= lr", "--ignore-prefix", "x/", "m"])
      ∧ (run pairTree (directed " lr") ["--ignore-prefix", "x/", "m"]).1
        = ⟨0, "flowchart LR\n\tA --> B\n\tA[m/b]\n\tB[m/a]\n", ""⟩
      ∧ Setting.ignore ≠ .direction
      ∧ Setting.ignore.SameIn (.ofVariables (directed " lr"))
        (.ofVariables (directed "up")) := by
  have hothers : ∀ name, name ≠ Setting.direction.variableName →
      directed "up" name = directed " lr" name := by
    intro name hname
    have hname' : name ≠ Settings.directionVariable := hname
    simp only [directed, if_neg hname']
  have hvalid : Setting.direction.Valid " lr" := ⟨.leftRight, by decide⟩
  have hgiven : Setting.direction.option
      ∉ givenOptions ["--ignore-prefix", "x/", "m"] := by decide
  obtain ⟨hrun, hsame⟩ :=
    leavesSame_run_written takesOptions_readArguments hothers
  refine ⟨takesOptions_readArguments, hothers, hvalid, rfl, hgiven,
    hrun pairTree " lr" _ hvalid rfl hgiven, by decide +kernel, by decide, ?_⟩
  exact hsame ⟨"m", none, none, none, none, false, none⟩ none .ignore
    (by decide)

/-- An environment that says nothing but this of the pattern. -/
def patterned (text name : String) : Option String :=
  if name = Settings.patternVariable then some text else none

/-- What is said of arguments without a folder. -/
def folderMissing (shape : String) : String :=
  "error: the following required arguments were not provided:\n  <DIR>\n\n"
    ++ "Usage: modgraph " ++ shape ++ "\n\nFor more information, try '--help'.\n"

/-- Without a folder both runs are refused. The report names the option, which
it cannot do for the variable. -/
theorem run_ne_run_written_patterned :
    TakesOptions readArguments
      ∧ (∀ name, name ≠ Setting.pattern.variableName →
        none = patterned "./a" name)
      ∧ Setting.pattern.Valid "./a"
      ∧ patterned "./a" Setting.pattern.variableName = some "./a"
      ∧ Setting.pattern.option ∉ givenOptions []
      ∧ (run (.bare []) (patterned "./a") []).1
        = ⟨2, "", folderMissing "<DIR>"⟩
      ∧ (run (.bare []) (fun _ => none) ["--pattern=./a"]).1
        = ⟨2, "", folderMissing "--pattern <PATTERN> <DIR>"⟩
      ∧ (run (.bare []) (patterned "./a") []).1.stderr
        ≠ (run (.bare []) (fun _ => none)
          [Setting.pattern.option.written "./a"]).1.stderr := by
  have hothers : ∀ name, name ≠ Setting.pattern.variableName →
      none = patterned "./a" name := by
    intro name hname
    have hname' : name ≠ Settings.patternVariable := hname
    rw [patterned, if_neg hname']
  have hvariable : (run (.bare []) (patterned "./a") []).1
      = ⟨2, "", folderMissing "<DIR>"⟩ := by decide +kernel
  have hflag : (run (.bare []) (fun _ => none) ["--pattern=./a"]).1
      = ⟨2, "", folderMissing "--pattern <PATTERN> <DIR>"⟩ := by decide +kernel
  have hwritten : Setting.pattern.option.written "./a" = "--pattern=./a" := by
    decide
  refine ⟨takesOptions_readArguments, hothers, ⟨'.', by decide, by decide⟩, rfl,
    by decide, hvariable, hflag, ?_⟩
  rw [hwritten, hvariable, hflag]
  decide +kernel

end ImportChart.Cli
