import ImportChart.Cli.Run

/-!
# Runs that fail

A run fails in three ways: the arguments make no request, the module cannot be
loaded, or the output file cannot be opened (`Fails`). It succeeds in three: a
text is given that the arguments ask for, as help is, and the chart is printed
or saved (`Succeeds`). Every run goes one of these ways (`fails_or_succeeds`),
and the way settles all that the run leaves behind (`run_of_fails`,
`run_of_succeeds`). A way that fails leaves nothing but the log and the
complaint, so there is never a chart in part, neither printed nor in a file
(`nothing_done_of_exitCode_ne_zero`).

Nothing is asked of the reader of arguments or of the log here.
-/

namespace ImportChart

/-! ## Files that cannot be opened -/

/-- The path leads to no place for a file, and why. -/
def FileTree.Unwritable (tree : FileTree) (path : String) (cause : PathError) :
    Prop :=
  tree.place .writing path = .error cause
    ∨ cause = .isFolder
      ∧ ∃ location, tree.place .writing path = .ok (.folder location)

/-- Whether a write fails is settled before anything is written: it does not
hang on the content. -/
theorem FileTree.write_eq_error_iff {tree : FileTree} {path : String}
    {content : ByteArray} {cause : PathError} :
    tree.write path content = .error cause ↔ tree.Unwritable path cause := by
  rw [write, Unwritable]
  cases hplace : tree.place .writing path with
  | error found => simp
  | ok place => cases place <;> simp [eq_comm]

namespace Cli

open ImportChart.Module

section

variable (host : Host) (tree : FileTree) (value? : String → Option String)
  (arguments : List String)

/-! ## The ways of a run -/

/-- The arguments ask for a chart, and loading the module ends in `result`. -/
def Loads (request : Request) (result : Except LoadError Loaded) : Prop :=
  host.read arguments = .request request
    ∧ load tree request.folder (request.settings (.ofVariables value?)).pattern
      = result

/-- What the log shows of the way to a chart. -/
def logged (request : Request) : String :=
  host.log (chartEvents tree value? request)

/-- `Fails host tree value? arguments code stderr`: something is wrong, and the
program ends with this exit code, the log and a complaint. -/
inductive Fails : Nat → String → Prop
  | usage {complaint : String} : host.read arguments = .refusal complaint →
      Fails 2 complaint
  | loading {request : Request} {error : LoadError} :
      Loads host tree value? arguments request (.error error) →
      Fails 1 (logged host tree value? request
        ++ report ("failed to load Go module in " ++ request.folder) error.chain)
  | writing {request : Request} {loaded : Loaded} {file : String}
      {cause : PathError} :
      Loads host tree value? arguments request (.ok loaded) →
      request.output = some file → tree.Unwritable file cause →
      Fails 1 (logged host tree value? request ++ writeReport file cause.message)

/-- `Succeeds host tree value? arguments stdout stderr after`: nothing is wrong,
and this is printed, logged and left of the tree. -/
inductive Succeeds : String → String → FileTree → Prop
  | answering {text : String} : host.read arguments = .answer text →
      Succeeds text "" tree
  | printing {request : Request} {loaded : Loaded} :
      Loads host tree value? arguments request (.ok loaded) →
      request.output = none →
      Succeeds
        (chartText request (request.settings (.ofVariables value?)) loaded)
        (logged host tree value? request) tree
  | saving {request : Request} {loaded : Loaded} {file text : String}
      {written : FileTree} :
      Loads host tree value? arguments request (.ok loaded) →
      request.output = some file →
      text = chartText request (request.settings (.ofVariables value?)) loaded →
      tree.write file (fileText request file text).toUTF8 = .ok written →
      Succeeds "" (logged host tree value? request ++ host.logLine (savedEvent file))
        written

end

variable {host : Host} {tree : FileTree} {value? : String → Option String}
  {arguments : List String}

theorem Fails.code_ne_zero {code : Nat} {stderr : String}
    (h : Fails host tree value? arguments code stderr) : code ≠ 0 := by
  cases h <;> decide

/-! ## What a run leaves behind -/

theorem Host.log_append_singleton (host : Host) (events : List Event)
    (event : Event) :
    host.log (events ++ [event]) = host.log events ++ host.logLine event := by
  induction events with
  | nil => simp
  | cons first events ih =>
      rw [List.cons_append, log_cons, ih, log_cons, String.append_assoc]

/-- A run that loads a module carries out the plan of its request. -/
theorem run_of_loads {request : Request} {result : Except LoadError Loaded}
    (h : Loads host tree value? arguments request result) :
    host.run tree value? arguments
      = (planChart tree (.ofVariables value?) request).outcome host tree
        (chartEvents tree value? request) := by
  rw [Host.run, Host.plan, Host.events, h.1]

/-- Of a failure there are the log, the complaint and the exit code, and nothing
else. -/
theorem run_of_fails {code : Nat} {stderr : String}
    (h : Fails host tree value? arguments code stderr) :
    host.run tree value? arguments = (⟨code, "", stderr⟩, tree) := by
  cases h with
  | usage hread =>
      rw [Host.run, Host.plan, Host.events, hread, Plan.outcome, Host.log_nil,
        String.empty_append]
  | loading hloads =>
      rw [run_of_loads hloads]
      simp only [planChart, hloads.2, Plan.outcome, logged]
  | writing hloads houtput hfile =>
      have hwrite : ∀ content, tree.write _ content = .error _ :=
        fun _ => FileTree.write_eq_error_iff.mpr hfile
      rw [run_of_loads hloads]
      simp only [planChart, hloads.2, houtput, Plan.outcome, hwrite, logged]

theorem run_of_succeeds {stdout stderr : String} {after : FileTree}
    (h : Succeeds host tree value? arguments stdout stderr after) :
    host.run tree value? arguments = (⟨0, stdout, stderr⟩, after) := by
  cases h with
  | answering hread =>
      rw [Host.run, Host.plan, Host.events, hread, Plan.outcome, Host.log_nil]
  | printing hloads houtput =>
      rw [run_of_loads hloads]
      simp only [planChart, hloads.2, houtput, Plan.outcome, logged]
  | saving hloads houtput htext hwrite =>
      subst htext
      rw [run_of_loads hloads]
      simp only [planChart, hloads.2, houtput, Plan.outcome, hwrite,
        Host.log_append_singleton, logged]

/-- There is no run that goes none of the ways. -/
theorem fails_or_succeeds (host : Host) (tree : FileTree)
    (value? : String → Option String) (arguments : List String) :
    (∃ code stderr, Fails host tree value? arguments code stderr)
      ∨ ∃ stdout stderr after,
        Succeeds host tree value? arguments stdout stderr after := by
  cases hread : host.read arguments with
  | refusal complaint => exact Or.inl ⟨_, _, .usage hread⟩
  | answer text => exact Or.inr ⟨_, _, _, .answering hread⟩
  | request request =>
      cases hload : load tree request.folder
          (request.settings (.ofVariables value?)).pattern with
      | error error => exact Or.inl ⟨_, _, .loading ⟨hread, hload⟩⟩
      | ok loaded =>
          have hloads : Loads host tree value? arguments request (.ok loaded) :=
            ⟨hread, hload⟩
          cases houtput : request.output with
          | none => exact Or.inr ⟨_, _, _, .printing hloads houtput⟩
          | some file =>
              cases hwrite : tree.write file (fileText request file
                  (chartText request
                    (request.settings (.ofVariables value?)) loaded)).toUTF8 with
              | error cause =>
                  have hfile := FileTree.write_eq_error_iff.mp hwrite
                  exact Or.inl ⟨_, _, .writing hloads houtput hfile⟩
              | ok written =>
                  exact Or.inr ⟨_, _, _, .saving hloads houtput rfl hwrite⟩

/-- A run that ends with another exit code than 0 prints no chart and leaves the
tree as it was, and it is one in which the arguments, the module or the output
file are at fault. -/
theorem nothing_done_of_exitCode_ne_zero (host : Host) (tree : FileTree)
    (value? : String → Option String) (arguments : List String) :
    ((host.run tree value? arguments).1.exitCode ≠ 0 →
        (host.run tree value? arguments).1.stdout = ""
          ∧ (host.run tree value? arguments).2 = tree)
      ∧ ((host.run tree value? arguments).1.exitCode ≠ 0
        ↔ ∃ code stderr, Fails host tree value? arguments code stderr) := by
  rcases fails_or_succeeds host tree value? arguments with
    ⟨code, stderr, hfails⟩ | ⟨stdout, stderr, after, hsucceeds⟩
  · rw [run_of_fails hfails]
    exact ⟨fun _ => ⟨rfl, rfl⟩,
      fun _ => ⟨code, stderr, hfails⟩, fun _ => hfails.code_ne_zero⟩
  · have hrun := run_of_succeeds hsucceeds
    rw [hrun]
    refine ⟨fun h => absurd rfl h, fun h => absurd rfl h, ?_⟩
    rintro ⟨code, stderr', hfails⟩
    have hcode := hfails.code_ne_zero
    rw [run_of_fails hfails] at hrun
    cases hrun
    exact hcode

/-- A module with two packages in one folder, and a file in it that could be
written to. -/
def mixedTree : FileTree where
  top := .folder [
    ("m", .folder [
      ("go.mod", .file "module x/m".toUTF8),
      ("a.go", .file "package a".toUTF8),
      ("b.go", .file "package b".toUTF8),
      ("out.md", .file "as it was".toUTF8)])]
  working := []

theorem nothing_done_of_exitCode_ne_zero_mixedTree :
    (run mixedTree (fun _ => none) ["-o", "m/out.md", "m"]).1.exitCode ≠ 0
      ∧ (run mixedTree (fun _ => none) ["-o", "m/out.md", "m"]).1.stdout = ""
      ∧ (run mixedTree (fun _ => none) ["-o", "m/out.md", "m"]).2 = mixedTree := by
  have hcode : (run mixedTree (fun _ => none)
      ["-o", "m/out.md", "m"]).1.exitCode ≠ 0 := by decide +kernel
  exact ⟨hcode, (nothing_done_of_exitCode_ne_zero (.silent readArguments) mixedTree
    (fun _ => none) ["-o", "m/out.md", "m"]).1 hcode⟩

end Cli

end ImportChart
