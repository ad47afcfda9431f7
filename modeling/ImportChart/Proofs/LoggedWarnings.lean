import ImportChart.Cli.Run

/-!
# Warnings in the log

Of what is told on the way to a chart, two things are warnings: a direction in
the environment that is none, and a pattern that selects no package
(`warningsOf_chartEvents`). So a log that shows warnings only shows what the
settings and the loaded module warn of, in this order (`log_chartEvents`).

Everything else is told for those who ask for it. A search, a file, a folder and
a graph never warn, whatever they come upon.
-/

namespace ImportChart

/-- The warnings among events. -/
def warningsOf (events : List Event) : List Event :=
  events.filter Event.isWarning

@[simp] theorem warningsOf_append (events more : List Event) :
    warningsOf (events ++ more) = warningsOf events ++ warningsOf more :=
  List.filter_append events more

theorem warningsOf_eq_self {events : List Event}
    (h : ∀ event ∈ events, event.level = .warn) : warningsOf events = events := by
  refine List.filter_eq_self.mpr fun event hevent => ?_
  rw [Event.isWarning, h event hevent]
  rfl

theorem warningsOf_eq_nil {events : List Event}
    (h : ∀ event ∈ events, event.level ≠ .warn) : warningsOf events = [] := by
  refine List.filter_eq_nil_iff.mpr fun event hevent => ?_
  rw [Event.isWarning, beq_iff_eq]
  exact h event hevent

namespace Module

@[simp] theorem warningsOf_infoEvent (message : String) :
    warningsOf [infoEvent message] = [] := rfl

/-! ## The search -/

mutual

theorem warningsOf_linkEventsFrom (tree : FileTree) :
    ∀ (path : String) (node : FileNode),
      warningsOf (linkEventsFrom tree path node) = []
  | path, .folder entries => by
      rw [linkEventsFrom]
      exact warningsOf_linkEventsAmong tree path entries
  | _, .file _ => rfl
  | _, .link _ => rfl

theorem warningsOf_linkEventsAmong (tree : FileTree) :
    ∀ (path : String) (entries : List (String × FileNode)),
      warningsOf (linkEventsAmong tree path entries) = []
  | _, [] => rfl
  | path, entry :: entries => by
      rw [linkEventsAmong, warningsOf_append,
        warningsOf_linkEventsUnder tree path entry,
        warningsOf_linkEventsAmong tree path entries, List.append_nil]

theorem warningsOf_linkEventsUnder (tree : FileTree) :
    ∀ (path : String) (entry : String × FileNode),
      warningsOf (linkEventsUnder tree path entry) = []
  | path, (name, .link target) => by
      rw [linkEventsUnder]
      split <;> rfl
  | path, (name, .file content) => by
      rw [linkEventsUnder]
      · split <;> rfl
      · simp
  | path, (name, .folder entries) => by
      rw [linkEventsUnder]
      · split
        · exact warningsOf_linkEventsFrom tree _ (.folder entries)
        · rfl
      · simp

end

/-! ## Folders -/

theorem warningsOf_fileEvents (tree : FileTree) (folder : String) :
    ∀ (files : List String) (declared : Option Declared),
      warningsOf (fileEvents tree folder declared files) = []
  | [], declared => by rw [fileEvents]; rfl
  | file :: files, declared => by
      rw [fileEvents]
      split
      · rfl
      · split
        · rfl
        · rw [warningsOf_append, warningsOf_fileEvents tree folder files,
            List.append_nil]
          split <;> rfl

theorem warningsOf_foldersEvents (tree : FileTree) (modulePath : String)
    (pattern : Pattern) : ∀ folders : List SourceFolder,
      warningsOf (foldersEvents tree modulePath pattern folders) = []
  | [] => rfl
  | folder :: folders => by
      have hrest := warningsOf_foldersEvents tree modulePath pattern folders
      rw [foldersEvents]
      split
      · exact hrest
      · rw [warningsOf_append, warningsOf_fileEvents, List.nil_append]
        split
        · rfl
        · next package? _ =>
            rw [warningsOf_append, hrest, List.append_nil]
            cases package? <;> rfl

/-- A load warns of nothing but what the loaded module warns of. -/
theorem warningsOf_loadEvents (tree : FileTree) (root pattern : String) :
    warningsOf (loadEvents tree root pattern)
      = match load tree root pattern with
        | .ok loaded => loaded.warningEvents pattern
        | .error _ => [] := by
  cases hentries : tree.entries? root with
  | none => simp [loadEvents, load, hentries, warningsOf]
  | some entries =>
      cases hpath : readPath tree root with
      | error error =>
          have hload : load tree root pattern = .error error := by
            rw [load, hentries]
            simp only [hpath]
            rfl
          rw [hload]
          simp [loadEvents, hentries, hpath, warningsOf]
      | ok modulePath =>
          simp only [loadEvents, hentries, hpath]
          rw [warningsOf_append, warningsOf_append, warningsOf_foldersEvents,
            List.append_nil, ← List.singleton_append, warningsOf_append,
            warningsOf_infoEvent, warningsOf_linkEventsAmong, List.nil_append,
            List.nil_append]
          cases load tree root pattern with
          | error _ => rfl
          | ok loaded =>
              simp only [warningsOf_append, warningsOf_infoEvent,
                List.append_nil]
              refine warningsOf_eq_self fun event hevent => ?_
              obtain ⟨_, -, rfl⟩ := List.mem_map.mp hevent
              rfl

end Module

/-! ## The way to a chart -/

theorem Graph.warningsOf_events (rules : PathRules) (packages : List Package) :
    warningsOf (Graph.events rules packages) = [] := by
  refine warningsOf_eq_nil fun event hevent => ?_
  obtain ⟨package, -, hevent⟩ := List.mem_flatMap.mp hevent
  unfold packageEvents at hevent
  split at hevent
  · rw [List.mem_singleton.mp hevent]
    exact nofun
  · obtain ⟨_, -, rfl⟩ := List.mem_map.mp hevent
    exact nofun

theorem Settings.warningsOf_events (value? : String → Option String) :
    warningsOf (Settings.events value?) = Settings.events value? := by
  refine warningsOf_eq_self fun event hevent => ?_
  obtain ⟨_, -, rfl⟩ := List.mem_map.mp hevent
  rfl

namespace Cli

open ImportChart.Module

/-- The warnings on the way to a chart are those of the environment and then
those of the loaded module. -/
theorem warningsOf_chartEvents (tree : FileTree) (value? : String → Option String)
    (request : Request) :
    warningsOf (chartEvents tree value? request)
      = Settings.events value?
        ++ match load tree request.folder
            (request.settings (.ofVariables value?)).pattern with
          | .ok loaded => loaded.warningEvents
              (request.settings (.ofVariables value?)).pattern
          | .error _ => [] := by
  simp only [chartEvents, warningsOf_append, Settings.warningsOf_events,
    warningsOf_loadEvents]
  cases load tree request.folder
      (request.settings (.ofVariables value?)).pattern with
  | error _ => simp [warningsOf]
  | ok loaded =>
      simp only [warningsOf_append, Graph.warningsOf_events, List.nil_append]
      exact List.append_nil _

/-- A log that shows warnings only shows of all events their warnings. -/
theorem log_eq_log_warningsOf {host : Host}
    (h : ∀ event, event.level ≠ .warn → host.logLine event = "") :
    ∀ events : List Event, host.log events = host.log (warningsOf events)
  | [] => rfl
  | event :: events => by
      have hrest := log_eq_log_warningsOf h events
      by_cases hlevel : event.level = .warn
      · have hkept : warningsOf (event :: events) = event :: warningsOf events := by
          simp [warningsOf, Event.isWarning, hlevel]
        rw [hkept, Host.log_cons, Host.log_cons, hrest]
      · have hdropped : warningsOf (event :: events) = warningsOf events := by
          simp [warningsOf, Event.isWarning, hlevel]
        rw [hdropped, Host.log_cons, h event hlevel, String.empty_append, hrest]

/-- So of the way to a chart it shows what the environment and the loaded module
warn of. -/
theorem log_chartEvents {host : Host}
    (h : ∀ event, event.level ≠ .warn → host.logLine event = "")
    (tree : FileTree) (value? : String → Option String) (request : Request) :
    host.log (chartEvents tree value? request)
      = host.log (Settings.events value?
        ++ match load tree request.folder
            (request.settings (.ofVariables value?)).pattern with
          | .ok loaded => loaded.warningEvents
              (request.settings (.ofVariables value?)).pattern
          | .error _ => []) := by
  rw [log_eq_log_warningsOf h, warningsOf_chartEvents]

end Cli

end ImportChart
