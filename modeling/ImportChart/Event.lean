/-!
# Events

What the program tells of its progress besides its output. Whether an event is
seen, and how its line looks, is not for the event to say: that is up to the log
of a run.
-/

namespace ImportChart

inductive Level
  | debug
  | info
  | warn
  deriving DecidableEq, Repr

structure Event where
  level : Level
  /-- The part of the program that the event comes from. -/
  target : String
  message : String
  deriving DecidableEq, Repr

def Event.isWarning (event : Event) : Bool := event.level == .warn

end ImportChart
