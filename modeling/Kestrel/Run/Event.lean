import Kestrel.Run.Failure

/-!
# Events of a staged run

Beside its trace, which is text for a reader, a run announces events: that it began, what each
stage that succeeded has produced, and that a stage failed.

## Main definitions

- `Event` — what is announced
- `Event.level`, `Event.message`, `Event.fields` — how a log shows an event
-/

namespace Kestrel

/-- What a run announces. -/
inductive Event where
  /-- A run of a source with this many bytes began. -/
  | started (bytes : Nat)
  | lexed (tokens : Nat)
  | parsed (statements : Nat)
  | compiled (instructions : Nat)
  /-- A run of code ended, leaving so many values on the stack and so many registers set. -/
  | interpreted (stack registers : Nat)
  /-- A stage failed, and the run ended. -/
  | stopped (failure : StageFailure)
  deriving DecidableEq, Repr

/-- How urgent a log takes something to be. -/
inductive Level where
  | debug
  | info
  | warn
  deriving DecidableEq, Repr

def Level.text : Level → String
  | .debug => "DEBUG"
  | .info => "INFO"
  | .warn => "WARN"

namespace Event

def level : Event → Level
  | .stopped _ => .warn
  | _ => .debug

def message : Event → String
  | .started _ => "execute"
  | .lexed _ => "lexed"
  | .parsed _ => "parsed"
  | .compiled _ => "compiled"
  | .interpreted _ _ => "interpreted"
  | .stopped _ => "pipeline stopped"

/-- The details of an event: their names, with texts. -/
def fields : Event → List (String × String)
  | .started bytes => [("bytes", toString bytes)]
  | .lexed tokens => [("tokens", toString tokens)]
  | .parsed statements => [("nodes", toString statements)]
  | .compiled instructions => [("instructions", toString instructions)]
  | .interpreted stack registers =>
    [("stack", toString stack), ("registers", toString registers)]
  | .stopped failure => [("stage", failure.stage.text), ("error", failure.describe)]

end Event

end Kestrel
