import Kestrel.Number.Style

/-!
# Traces

A trace is a text about a run, written line by line while the run goes on. It has sections, each
under a banner, and ends with the time that the run took.

## Main definitions

- `Trace.banner`, `Trace.elapsed` — the lines of a banner and of the time at the end
- `Tracer` — where the lines of a trace go, if anywhere, and how many sections there are so far

## Design notes

The lines of a trace are handed over unevaluated. A tracer that is off never looks at them, so a run
that is not traced does not pay for its trace.
-/

namespace Kestrel

namespace Trace

/-- The line above and below a title. -/
def delimiter : String := "================================"

/-- The lines of a banner. A blank line sets it off from the sections before it. -/
def banner (sections : Nat) (title : String) : List String :=
  (if sections = 0 then [] else [""]) ++ [delimiter, title, delimiter, ""]

/-- A time in milliseconds, with three places. -/
def milliseconds (nanoseconds : Nat) : String :=
  let seconds := Float.ofNat (nanoseconds / 1000000000)
    + Float.ofNat (nanoseconds % 1000000000) / 1000000000
  Number.fixed 3 (seconds * 1000) ++ "ms"

/-- The lines at the end of a trace. -/
def elapsed (nanoseconds : Nat) : List String :=
  ["", "Total execution time: " ++ milliseconds nanoseconds]

end Trace

/-- Where a trace is written. -/
structure Tracer (m : Type → Type) where
  /-- Takes the lines, if the run is traced. -/
  sink? : Option (String → m Unit)
  /-- How many sections have been begun. -/
  sections : Nat

namespace Tracer

variable {m : Type → Type}

/-- A tracer that writes to `sink`, or nowhere if it is not `enabled`. -/
def new (enabled : Bool) (sink : String → m Unit) : Tracer m :=
  ⟨if enabled then some sink else none, 0⟩

/-- A tracer that writes nowhere. -/
def disabled : Tracer m := ⟨none, 0⟩

/-- Whether the tracer writes anything. -/
def isEnabled (tracer : Tracer m) : Bool := tracer.sink?.isSome

@[simp] theorem new_false (sink : String → m Unit) : Tracer.new false sink = disabled := rfl

variable [Monad m]

def lines (tracer : Tracer m) (texts : Unit → List String) : m Unit :=
  match tracer.sink? with
  | some sink => (texts ()).forM sink
  | none => pure ()

def banner (tracer : Tracer m) (title : String) : m (Tracer m) :=
  match tracer.sink? with
  | some sink => do
    (Trace.banner tracer.sections title).forM sink
    pure { tracer with sections := tracer.sections + 1 }
  | none => pure tracer

@[simp] theorem lines_disabled (texts : Unit → List String) :
    (disabled : Tracer m).lines texts = pure () := rfl

@[simp] theorem banner_disabled (title : String) :
    (disabled : Tracer m).banner title = pure disabled := rfl

end Tracer

end Kestrel
