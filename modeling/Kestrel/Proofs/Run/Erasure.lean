import Kestrel.Proofs.Run.Outcome
import Kestrel.Proofs.Run.Watching

/-!
# What a run tells leaves no mark

A run tells of itself to an observer, and to the sink of its trace. If neither of them leaves a mark
on what matters, they can be erased: the run is the stages alone, whatever it tells. What matters,
and when an action leaves a mark on it, is a matter of the monad, so it is taken as given here, and
said of several monads elsewhere.

## Main definitions

- `Erasure` — which actions leave no mark, and which ones are the same up to those
- `Erasure.QuietObserver`, `Erasure.QuietTracer` — nobody who is told of a run leaves a mark
- `Erasure.Keeps` — the stages are the same up to marks

## Main statements

- `Erasure.erases_execute` — a run is the stages alone, up to what it tells
-/

namespace Kestrel

/-- A relation between the actions of two monads that holds up to quiet actions of the first one:
they can be left out. -/
structure Erasure (m m' : Type → Type) [Monad m] [Monad m'] where
  Quiet : {α : Type} → m α → Prop
  Erases : {α : Type} → m α → m' α → Prop
  quiet_pure : ∀ {α : Type} (a : α), Quiet (pure a : m α)
  quiet_bind : ∀ {α β : Type} {x : m α} {f : α → m β}, Quiet x → (∀ a, Quiet (f a)) →
    Quiet (x >>= f)
  pure : ∀ {α : Type} (a : α), Erases (pure a : m α) (pure a : m' α)
  bind : ∀ {α β : Type} {x : m α} {y : m' α} {f : α → m β} {g : α → m' β}, Erases x y →
    (∀ a, Erases (f a) (g a)) → Erases (x >>= f) (y >>= g)
  skip : ∀ {α β : Type} {x : m α} {f : α → m β} {y : m' β}, Quiet x → (∀ a, Erases (f a) y) →
    Erases (x >>= f) y

namespace Erasure

variable {m m' : Type → Type} [Monad m] [Monad m']

/-- To be told of an event or of the time leaves no mark. -/
structure QuietObserver (E : Erasure m m') (observer : Observer m) : Prop where
  announce : ∀ event, E.Quiet (observer.announce event)
  clock : E.Quiet observer.clock

/-- To take a line of a trace leaves no mark. -/
def QuietTracer (E : Erasure m m') (tracer : Tracer m) : Prop :=
  ∀ sink ∈ tracer.sink?, ∀ text, E.Quiet (sink text)

/-- The stages are the same up to marks. -/
structure Keeps (E : Erasure m m') (stages : Stages m) (stages' : Stages m') : Prop where
  lex : ∀ source, E.Erases (stages.lex source) (stages'.lex source)
  parse : ∀ tokens, E.Erases (stages.parse tokens) (stages'.parse tokens)
  compile : ∀ program, E.Erases (stages.compile program) (stages'.compile program)
  interpret : ∀ code, E.Erases (stages.interpret code) (stages'.interpret code)

variable {E : Erasure m m'}

theorem quiet_forM {sink : String → m Unit} (h : ∀ text, E.Quiet (sink text))
    (texts : List String) : E.Quiet (texts.forM sink) := by
  induction texts with
  | nil => exact E.quiet_pure ()
  | cons text rest ih => exact E.quiet_bind (h text) fun _ => ih

theorem QuietTracer.begun {tracer : Tracer m} (h : E.QuietTracer tracer) :
    E.QuietTracer tracer.begun := h

theorem QuietTracer.lines {tracer : Tracer m} (h : E.QuietTracer tracer)
    (texts : Unit → List String) : E.Quiet (tracer.lines texts) := by
  obtain ⟨sink?, sections⟩ := tracer
  cases sink? with
  | none => exact E.quiet_pure ()
  | some sink => exact quiet_forM (h sink rfl) (texts ())

section FrontStages

variable {stages : Stages m} {stages' : Stages m'} (hstages : E.Keeps stages stages')

include hstages

theorem erases_program? (source : String) :
    E.Erases (stages.program? source) (stages'.program? source) := by
  refine E.bind (hstages.lex source) fun tokens => ?_
  exact E.bind (hstages.parse tokens) fun result => E.pure _

theorem erases_code? (source : String) : E.Erases (stages.code? source) (stages'.code? source) := by
  refine E.bind (erases_program? hstages source) fun result => ?_
  cases result with
  | error failure => exact E.pure _
  | ok program => exact E.bind (hstages.compile program) fun result => E.pure _

end FrontStages

theorem quiet_tellFailure {observer : Observer m} (hobserver : E.QuietObserver observer)
    {tracer : Tracer m} (htracer : E.QuietTracer tracer) (source : String)
    (result : Except StageFailure Store) :
    E.Quiet (tellFailure observer tracer source result) := by
  cases result with
  | ok store => exact E.quiet_pure ()
  | error failure => exact E.quiet_bind (hobserver.announce _) fun _ => htracer.lines _

/-- The clock is erased, whether it is read or not. -/
theorem clock_erased {observer : Observer m} (hobserver : E.QuietObserver observer)
    (tracer : Tracer m) {α : Type} {f : Nat → m α} {y : m' α}
    (h : ∀ time, E.Erases (f time) y) :
    E.Erases (if tracer.isEnabled then observer.clock >>= f else Pure.pure 0 >>= f) y := by
  split
  · exact E.skip hobserver.clock h
  · exact E.skip (E.quiet_pure 0) h

variable [LawfulMonad m]

/-- A banner in front can be erased. -/
theorem banner_erased {α : Type} {tracer : Tracer m} (htracer : E.QuietTracer tracer)
    (title : String) {f : Tracer m → m α} {y : m' α} (h : E.Erases (f tracer.begun) y) :
    E.Erases (tracer.banner title >>= f) y := by
  rw [Tracer.banner_bind]
  exact E.skip (htracer.lines _) fun _ => h

section Runs

variable {stages : Stages m} {stages' : Stages m'} (hstages : E.Keeps stages stages')
  {observer : Observer m} (hobserver : E.QuietObserver observer)
  {tracer : Tracer m} (htracer : E.QuietTracer tracer)

include hstages hobserver htracer

theorem erases_executeCode (code : Code) :
    E.Erases (executeCode stages observer tracer code) (stages'.runCode code) := by
  refine banner_erased htracer _ (E.bind (hstages.interpret code) fun ending => ?_)
  cases hend : ending.breakdown? with
  | some breakdown =>
    rw [Ending.result_of_some hend]
    exact E.pure _
  | none =>
    rw [Ending.result_of_none hend]
    refine E.skip (hobserver.announce _) fun _ => ?_
    exact E.skip (htracer.begun.lines _) fun _ => E.pure _

theorem erases_executeProgram (program : Program) :
    E.Erases (executeProgram stages observer tracer program) (stages'.runProgram program) := by
  refine banner_erased htracer _ (E.bind (hstages.compile program) fun result => ?_)
  cases result with
  | error rejection => exact E.pure _
  | ok code =>
    refine E.skip (hobserver.announce _) fun _ => ?_
    refine E.skip (htracer.begun.lines _) fun _ => ?_
    exact erases_executeCode hstages hobserver htracer.begun code

theorem erases_executeTokens (tokens : List Token) :
    E.Erases (executeTokens stages observer tracer tokens) (stages'.runTokens tokens) := by
  refine banner_erased htracer _ (E.bind (hstages.parse tokens) fun result => ?_)
  cases result with
  | error rejection => exact E.pure _
  | ok program =>
    refine E.skip (hobserver.announce _) fun _ => ?_
    refine E.skip (htracer.begun.lines _) fun _ => ?_
    exact erases_executeProgram hstages hobserver htracer.begun program

theorem erases_executeSource (source : String) :
    E.Erases (executeSource stages observer tracer source) (stages'.runSource source) := by
  refine banner_erased htracer _ (E.bind (hstages.lex source) fun tokens => ?_)
  refine E.skip (hobserver.announce _) fun _ => ?_
  refine E.skip (htracer.begun.lines _) fun _ => ?_
  exact erases_executeTokens hstages hobserver htracer.begun tokens

/-- A run is the stages alone, up to what it tells. -/
theorem erases_execute [LawfulMonad m'] (source : String) :
    E.Erases (execute stages observer tracer source) (stages'.runSource source) := by
  rw [← bind_pure (stages'.runSource source)]
  refine E.skip (hobserver.announce _) fun _ => ?_
  refine clock_erased hobserver tracer fun started => ?_
  refine banner_erased htracer _ ?_
  refine E.skip (htracer.begun.lines _) fun _ => ?_
  refine E.bind (erases_executeSource hstages hobserver htracer.begun source) fun result => ?_
  refine E.skip (quiet_tellFailure hobserver htracer.begun source result) fun _ => ?_
  refine clock_erased hobserver tracer.begun fun stopped => ?_
  exact E.skip (htracer.begun.lines _) fun _ => E.pure _

end Runs

end Erasure

end Kestrel
