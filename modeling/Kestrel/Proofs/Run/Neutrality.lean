import Mathlib.Data.List.Forall2
import Kestrel.Proofs.Run.Requests

/-!
# Configurations do not change what runs do

A configuration says whether a run is traced and what becomes of its failure. Sources that are run
one after the other on the same stages do the same whatever their configurations are: the stages are
called in the same way and come to the same states. Only what is told differs.

## Main definitions

- `Manner` — how a source is run
- `Step.SameDeeds` — two runs of a source do the same
- `Step.Reports` — a run tells its caller and its sink what its configuration says
- `Step.Neutral` — both of it: runs differ in what they tell, as they are to, and in nothing else

## Main statements

- `session_neutral` — sessions with different configurations do the same
-/

namespace Kestrel

variable {σ ε ε' : Type}

/-- How a source is run: its configuration, and the sink for its trace. -/
structure Manner (ε : Type) where
  config : RunConfig
  sink : String → StateM ε Unit

/-- The request to run a source in some manner. -/
def Manner.request (manner : Manner ε) (source : String) : Request (StateM ε) :=
  .run source manner.config manner.sink

/-- Two steps of sessions do the same: the stages are in the same state before and after them, and
they are called in the same way with the same arguments and results. If both are traced, they have
the same trace, the time aside. -/
structure Step.SameDeeds (step : Step σ ε) (step' : Step σ ε') : Prop where
  before_eq : step.before.1 = step'.before.1
  after_eq : step.after.1 = step'.after.1
  calls_eq : callsIn step.seen = callsIn step'.seen
  sameButTime : step.request.IsTraced → step'.request.IsTraced →
    Trace.SameButTime (linesIn step.seen) (linesIn step'.seen)

/-- A step that runs a source tells what its configuration says: its caller is told of the failure
of a plain execution from the same state, or never of a failure, and no line is written unless the
run is to be traced. -/
def Step.Reports (stages : Stages (StateM σ)) (step : Step σ ε) : Prop :=
  ∃ source config sink, step.request = .run source config sink ∧
    (config.policy = .propagate → ∀ failure, step.answer = .ran (.error failure) ↔
      ((execute stages (.silent (pure 0)) .disabled source).run step.before.1).1 =
        .error failure) ∧
    (config.policy = .absorb → step.answer = .ran (.ok ())) ∧
    (config.verbose = false → linesIn step.seen = [])

/-- Two steps do the same, and each tells what its own configuration says. -/
def Step.Neutral (stages : Stages (StateM σ)) (step : Step σ ε) (step' : Step σ ε') : Prop :=
  step.SameDeeds step' ∧ step.Reports stages ∧ step'.Reports stages

variable (stages : Stages (StateM σ))

/-! ### One run -/

/-- A caller that is to be told of failures is told of exactly those. -/
theorem FailurePolicy.apply_propagate_eq_error {α : Type} {result : Except StageFailure α}
    {failure : StageFailure} :
    FailurePolicy.propagate.apply result = .error failure ↔ result = .error failure := by
  cases result <;> simp [apply]

theorem FailurePolicy.apply_absorb {α : Type} (result : Except StageFailure α) :
    FailurePolicy.absorb.apply result = .ok () := by
  cases result <;> rfl

theorem reports_run (observer : Observer (StateM ε)) (source : String) (manner : Manner ε)
    (s : σ × ε) : ((manner.request source).step stages observer s).Reports stages := by
  obtain ⟨config, sink⟩ := manner
  obtain ⟨result, noted, s', t', time, hplain, hstep, -⟩ :=
    Request.step_run (.refl stages) observer config sink source (s := s) rfl
  obtain ⟨more, hwatched, -⟩ := watches_runSource stages source [] s.1
  have hbare : ((stages.runSource source).run s.1).1 = result := by
    rw [hplain] at hwatched
    exact (congrArg (fun run => run.1.1) hwatched).symm
  refine ⟨source, config, sink, rfl, ?_, ?_, ?_⟩
  · intro hpolicy failure
    rw [execute_silent]
    simp only [Manner.request, hstep, hbare, hpolicy, Answer.ran.injEq,
      FailurePolicy.apply_propagate_eq_error]
  · intro hpolicy
    simp only [Manner.request, hstep, hpolicy, FailurePolicy.apply_absorb]
  · intro hverbose
    have hoff : (Tracer.new config.verbose sink).isEnabled = false := by
      rw [hverbose]
      rfl
    simp only [Manner.request, hstep, Tracer.told_of_disabled hoff,
      Tracer.written_of_disabled hoff, List.append_nil, linesIn_map_call]

/-! ### Runs of the same source -/

/-- From the same state of the stages, two runs of a source do the same. -/
theorem sameDeeds_run (observer : Observer (StateM ε)) (observer' : Observer (StateM ε'))
    (source : String) (manner : Manner ε) (manner' : Manner ε') {s : σ × ε} {s' : σ × ε'}
    (h : s.1 = s'.1) :
    ((manner.request source).step stages observer s).SameDeeds
      ((manner'.request source).step stages observer' s') := by
  obtain ⟨config, sink⟩ := manner
  obtain ⟨config', sink'⟩ := manner'
  obtain ⟨result, noted, s₁, t, time, hplain, hstep, hstate⟩ :=
    Request.step_run (.refl stages) observer config sink source h
  obtain ⟨result', noted', s₁', t', time', hplain', hstep', hstate'⟩ :=
    Request.step_run (.refl stages) observer' config' sink' source (s := s') rfl
  -- both come to what the stages alone come to
  rw [hplain] at hplain'
  obtain ⟨⟨rfl, rfl⟩, rfl⟩ := Prod.mk.inj hplain'
  simp only [Manner.request, hstep, hstep']
  refine ⟨h, hstate.trans hstate'.symm, ?_, ?_⟩
  · simp
  · intro hverbose hverbose'
    have henabled : (Tracer.new config.verbose sink).isEnabled =
        (Tracer.new config'.verbose sink').isEnabled := by
      rw [show config.verbose = true from hverbose, show config'.verbose = true from hverbose']
      rfl
    exact Tracer.sameButTime henabled rfl source _ _ time time'

/-! ### Sessions -/

/-- Sources that are run one after the other on the same stages do the same, whatever the
configurations, the sinks and the observers are. Every run tells what its configuration says. -/
theorem session_neutral (observer : Observer (StateM ε)) (observer' : Observer (StateM ε'))
    (plan : List (String × Manner ε × Manner ε')) (s : σ) (e : ε) (e' : ε') :
    List.Forall₂ (Step.Neutral stages)
      (session stages observer (plan.map fun (source, manner, _) => manner.request source) (s, e))
      (session stages observer' (plan.map fun (source, _, manner) => manner.request source)
        (s, e')) := by
  induction plan generalizing s e e' with
  | nil => exact .nil
  | cons entry rest ih =>
    obtain ⟨source, manner, manner'⟩ := entry
    have hdeeds := sameDeeds_run stages observer observer' source manner manner'
      (show (s, e).1 = (s, e').1 from rfl)
    refine .cons ⟨hdeeds, reports_run stages observer source manner _,
      reports_run stages observer' source manner' _⟩ ?_
    have hrest (after : σ × ε) (after' : σ × ε') (h : after.1 = after'.1) :
        List.Forall₂ (Step.Neutral stages)
          (session stages observer (rest.map fun (source, manner, _) => manner.request source)
            after)
          (session stages observer' (rest.map fun (source, _, manner) => manner.request source)
            after') := by
      obtain ⟨t, f⟩ := after
      obtain ⟨_, f'⟩ := after'
      obtain rfl := h
      exact ih t f f'
    exact hrest _ _ hdeeds.after_eq

end Kestrel
