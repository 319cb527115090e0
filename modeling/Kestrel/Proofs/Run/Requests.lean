import Kestrel.Proofs.Run.Outside
import Kestrel.Proofs.Run.Staging

/-!
# Requests to the same stages

A source can be run, executed, read or lowered to code, and all that again and again on the same
stages. This file says what is known of each step of such a session, and what a step has to do with
the stages alone.

## Main definitions

- `Request`, `Answer` — what can be asked, and what is told then
- `Request.step`, `session` — what is known of a request, and of one after the other
- `Tracer.told` — what is noted down of a run, up to its time
- `Trace.SameButTime` — traces are the same up to their times

## Main statements

- `execute_plain` — a run comes to what the stages come to, and tells of that
- `execute_outside` — what a run comes to does not depend on what is outside of the stages
- `Request.step_run`, `Request.step_execute`, `Request.step_parse`, `Request.step_compile` — what
  each kind of step comes to
-/

namespace Kestrel

/-- What can be asked. -/
inductive Request (m : Type → Type) where
  /-- Run a source as it is configured, with a sink for the trace. -/
  | run (source : String) (config : RunConfig) (sink : String → m Unit)
  /-- Run a source, traced by a tracer. -/
  | execute (source : String) (tracer : Tracer m)
  /-- Read a source. -/
  | parse (source : String)
  /-- Read a source and lower it to code. -/
  | compile (source : String)

/-- What is told then. -/
inductive Answer where
  | ran (result : Except StageFailure Unit)
  | executed (result : Except StageFailure Store)
  | parsed (result : Except StageFailure Program)
  | compiled (result : Except StageFailure Code)

namespace Request

section Performing

variable {m : Type → Type} [Monad m]

def perform (stages : Stages m) (observer : Observer m) : Request m → m Answer
  | .run source config sink => .ran <$> Kestrel.run stages observer sink config source
  | .execute source tracer => .executed <$> Kestrel.execute stages observer tracer source
  | .parse source => .parsed <$> stages.program? source
  | .compile source => .compiled <$> stages.code? source

/-- A trace is written for the request. -/
def IsTraced : Request m → Prop
  | .run _ config _ => config.verbose = true
  | .execute _ tracer => tracer.isEnabled = true
  | .parse _ | .compile _ => False

/-- Nothing is run for the request. -/
def IsFront : Request m → Prop
  | .run _ _ _ | .execute _ _ => False
  | .parse _ | .compile _ => True

end Performing

variable {σ ε : Type}

/-- A request whose trace cannot get at the state of the stages. -/
def outside : Request (StateM ε) → Request (StateM (σ × ε))
  | .run source config sink => .run source config fun text => atOutside (sink text)
  | .execute source tracer => .execute source tracer.outside
  | .parse source => .parse source
  | .compile source => .compile source

/-- A request whose trace is noted down. -/
def watched : Request (StateM σ) → Request (Watched σ)
  | .run source config sink => .run source config (watchedSink sink)
  | .execute source tracer => .execute source tracer.watched
  | .parse source => .parse source
  | .compile source => .compile source

end Request

/-- What is known of a step of a session: the request with its answer, the calls of stages and the
lines of the trace, and the states before and after it, of the stages and outside. -/
structure Step (σ ε : Type) where
  request : Request (StateM ε)
  before : σ × ε
  answer : Answer
  seen : List Sighting
  after : σ × ε

section Sessions

variable {σ ε : Type} (stages : Stages (StateM σ)) (observer : Observer (StateM ε))

/-- What is known of a request to stages in some state. The notes come from a watched run, which
does the same. -/
def Request.step (request : Request (StateM ε)) (before : σ × ε) : Step σ ε :=
  let performed := (request.outside.perform stages.inside observer.outside).run before
  let noted := (request.outside.watched.perform stages.inside.watched
    observer.outside.watched).run [] |>.run before
  ⟨request, before, performed.1, noted.1.2, performed.2⟩

/-- What is known of requests to the same stages, one after the other. -/
def session : List (Request (StateM ε)) → σ × ε → List (Step σ ε)
  | [], _ => []
  | request :: rest, before =>
    let step := request.step stages observer before
    step :: session rest step.after

end Sessions

/-! ### What a run tells -/

@[simp] theorem linesIn_append (seen more : List Sighting) :
    linesIn (seen ++ more) = linesIn seen ++ linesIn more := List.filterMap_append ..

@[simp] theorem linesIn_nil : linesIn [] = [] := rfl

@[simp] theorem linesIn_call (call : StageCall) (seen : List Sighting) :
    linesIn (.call call :: seen) = linesIn seen := rfl

@[simp] theorem linesIn_map_line (texts : List String) :
    linesIn (texts.map .line) = texts := by
  induction texts with
  | nil => rfl
  | cons text rest ih => exact congrArg (text :: ·) ih

@[simp] theorem linesIn_map_call (calls : List StageCall) : linesIn (calls.map .call) = [] := by
  induction calls with
  | nil => rfl
  | cons call rest ih => exact ih

@[simp] theorem callsIn_map_line (texts : List String) : callsIn (texts.map .line) = [] := by
  induction texts with
  | nil => rfl
  | cons text rest ih => exact ih

/-- Traces are the same, up to the times at their ends. -/
def Trace.SameButTime (lines lines' : List String) : Prop :=
  lines = lines' ∨ ∃ before time time',
    lines = before ++ Trace.elapsed time ∧ lines' = before ++ Trace.elapsed time'

namespace Tracer

variable {m m' : Type → Type}

/-- What is noted down of a run with these calls and this result, up to its time. -/
def told (tracer : Tracer m) (source : String) (calls : List StageCall)
    (result : Except StageFailure Store) : List Sighting :=
  tracer.written (Trace.banner tracer.sections "Source code") ++
    (tracer.written ((Text.pieces '\n' source.toList).map String.ofList) ++
      (tracer.begun.log calls ++ tracer.written (Trace.closing source result)))

@[simp] theorem written_begun (tracer : Tracer m) : tracer.begun.written = tracer.written := rfl

@[simp] theorem callsIn_written (tracer : Tracer m) (texts : List String) :
    callsIn (tracer.written texts) = [] := by
  unfold written
  split
  · exact callsIn_map_line texts
  · rfl

@[simp] theorem callsIn_log (tracer : Tracer m) (calls : List StageCall) :
    callsIn (tracer.log calls) = calls := by
  induction calls generalizing tracer with
  | nil => rfl
  | cons call calls ih => simp [log, opened, ih]

@[simp] theorem callsIn_told (tracer : Tracer m) (source : String) (calls : List StageCall)
    (result : Except StageFailure Store) : callsIn (tracer.told source calls result) = calls := by
  simp [told]

theorem written_congr {tracer : Tracer m} {tracer' : Tracer m'}
    (henabled : tracer.isEnabled = tracer'.isEnabled) (texts : List String) :
    tracer.written texts = tracer'.written texts := by
  simp only [written, henabled]

/-- A tracer that is off is told of calls only. -/
theorem told_of_disabled {tracer : Tracer m} (h : tracer.isEnabled = false) (source : String)
    (calls : List StageCall) (result : Except StageFailure Store) :
    tracer.told source calls result = calls.map .call := by
  simp [told, written_of_disabled h, log_of_disabled (tracer.isEnabled_begun.trans h)]

/-- What is told depends on the number of sections before, but not on the sink. -/
theorem told_congr {tracer : Tracer m} {tracer' : Tracer m'}
    (henabled : tracer.isEnabled = tracer'.isEnabled)
    (hsections : tracer.sections = tracer'.sections) (source : String) (calls : List StageCall)
    (result : Except StageFailure Store) :
    tracer.told source calls result = tracer'.told source calls result := by
  cases h : tracer.isEnabled with
  | false => rw [told_of_disabled h, told_of_disabled (henabled.symm.trans h)]
  | true =>
    have h' := henabled.symm.trans h
    have hbegun : tracer.begun.sections = tracer'.begun.sections := by
      simp [begun, h, h', hsections]
    simp only [told, written_of_enabled h, written_of_enabled h',
      log_of_enabled (tracer.isEnabled_begun.trans h),
      log_of_enabled (tracer'.isEnabled_begun.trans h'), hsections, hbegun]

theorem isEnabled_outside {σ ε : Type} (tracer : Tracer (StateM ε)) :
    (tracer.outside : Tracer (StateM (σ × ε))).isEnabled = tracer.isEnabled := by
  simp [isEnabled, outside]

/-- Two runs that differ in their times only have the same trace up to that. -/
theorem sameButTime {tracer : Tracer m} {tracer' : Tracer m'}
    (henabled : tracer.isEnabled = tracer'.isEnabled)
    (hsections : tracer.sections = tracer'.sections) (source : String) (calls : List StageCall)
    (result : Except StageFailure Store) (time time' : Nat) :
    Trace.SameButTime
      (linesIn (tracer.told source calls result ++ tracer.written (Trace.elapsed time)))
      (linesIn (tracer'.told source calls result ++ tracer'.written (Trace.elapsed time'))) := by
  rw [told_congr henabled hsections, written_congr henabled]
  cases h : tracer'.isEnabled with
  | false =>
    left
    rw [written_of_disabled h, written_of_disabled h]
  | true =>
    right
    rw [written_of_enabled h, written_of_enabled h]
    exact ⟨linesIn (tracer'.told source calls result), time, time', by simp, by simp⟩

end Tracer

/-! ### Runs and the stages alone -/

section Plain

variable {σ τ ε : Type} {R : σ → τ → Prop} {stages : Stages (StateM σ)}
  {stages' : Stages (StateM τ)}

/-- A run comes to what the stages alone come to in a related state, and that is what it tells. -/
theorem execute_plain (hstages : stages.Alike R stages') (observer : Observer (StateM ε))
    (tracer : Tracer (StateM ε)) (source : String) {s : σ × ε} {t : τ} (h : R s.1 t) :
    ∃ result noted s' t' time,
      ((stages'.watched.runSource source).run []).run t = ((result, noted), t') ∧
      (execute stages.inside observer.outside tracer.outside source).run s = (result, s') ∧
      R s'.1 t' ∧
      ((execute stages.inside.watched observer.outside.watched tracer.outside.watched source).run
        []).run s = ((result, tracer.told source (callsIn noted) result ++
          tracer.written (Trace.elapsed time)), s') := by
  have herases := Erasure.erases_execute hstages.keeps observer.quiet_outside tracer.quiet_outside
    source [] [] s t rfl h
  obtain ⟨more, hrun, calls, time, -, hmore⟩ :=
    watches_execute stages.inside observer.outside tracer.outside source [] s
  rw [hrun] at herases ⊢
  generalize (execute stages.inside observer.outside tracer.outside source).run s = executed
    at herases hmore ⊢
  generalize ((stages'.watched.runSource source).run []).run t = deed at herases ⊢
  obtain ⟨result, s'⟩ := executed
  obtain ⟨⟨result', noted⟩, t'⟩ := deed
  obtain ⟨hresult, hcalls, hstates⟩ := herases
  obtain rfl : result = result' := hresult
  have hmore' : more = tracer.told source calls result ++ tracer.written (Trace.elapsed time) := by
    rw [hmore, ← Tracer.told_congr (tracer.isEnabled_outside (σ := σ)) rfl source calls result,
      ← Tracer.written_congr (tracer.isEnabled_outside (σ := σ))]
    simp only [Tracer.told, Tracer.written_begun, List.append_assoc]
  subst hmore'
  obtain rfl : calls = callsIn noted := by simpa using hcalls
  exact ⟨result, noted, s', t', time, rfl, rfl, hstates, rfl⟩

/-- The stages alone do the same when they are watched. -/
theorem watches_runSource (stages : Stages (StateM σ)) (source : String) :
    Watches (stages.watched.runSource source) (stages.runSource source) fun _ _ => True := by
  have hwatches := watches_execute stages (.silent (pure 0)) .disabled source
  have hwatched : execute stages.watched (Observer.silent (pure 0)).watched
      (Tracer.disabled : Tracer (StateM σ)).watched source = stages.watched.runSource source :=
    execute_silent stages.watched _ source
  rw [hwatched, execute_silent] at hwatches
  exact hwatches.mono fun _ _ _ => trivial

/-- Whoever is outside, a run comes to what the stages alone come to. -/
theorem execute_outside (stages : Stages (StateM σ)) (observer : Observer (StateM ε))
    (tracer : Tracer (StateM ε)) (source : String) (s : σ × ε) :
    (((execute stages.inside observer.outside tracer.outside source).run s).1,
        ((execute stages.inside observer.outside tracer.outside source).run s).2.1) =
      (stages.runSource source).run s.1 := by
  obtain ⟨result, noted, s', t', time, hplain, hrun, hstate, -⟩ :=
    execute_plain (.refl stages) observer tracer source (s := s) rfl
  obtain ⟨more, hwatched, -⟩ := watches_runSource stages source [] s.1
  rw [hplain] at hwatched
  obtain ⟨hresult, hstate'⟩ := Prod.mk.inj hwatched
  rw [hrun]
  exact Prod.ext (Prod.mk.inj hresult).1 (hstate.trans hstate')

theorem Tracer.outside_new (enabled : Bool) (sink : String → StateM ε Unit) :
    (Tracer.new enabled sink).outside =
      (.new enabled fun text => atOutside (sink text) : Tracer (StateM (σ × ε))) := by
  cases enabled <;> rfl

/-- A step is known by what is done, how that is noted down, and what is made of its result. -/
theorem Request.step_eq {α : Type} {observer : Observer (StateM ε)} {request : Request (StateM ε)}
    {x : StateM (σ × ε) α} {X : Watched (σ × ε) α} (answer : α → Answer) {result : α}
    {seen : List Sighting} {s s' : σ × ε}
    (hx : request.outside.perform stages.inside observer.outside = answer <$> x)
    (hX : request.outside.watched.perform stages.inside.watched observer.outside.watched =
      answer <$> X)
    (hrun : x.run s = (result, s')) (hnoted : (X.run []).run s = ((result, seen), s')) :
    request.step stages observer s = ⟨request, s, answer result, seen, s'⟩ := by
  have hperformed : (answer <$> x).run s = (answer (x.run s).1, (x.run s).2) := rfl
  have hwatched : (((answer <$> X).run []).run s).1.2 = ((X.run []).run s).1.2 := rfl
  simp only [Request.step, hx, hX, hperformed, hwatched, hrun, hnoted]

/-- What is known of a step that executes a source. -/
theorem Request.step_execute (hstages : stages.Alike R stages') (observer : Observer (StateM ε))
    (tracer : Tracer (StateM ε)) (source : String) {s : σ × ε} {t : τ} (h : R s.1 t) :
    ∃ result noted s' t' time,
      ((stages'.watched.runSource source).run []).run t = ((result, noted), t') ∧
      (Request.execute source tracer).step stages observer s =
        ⟨.execute source tracer, s, .executed result, tracer.told source (callsIn noted) result ++
          tracer.written (Trace.elapsed time), s'⟩ ∧
      R s'.1 t' := by
  obtain ⟨result, noted, s', t', time, hplain, hrun, hstates, hnoted⟩ :=
    execute_plain hstages observer tracer source h
  exact ⟨result, noted, s', t', time, hplain, Request.step_eq .executed rfl rfl hrun hnoted,
    hstates⟩

/-- What is known of a step that runs a source. -/
theorem Request.step_run (hstages : stages.Alike R stages') (observer : Observer (StateM ε))
    (config : RunConfig) (sink : String → StateM ε Unit) (source : String) {s : σ × ε} {t : τ}
    (h : R s.1 t) :
    ∃ result noted s' t' time,
      ((stages'.watched.runSource source).run []).run t = ((result, noted), t') ∧
      (Request.run source config sink).step stages observer s =
        ⟨.run source config sink, s, .ran (config.policy.apply result),
          (Tracer.new config.verbose sink).told source (callsIn noted) result ++
            (Tracer.new config.verbose sink).written (Trace.elapsed time), s'⟩ ∧
      R s'.1 t' := by
  obtain ⟨result, noted, s', t', time, hplain, hrun, hstates, hnoted⟩ :=
    execute_plain hstages observer (.new config.verbose sink) source h
  rw [Tracer.outside_new] at hrun hnoted
  rw [Tracer.watched_new] at hnoted
  have hstep : (Request.run source config sink).step stages observer s = _ :=
    Request.step_eq (fun result => .ran (config.policy.apply result)) rfl rfl hrun hnoted
  exact ⟨result, noted, s', t', time, hplain, hstep, hstates⟩

/-! ### The front stages -/

/-- To read a source, no trace is written. -/
theorem watches_program? (stages : Stages (StateM σ)) (source : String) :
    Watches (stages.watched.program? source) (stages.program? source)
      fun _ seen => linesIn seen = [] := by
  refine (Watches.watch _ (stages.lex source)).bind ?_
  rintro tokens _ rfl
  refine (Watches.watch _ (stages.parse tokens)).bind ?_
  rintro result _ rfl
  exact .pure rfl

/-- To lower a source to code, no trace is written. -/
theorem watches_code? (stages : Stages (StateM σ)) (source : String) :
    Watches (stages.watched.code? source) (stages.code? source)
      fun _ seen => linesIn seen = [] := by
  refine (watches_program? stages source).bind ?_
  intro result seen hseen
  cases result with
  | error failure => exact .pure (by simp [hseen])
  | ok program =>
    refine (Watches.watch _ (stages.compile program)).bind ?_
    rintro result' _ rfl
    exact .pure (by simp [hseen])

/-- What is known of an action of the front stages: what the stages alone come to, without a
trace. -/
theorem front_plain {α : Type} {X : Watched (σ × ε) α} {x : StateM (σ × ε) α} {Y : Watched τ α}
    (hwatches : Watches X x fun _ seen => linesIn seen = []) (herases : Erases R X Y) {s : σ × ε}
    {t : τ} (h : R s.1 t) :
    ∃ result seen noted s' t', (Y.run []).run t = ((result, noted), t') ∧
      x.run s = (result, s') ∧ (X.run []).run s = ((result, seen), s') ∧
      linesIn seen = [] ∧ callsIn seen = callsIn noted ∧ R s'.1 t' := by
  obtain ⟨seen, hrun, hlines⟩ := hwatches [] s
  have hfront := herases [] [] s t rfl h
  rw [hrun] at hfront ⊢
  generalize x.run s = done at hfront ⊢
  generalize (Y.run []).run t = deed at hfront ⊢
  obtain ⟨result, s'⟩ := done
  obtain ⟨⟨result', noted⟩, t'⟩ := deed
  obtain ⟨hresult, hcalls, hstates⟩ := hfront
  obtain rfl : result = result' := hresult
  exact ⟨result, seen, noted, s', t', rfl, rfl, rfl, hlines, hcalls, hstates⟩

/-- What is known of a step that reads a source. -/
theorem Request.step_parse (hstages : stages.Alike R stages') (observer : Observer (StateM ε))
    (source : String) {s : σ × ε} {t : τ} (h : R s.1 t) :
    ∃ result noted seen s' t',
      ((stages'.watched.program? source).run []).run t = ((result, noted), t') ∧
      (Request.parse source).step stages observer s =
        ⟨.parse source, s, .parsed result, seen, s'⟩ ∧
      linesIn seen = [] ∧ callsIn seen = callsIn noted ∧ R s'.1 t' := by
  obtain ⟨result, seen, noted, s', t', hplain, hrun, hnoted, hlines, hcalls, hstates⟩ :=
    front_plain (watches_program? stages.inside source)
      (Erasure.erases_program? hstages.keeps source) h
  exact ⟨result, noted, seen, s', t', hplain, Request.step_eq .parsed rfl rfl hrun hnoted, hlines,
    hcalls, hstates⟩

/-- What is known of a step that lowers a source to code. -/
theorem Request.step_compile (hstages : stages.Alike R stages') (observer : Observer (StateM ε))
    (source : String) {s : σ × ε} {t : τ} (h : R s.1 t) :
    ∃ result noted seen s' t',
      ((stages'.watched.code? source).run []).run t = ((result, noted), t') ∧
      (Request.compile source).step stages observer s =
        ⟨.compile source, s, .compiled result, seen, s'⟩ ∧
      linesIn seen = [] ∧ callsIn seen = callsIn noted ∧ R s'.1 t' := by
  obtain ⟨result, seen, noted, s', t', hplain, hrun, hnoted, hlines, hcalls, hstates⟩ :=
    front_plain (watches_code? stages.inside source) (Erasure.erases_code? hstages.keeps source) h
  exact ⟨result, noted, seen, s', t', hplain, Request.step_eq .compiled rfl rfl hrun hnoted,
    hlines, hcalls, hstates⟩

end Plain

end Kestrel
