import Mathlib.Data.List.Forall2
import Kestrel.Proofs.Machine.Writers
import Kestrel.Proofs.Run.Requests

/-!
# Requests do not depend on the ones before them

Of all that happens on the stages of the language, only what was printed is left for the next
request, and no request looks at it. So each one comes to what it would come to on stages where
nothing has happened yet, whether the ones before it failed or not, and the output is what they all
would have printed there, one after the other.

## Main definitions

- `Step.Agrees` — two steps have the same answer, the same calls and the same trace
- `Independent` — every step of a session is what its request comes to on its own

## Main statements

- `Stages.alike_standard` — what was printed before does not matter to the stages of the language
- `Request.step_alike` — nor to a request, whatever it asks for
- `session_independent` — nor do the requests before
-/

namespace Kestrel

variable {σ τ ε ε' : Type}

/-! ### The stages of the language -/

section Standard

variable {R : σ → τ → Prop}

theorem Pairs.pure {α : Type} (a : α) :
    Pairs R (Pure.pure a : StateM σ α) (Pure.pure a : StateM τ α) :=
  fun _ _ h => ⟨rfl, h⟩

theorem Stages.alike_standard_of_interpret {interpret : Code → StateM σ Ending}
    {interpret' : Code → StateM τ Ending}
    (h : ∀ code, Pairs R (interpret code) (interpret' code)) :
    (Stages.standard interpret).Alike R (.standard interpret') :=
  ⟨fun _ => .pure _, fun _ => .pure _, fun _ => .pure _, h⟩

theorem pairs_machineStage {writer : Writer σ} {writer' : Writer τ}
    (hwriters : writer.Alike R writer') (limit : Nat) (code : Code) :
    Pairs R (machineStage writer limit code) (machineStage writer' limit code) := by
  intro output output' h
  obtain ⟨hexecution, houtput⟩ := interpret_alike hwriters limit code h
  exact ⟨congrArg Execution.ending hexecution, houtput⟩

/-- What was printed before does not matter to the stages of the language. -/
theorem Stages.alike_standard {writer : Writer σ} {writer' : Writer τ} {written : σ → String}
    {written' : τ → String} (hwriter : writer.Records written)
    (hwriter' : writer'.Records written') (limit : Nat) (front front' : String) :
    (Stages.standard (machineStage writer limit)).Alike
      (WrittenBehind written front written' front')
      (.standard (machineStage writer' limit)) :=
  Stages.alike_standard_of_interpret fun code =>
    pairs_machineStage (hwriter.alike hwriter' front front') limit code

end Standard

/-! ### Requests in related states -/

/-- Two steps have the same answer, the same calls of stages, and the same trace, the time
aside. -/
structure Step.Agrees (step : Step σ ε) (step' : Step τ ε) : Prop where
  answer_eq : step.answer = step'.answer
  calls_eq : callsIn step.seen = callsIn step'.seen
  sameButTime : Trace.SameButTime (linesIn step.seen) (linesIn step'.seen)

section Requests

variable {R : σ → τ → Prop} {stages : Stages (StateM σ)} {stages' : Stages (StateM τ)}
  (hstages : stages.Alike R stages') (observer : Observer (StateM ε))

include hstages

/-- In related states of the stages, a request comes to the same. -/
theorem Request.step_alike (request : Request (StateM ε)) {s : σ × ε} {t : τ × ε}
    (h : R s.1 t.1) :
    (request.step stages observer s).Agrees (request.step stages' observer t) ∧
      R (request.step stages observer s).after.1 (request.step stages' observer t).after.1 := by
  cases request with
  | run source config sink =>
    obtain ⟨result, noted, s', t', time, hplain, hstep, hstates⟩ :=
      Request.step_run hstages observer config sink source h
    obtain ⟨result', noted', s'', t'', time', hplain', hstep', rfl⟩ :=
      Request.step_run (.refl stages') observer config sink source (s := t) rfl
    obtain ⟨⟨rfl, rfl⟩, rfl⟩ := Prod.mk.inj (hplain.symm.trans hplain')
    rw [hstep, hstep']
    exact ⟨⟨rfl, by simp, Tracer.sameButTime rfl rfl source _ _ time time'⟩, hstates⟩
  | execute source tracer =>
    obtain ⟨result, noted, s', t', time, hplain, hstep, hstates⟩ :=
      Request.step_execute hstages observer tracer source h
    obtain ⟨result', noted', s'', t'', time', hplain', hstep', rfl⟩ :=
      Request.step_execute (.refl stages') observer tracer source (s := t) rfl
    obtain ⟨⟨rfl, rfl⟩, rfl⟩ := Prod.mk.inj (hplain.symm.trans hplain')
    rw [hstep, hstep']
    exact ⟨⟨rfl, by simp, Tracer.sameButTime rfl rfl source _ _ time time'⟩, hstates⟩
  | parse source =>
    obtain ⟨result, noted, seen, s', t', hplain, hstep, hlines, hcalls, hstates⟩ :=
      Request.step_parse hstages observer source h
    obtain ⟨result', noted', seen', s'', t'', hplain', hstep', hlines', hcalls', rfl⟩ :=
      Request.step_parse (.refl stages') observer source (s := t) rfl
    obtain ⟨⟨rfl, rfl⟩, rfl⟩ := Prod.mk.inj (hplain.symm.trans hplain')
    rw [hstep, hstep']
    exact ⟨⟨rfl, hcalls.trans hcalls'.symm, .inl (hlines.trans hlines'.symm)⟩, hstates⟩
  | compile source =>
    obtain ⟨result, noted, seen, s', t', hplain, hstep, hlines, hcalls, hstates⟩ :=
      Request.step_compile hstages observer source h
    obtain ⟨result', noted', seen', s'', t'', hplain', hstep', hlines', hcalls', rfl⟩ :=
      Request.step_compile (.refl stages') observer source (s := t) rfl
    obtain ⟨⟨rfl, rfl⟩, rfl⟩ := Prod.mk.inj (hplain.symm.trans hplain')
    rw [hstep, hstep']
    exact ⟨⟨rfl, hcalls.trans hcalls'.symm, .inl (hlines.trans hlines'.symm)⟩, hstates⟩

end Requests

/-! ### Sessions -/

/-- Every step of a session is what its request comes to on its own, and what is written is what all
of them write on their own, one after the other. The text that was written so far is `written`, and
`own` is what requests come to on their own. -/
structure Independent (written : σ → String) (start : σ) (own : Request (StateM ε) → Step σ ε)
    (requests : List (Request (StateM ε))) (steps : List (Step σ ε)) : Prop where
  agrees : List.Forall₂ (fun request step => step.Agrees (own request)) requests steps
  written_eq : ∀ i (h : i < steps.length), written steps[i].after.1 =
    written start ++ String.join
      ((requests.take (i + 1)).map fun request => written (own request).after.1)
  front : ∀ request ∈ requests, request.IsFront → written (own request).after.1 = ""

namespace Independent

variable {written : σ → String} {start : σ} {own : Request (StateM ε) → Step σ ε}

theorem nil : Independent written start own [] [] where
  agrees := .nil
  written_eq _ h := absurd h (Nat.not_lt_zero _)
  front _ h := absurd h List.not_mem_nil

theorem cons {request : Request (StateM ε)} {requests : List (Request (StateM ε))}
    {step : Step σ ε} {steps : List (Step σ ε)} (hagrees : step.Agrees (own request))
    (hwritten : written step.after.1 = written start ++ written (own request).after.1)
    (hfront : request.IsFront → written (own request).after.1 = "")
    (h : Independent written step.after.1 own requests steps) :
    Independent written start own (request :: requests) (step :: steps) where
  agrees := .cons hagrees h.agrees
  written_eq i hi := by
    cases i with
    | zero => simpa using hwritten
    | succ i =>
      have hrest := h.written_eq i (Nat.lt_of_succ_lt_succ hi)
      rw [hwritten] at hrest
      simpa [String.append_assoc] using hrest
  front := List.forall_mem_cons.mpr ⟨hfront, h.front⟩

end Independent

theorem Stages.inside_standard (interpret : Code → StateM σ Ending) :
    (Stages.standard interpret).inside =
      (.standard fun code => atStages (interpret code) : Stages (StateM (σ × ε))) := rfl

/-- To read a source or lower it to code changes nothing. -/
theorem Request.after_of_isFront (interpret : Code → StateM σ Ending)
    (observer : Observer (StateM ε)) {request : Request (StateM ε)} (h : request.IsFront)
    (s : σ × ε) : (request.step (.standard interpret) observer s).after = s := by
  cases request with
  | run _ _ _ => exact h.elim
  | execute _ _ => exact h.elim
  | parse source =>
    show ((Answer.parsed <$> (Stages.standard interpret).inside.program? source).run s).2 = s
    rw [Stages.inside_standard, Stages.standard_program?]
    rfl
  | compile source =>
    show ((Answer.compiled <$> (Stages.standard interpret).inside.code? source).run s).2 = s
    rw [Stages.inside_standard, Stages.standard_code?]
    rfl

/-- With a writer that refuses nothing, requests do not depend on the ones before them: each one
comes to what it comes to where nothing was written yet, and what is written is what they all write
there, one after the other. To read a source or lower it to code writes nothing. -/
theorem session_independent {writer : Writer σ} {written : σ → String}
    (hwriter : writer.Records written) {fresh : σ} (hfresh : written fresh = "") (limit : Nat)
    (observer : Observer (StateM ε)) (requests : List (Request (StateM ε))) (start : σ)
    (e e' : ε) :
    Independent written start
      (fun request =>
        request.step (.standard (machineStage writer limit)) observer (fresh, e'))
      requests
      (session (.standard (machineStage writer limit)) observer requests (start, e)) := by
  induction requests generalizing start e with
  | nil => exact .nil
  | cons request rest ih =>
    have hstages := Stages.alike_standard hwriter hwriter limit (written start) ""
    have hstart : WrittenBehind written (written start) written "" start fresh :=
      ⟨"", by simp, by simpa using hfresh⟩
    obtain ⟨hagrees, text, hwritten, hwritten'⟩ :=
      Request.step_alike hstages observer request (s := (start, e)) (t := (fresh, e')) hstart
    refine .cons hagrees ?_ ?_ (ih _ _)
    · rw [hwritten, hwritten', String.empty_append]
    · intro hfront
      rw [Request.after_of_isFront (machineStage writer limit) observer hfront]
      exact hfresh

/-- A traced run that breaks off behind a line, a source without code and another run. -/
def threeRequests : List (Request (StateM (List String))) :=
  [.run "print(true)\nprint(-true)" ⟨true, .absorb⟩ fun line => modify (line :: ·),
    .compile "x =", .execute "print(false)" .disabled]

/-- With the writer that keeps all lines, both runs write a line behind what was written earlier. -/
theorem independent_keeping :
    Writer.keeping.Records Writer.keptText ∧ Writer.keptText [] = "" ∧
      Independent Writer.keptText ["earlier"]
        (fun request : Request (StateM (List String)) =>
          request.step (.standard (machineStage .keeping 100)) ⟨fun _ => pure (), pure 0⟩ ([], []))
        threeRequests
        (session (.standard (machineStage .keeping 100)) ⟨fun _ => pure (), pure 0⟩ threeRequests
          (["earlier"], ["earlier line of a trace"])) ∧
      (session (.standard (machineStage .keeping 100)) ⟨fun _ => pure (), pure 0⟩ threeRequests
          (["earlier"], ["earlier line of a trace"])).map
          (fun step => Writer.keptText step.after.1) =
        ["earlier\ntrue\n", "earlier\ntrue\n", "earlier\ntrue\nfalse\n"] :=
  ⟨Writer.records_keeping, rfl, session_independent Writer.records_keeping rfl 100
    ⟨fun _ => pure (), pure 0⟩ _ ["earlier"] ["earlier line of a trace"] [], by decide +kernel⟩

end Kestrel
