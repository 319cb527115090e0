import Kestrel.Proofs.Run.Requests

/-!
# Which sources are legal

A source can be read, lowered to code and run, each on its own. All of these agree on whether it is
legal: they turn down the same sources with the same failures, and what is turned down is not run.

## Main definitions

- `Agreement` — what reading, lowering and running a source say about it is the same

## Main statements

- `Stages.agreement_standard` — so it is on the stages of the language
-/

namespace Kestrel

variable {σ ε : Type}

/-- Reading a source, lowering it to code and running it agree: `read`, `lowered` and `ran` are
their results, the last one with the state behind it. The state before is `before`, and
`interpreted` tells how code runs from there. -/
structure Agreement (before : σ) (interpreted : Code → Ending × σ)
    (read : Except StageFailure Program) (lowered : Except StageFailure Code)
    (ran : Except StageFailure Store × σ) : Prop where
  read_error_iff : ∀ failure,
    read = .error failure ↔ ran.1 = .error failure ∧ failure.stage = .parse
  lowered_of_read : ∀ failure, read = .error failure → lowered = .error failure
  lowered_error_iff : ∀ failure, lowered = .error failure ↔
    ran.1 = .error failure ∧ (failure.stage = .parse ∨ failure.stage = .compile)
  untouched : ∀ failure, lowered = .error failure → ran.2 = before
  ran_of_lowered : ∀ code, lowered = .ok code →
    ran = ((interpreted code).1.result, (interpreted code).2)

namespace Agreement

variable {before : σ} {interpreted : Code → Ending × σ}

/-- A source that is not a program is turned down everywhere. -/
theorem of_unread (rejection : Rejection) :
    Agreement before interpreted (.error (.parse rejection)) (.error (.parse rejection))
      (.error (.parse rejection), before) where
  read_error_iff failure := by
    refine ⟨?_, fun h => by cases h.1; rfl⟩
    rintro ⟨⟩
    exact ⟨rfl, rfl⟩
  lowered_of_read failure h := by
    cases h
    rfl
  lowered_error_iff failure := by
    refine ⟨?_, fun h => by cases h.1; rfl⟩
    rintro ⟨⟩
    exact ⟨rfl, .inl rfl⟩
  untouched _ _ := rfl
  ran_of_lowered _ h := nomatch h

/-- A program without code is turned down where it is lowered, and not run. -/
theorem of_unlowered (program : Program) (rejection : Rejection) :
    Agreement before interpreted (.ok program) (.error (.compile rejection))
      (.error (.compile rejection), before) where
  read_error_iff failure := by
    refine ⟨nofun, ?_⟩
    rintro ⟨⟨⟩, ⟨⟩⟩
  lowered_of_read _ h := nomatch h
  lowered_error_iff failure := by
    refine ⟨?_, fun h => by cases h.1; rfl⟩
    rintro ⟨⟩
    exact ⟨rfl, .inr rfl⟩
  untouched _ _ := rfl
  ran_of_lowered _ h := nomatch h

/-- What has code can only fail while that runs. -/
theorem of_lowered (program : Program) (code : Code) :
    Agreement before interpreted (.ok program) (.ok code)
      ((interpreted code).1.result, (interpreted code).2) where
  read_error_iff failure := by
    refine ⟨nofun, ?_⟩
    rintro ⟨hran, hstage⟩
    obtain ⟨breakdown, rfl⟩ := Ending.exists_breakdown_of_result hran
    cases hstage
  lowered_of_read _ h := nomatch h
  lowered_error_iff failure := by
    refine ⟨nofun, ?_⟩
    rintro ⟨hran, hstage⟩
    obtain ⟨breakdown, rfl⟩ := Ending.exists_breakdown_of_result hran
    rcases hstage with hstage | hstage <;> cases hstage
  untouched _ h := nomatch h
  ran_of_lowered _ h := by
    cases h
    rfl

end Agreement

/-- On the stages of the language, whatever runs the code and whoever is told of the run, reading a
source, lowering it and running it agree. -/
theorem Stages.agreement_standard (interpret : Code → StateM σ Ending)
    (observer : Observer (StateM ε)) (tracer : Tracer (StateM ε)) (source : String) (s : σ × ε) :
    Agreement s.1 (fun code => (interpret code).run s.1)
      (((standard interpret).program? source).run s.1).1
      (((standard interpret).code? source).run s.1).1
      (((execute (standard interpret).inside observer.outside tracer.outside source).run s).1,
        ((execute (standard interpret).inside observer.outside tracer.outside source).run s).2.1)
      := by
  rw [execute_outside, standard_runSource, standard_program?, standard_code?]
  obtain ⟨rejection, hread, hlowered⟩ | ⟨program, rejection, hread, hlowered⟩ |
    ⟨program, code, hread, hlowered⟩ := Code.ofSource_cases source
  all_goals rw [hread, hlowered]
  · exact .of_unread rejection
  · exact .of_unlowered program rejection
  · exact .of_lowered program code

end Kestrel
