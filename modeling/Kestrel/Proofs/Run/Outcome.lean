import Kestrel.Run.Staged

/-!
# What a run comes to

A run tells of itself: it announces events and writes a trace. Without all that, it is a short
program: the front stages read a source and lower it to code, and the last stage runs the code.

## Main definitions

- `Ending.result` — what a run gives when its code has ended
- `Stages.runCode`, `Stages.runProgram`, `Stages.runTokens`, `Stages.runSource` — runs that tell of
  nothing
- `Observer.silent` — nobody is told of the events of a run
- `Program.ofSource`, `Code.ofSource` — what the front stages of the language make of a source

## Main statements

- `execute_silent` — a run without a trace and without anybody to tell is such a run
- `Stages.runSource_eq` — it is the front stages, and then the last one
- `Stages.standard_code?` — the front stages of the language only look at the source
- `Code.ofSource_cases` — what can come of that
-/

namespace Kestrel

theorem mapError_error {ε ε' α : Type} (f : ε → ε') (e : ε) :
    (Except.error e : Except ε α).mapError f = .error (f e) := rfl

theorem mapError_ok {ε ε' α : Type} (f : ε → ε') (a : α) :
    (Except.ok a : Except ε α).mapError f = .ok a := rfl

/-- What a run gives when its code has ended. -/
def Ending.result (ending : Ending) : Except StageFailure Store :=
  match ending.breakdown? with
  | some breakdown => .error (.interpret breakdown)
  | none => .ok ending.store

theorem Ending.result_of_some {ending : Ending} {breakdown : Breakdown}
    (h : ending.breakdown? = some breakdown) : ending.result = .error (.interpret breakdown) := by
  simp only [result, h]

theorem Ending.result_of_none {ending : Ending} (h : ending.breakdown? = none) :
    ending.result = .ok ending.store := by
  simp only [result, h]

/-- When code has ended, only its run can have failed. -/
theorem Ending.exists_breakdown_of_result {ending : Ending} {failure : StageFailure}
    (h : ending.result = .error failure) : ∃ breakdown, failure = .interpret breakdown := by
  unfold result at h
  split at h
  · next breakdown _ => exact ⟨breakdown, (Except.error.inj h).symm⟩
  · cases h

/-- Nobody is told of the events of a run. -/
def Observer.silent {m : Type → Type} [Monad m] (clock : m Nat) : Observer m :=
  ⟨fun _ => pure (), clock⟩

@[simp] theorem Observer.announce_silent {m : Type → Type} [Monad m] (clock : m Nat)
    (event : Event) : (Observer.silent clock).announce event = pure () := rfl

/-- A source, read as a program. -/
def Program.ofSource (source : String) : Except StageFailure Program :=
  ((Program.ofTokens (tokenize source)).mapError SyntaxError.rejection).mapError .parse

/-- A source, lowered to code. -/
def Code.ofSource (source : String) : Except StageFailure Code :=
  match Program.ofSource source with
  | .error failure => .error failure
  | .ok program => (program.compile.mapError CompileError.rejection).mapError .compile

/-- A source is not a program, or a program without code, or there is code of it. -/
theorem Code.ofSource_cases (source : String) :
    (∃ rejection, Program.ofSource source = .error (.parse rejection) ∧
      Code.ofSource source = .error (.parse rejection)) ∨
    (∃ program rejection, Program.ofSource source = .ok program ∧
      Code.ofSource source = .error (.compile rejection)) ∨
    ∃ program code, Program.ofSource source = .ok program ∧ Code.ofSource source = .ok code := by
  unfold Code.ofSource Program.ofSource
  cases Program.ofTokens (tokenize source) with
  | error e => exact .inl ⟨e.rejection, rfl, rfl⟩
  | ok program =>
    right
    simp only [mapError_ok]
    cases program.compile with
    | error e => exact .inl ⟨program, e.rejection, rfl, rfl⟩
    | ok code => exact .inr ⟨program, code, rfl, rfl⟩

/-- A source with code is a program. -/
theorem Program.exists_of_code {source : String} {code : Code}
    (h : Code.ofSource source = .ok code) : ∃ program, Program.ofSource source = .ok program := by
  obtain ⟨_, -, herror⟩ | ⟨_, _, -, herror⟩ | ⟨program, _, hprogram, -⟩ :=
    Code.ofSource_cases source
  · cases h.symm.trans herror
  · cases h.symm.trans herror
  · exact ⟨program, hprogram⟩

variable {m : Type → Type} [Monad m] (stages : Stages m)

namespace Stages

def runCode (code : Code) : m (Except StageFailure Store) := do
  let ending ← stages.interpret code
  return ending.result

def runProgram (program : Program) : m (Except StageFailure Store) := do
  match ← stages.compile program with
  | .error rejection => return .error (.compile rejection)
  | .ok code => stages.runCode code

def runTokens (tokens : List Token) : m (Except StageFailure Store) := do
  match ← stages.parse tokens with
  | .error rejection => return .error (.parse rejection)
  | .ok program => stages.runProgram program

/-- Takes a source text through all stages, and tells of nothing. -/
def runSource (source : String) : m (Except StageFailure Store) := do
  let tokens ← stages.lex source
  stages.runTokens tokens

end Stages

variable [LawfulMonad m]

namespace Stages

/-- The front stages give code or a failure, and only code is run. -/
theorem runSource_eq (source : String) :
    stages.runSource source = stages.code? source >>= fun
      | .error failure => pure (.error failure)
      | .ok code => stages.runCode code := by
  simp only [runSource, runTokens, runProgram, code?, program?, bind_assoc, pure_bind]
  congr 1
  funext tokens
  congr 1
  funext result
  cases result with
  | error rejection => simp only [mapError_error, pure_bind]
  | ok program =>
    simp only [mapError_ok, bind_assoc, pure_bind]
    congr 1
    funext result
    cases result <;> rfl

theorem standard_program? (interpret : Code → m Ending) (source : String) :
    (standard interpret).program? source = pure (Program.ofSource source) := by
  simp only [program?, standard, pure_bind, Program.ofSource]

/-- The front stages of the language only look at the source. -/
theorem standard_code? (interpret : Code → m Ending) (source : String) :
    (standard interpret).code? source = pure (Code.ofSource source) := by
  simp only [code?, standard_program?, pure_bind, Code.ofSource]
  cases Program.ofSource source with
  | error failure => rfl
  | ok program => simp only [standard, pure_bind]

theorem standard_runSource (interpret : Code → m Ending) (source : String) :
    (standard interpret).runSource source =
      match Code.ofSource source with
      | .error failure => pure (.error failure)
      | .ok code => (standard interpret).runCode code := by
  rw [runSource_eq, standard_code?, pure_bind]

end Stages

/-! ### Runs that tell of nothing -/

section Silent

variable (clock : m Nat)

theorem executeCode_silent (code : Code) :
    executeCode stages (.silent clock) .disabled code = stages.runCode code := by
  simp only [executeCode, Stages.runCode, Tracer.banner_disabled, Tracer.lines_disabled,
    Observer.announce_silent, pure_bind]
  congr 1
  funext ending
  cases h : ending.breakdown? <;> simp only [Ending.result, h]

theorem executeProgram_silent (program : Program) :
    executeProgram stages (.silent clock) .disabled program = stages.runProgram program := by
  unfold executeProgram Stages.runProgram
  rw [Tracer.banner_disabled, pure_bind]
  congr 1
  funext result
  cases result with
  | error rejection => rfl
  | ok code =>
    simp only [Observer.announce_silent, Tracer.lines_disabled, pure_bind, executeCode_silent]

theorem executeTokens_silent (tokens : List Token) :
    executeTokens stages (.silent clock) .disabled tokens = stages.runTokens tokens := by
  unfold executeTokens Stages.runTokens
  rw [Tracer.banner_disabled, pure_bind]
  congr 1
  funext result
  cases result with
  | error rejection => rfl
  | ok program =>
    simp only [Observer.announce_silent, Tracer.lines_disabled, pure_bind, executeProgram_silent]

/-- A run without a trace, and without anybody to tell, is the stages alone. -/
theorem execute_silent (source : String) :
    execute stages (.silent clock) .disabled source = stages.runSource source := by
  have hoff : (Tracer.disabled : Tracer m).isEnabled = false := rfl
  have htell : ∀ result, tellFailure (.silent clock) (.disabled : Tracer m) source result =
      pure () := by
    intro result
    cases result <;> simp [tellFailure]
  simp [execute, executeSource, Stages.runSource, executeTokens_silent, htell, hoff]

end Silent

end Kestrel
