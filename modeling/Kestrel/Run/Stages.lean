import Kestrel.Bytecode.Lowering
import Kestrel.Program.Reading
import Kestrel.Run.Failure
import Kestrel.Token.Scan

/-!
# The stages of a run

Stages are actions in some monad, so that one may keep a state, write output or count how often it
is used. What a run needs of them is only what they take and what they give.

## Main definitions

- `Ending` — how a run of code ended
- `Stages` — the four stages
- `Stages.program?`, `Stages.code?` — the first stages alone, without running anything
- `Stages.standard` — the stages of the language itself
-/

namespace Kestrel

/-- How a run of code ended: what it had computed, and why it broke off if it did. -/
structure Ending where
  store : Store
  breakdown? : Option Breakdown

/-- The ending of a run on the machine. -/
def Execution.ending (execution : Execution) : Ending :=
  match execution.outcome with
  | .ok () => ⟨execution.store, none⟩
  | .error e => ⟨execution.store, some e.breakdown⟩

/-- The stages from a source text to the ending of a run. Splitting a text into tokens never
fails. -/
structure Stages (m : Type → Type) where
  lex : String → m (List Token)
  parse : List Token → m (Except Rejection Program)
  compile : Program → m (Except Rejection Code)
  interpret : Code → m Ending

namespace Stages

variable {m : Type → Type} [Monad m]

/-- Reads a source text as a program. -/
def program? (stages : Stages m) (source : String) : m (Except StageFailure Program) := do
  let tokens ← stages.lex source
  return (← stages.parse tokens).mapError .parse

/-- Reads a source text as a program and lowers it to code. -/
def code? (stages : Stages m) (source : String) : m (Except StageFailure Code) := do
  match ← stages.program? source with
  | .error failure => return .error failure
  | .ok program => return (← stages.compile program).mapError .compile

/-- The stages of the language, given a way to run code. -/
def standard (interpret : Code → m Ending) : Stages m where
  lex source := pure (tokenize source)
  parse tokens := pure ((Program.ofTokens tokens).mapError SyntaxError.rejection)
  compile program := pure (program.compile.mapError CompileError.rejection)
  interpret := interpret

end Stages

/-- Runs code on the machine; the writer's state is the state of the action. -/
def machineStage {σ : Type} (writer : Writer σ) (limit : Nat) (code : Code) : StateM σ Ending :=
  modifyGet fun output =>
    let (execution, output) := interpret writer limit code output
    (execution.ending, output)

end Kestrel
