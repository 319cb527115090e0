import Kestrel.Program.Summary
import Kestrel.Run.Event
import Kestrel.Run.Stages
import Kestrel.Run.Trace
import Kestrel.Text.Pieces

/-!
# Staged runs

A staged run takes a source text through the stages one after the other, up to the first that
fails. It announces what each stage produced, and if it is traced it writes a section for each stage
that it starts.

## Main definitions

- `Observer` — who is told of a run, and who knows the time
- `execute` — a run of all stages, with its result
- `FailurePolicy`, `RunConfig`, `run` — a run whose caller chose what becomes of a failure

## Design notes

Trace and events never reach the stages, and the policy looks at the result alone, so neither can
change what a run does. The section of a stage has its banner before the stage starts and its
contents only after the stage succeeded.
-/

namespace Kestrel

/-- Who is told of the events of a run, and a clock in nanoseconds. -/
structure Observer (m : Type → Type) where
  announce : Event → m Unit
  clock : m Nat

section Execution

variable {m : Type → Type} [Monad m] (stages : Stages m) (observer : Observer m)

/-- Runs code, in the last section of a trace. -/
def executeCode (tracer : Tracer m) (code : Code) : m (Except StageFailure Store) := do
  let tracer ← tracer.banner "Start bytecode interpreter"
  let ending ← stages.interpret code
  match ending.breakdown? with
  | some breakdown => return .error (.interpret breakdown)
  | none =>
    let store := ending.store
    observer.announce (.interpreted store.stack.length store.registers.size)
    tracer.lines fun _ =>
      ["Stack at end of execution:", store.stackText,
        "Registers at end of execution:", store.registersText]
    return .ok store

/-- Lowers a program to code and runs it, in the last two sections of a trace. -/
def executeProgram (tracer : Tracer m) (program : Program) : m (Except StageFailure Store) := do
  let tracer ← tracer.banner "Start bytecode compiler"
  match ← stages.compile program with
  | .error rejection => return .error (.compile rejection)
  | .ok code =>
    observer.announce (.compiled code.size)
    tracer.lines fun _ => listing code
    executeCode stages observer tracer code

/-- Reads tokens as a program and goes on with it, in the last three sections of a trace. -/
def executeTokens (tracer : Tracer m) (tokens : List Token) : m (Except StageFailure Store) := do
  let tracer ← tracer.banner "Start parser"
  match ← stages.parse tokens with
  | .error rejection => return .error (.parse rejection)
  | .ok program =>
    observer.announce (.parsed program.length)
    tracer.lines fun _ => "Parsed AST:" :: program.map Stmt.summary
    executeProgram stages observer tracer program

/-- Takes a source text through all stages, in the last four sections of a trace. -/
def executeSource (tracer : Tracer m) (source : String) : m (Except StageFailure Store) := do
  let tracer ← tracer.banner "Start lexer"
  let tokens ← stages.lex source
  observer.announce (.lexed tokens.length)
  tracer.lines fun _ =>
    ("Number of tokens: " ++ toString tokens.length) :: tokens.map Token.describe
  executeTokens stages observer tracer tokens

/-- Tells of a failure, if the run had one. -/
def tellFailure (tracer : Tracer m) (source : String) : Except StageFailure Store → m Unit
  | .ok _ => pure ()
  | .error failure => do
    observer.announce (.stopped failure)
    tracer.lines fun _ => [failure.locate source]

/-- Runs a source text. The result is what the run has computed, or the failure of the first stage
that failed. -/
def execute (tracer : Tracer m) (source : String) : m (Except StageFailure Store) := do
  observer.announce (.started source.utf8ByteSize)
  let started ← if tracer.isEnabled then observer.clock else pure 0
  let tracer ← tracer.banner "Source code"
  tracer.lines fun _ => (Text.pieces '\n' source.toList).map String.ofList
  let result ← executeSource stages observer tracer source
  tellFailure observer tracer source result
  let stopped ← if tracer.isEnabled then observer.clock else pure 0
  tracer.lines fun _ => Trace.elapsed (stopped - started)
  return result

end Execution

/-- What becomes of the failure of a run. -/
inductive FailurePolicy where
  /-- The caller is told of success. -/
  | absorb
  /-- The caller is told of the failure. -/
  | propagate
  deriving DecidableEq, Repr, Inhabited

/-- What the caller of a run is told. -/
def FailurePolicy.apply {α : Type} (policy : FailurePolicy) :
    Except StageFailure α → Except StageFailure Unit
  | .ok _ => .ok ()
  | .error failure =>
    match policy with
    | .absorb => .ok ()
    | .propagate => .error failure

/-- How a run is to be done. -/
structure RunConfig where
  verbose : Bool := false
  policy : FailurePolicy := .absorb
  deriving DecidableEq, Repr, Inhabited

/-- Runs a source text, and writes its trace to `sink` if the run is to be verbose. -/
def run {m : Type → Type} [Monad m] (stages : Stages m) (observer : Observer m)
    (sink : String → m Unit) (config : RunConfig) (source : String) :
    m (Except StageFailure Unit) := do
  let result ← execute stages observer (.new config.verbose sink) source
  return config.policy.apply result

end Kestrel
