import Kestrel.Bytecode.Scope
import Kestrel.Machine
import Kestrel.Program.Parser
import Kestrel.Report

/-!
# How a staged run fails

A program text goes through stages: it is split into tokens, read as a program, lowered to code and
run. Splitting never fails. A failure of another stage is known by that stage, a message and, as far
as there is one, a place: a span of the source while the text is understood, an instruction while
the code runs.

## Main definitions

- `Rejection`, `Breakdown` — why a text is not understood, and why a run broke off
- `Stage`, `StageFailure` — the failure of a stage
- `StageFailure.describe`, `StageFailure.locate` — a failure as one line, without and with its place
- `StageFailure.report` — what is told about a failure on the source
-/

namespace Kestrel

/-- Why a stage turned a text down. -/
structure Rejection where
  message : String
  span? : Option Span
  deriving DecidableEq, Repr, Inhabited

/-- Why a run broke off. -/
structure Breakdown where
  message : String
  instruction? : Option Nat
  deriving DecidableEq, Repr, Inhabited

/-- The rejection of a text that is not a program. -/
def SyntaxError.rejection (e : SyntaxError) : Rejection := ⟨e.message, some e.span⟩

/-- The rejection of a program that has no code. -/
def CompileError.rejection (e : CompileError) : Rejection := ⟨e.message, some e.span⟩

/-- What the machine says about its failure. -/
def RuntimeError.breakdown (e : RuntimeError) : Breakdown := ⟨e.message, e.instruction?⟩

/-- The stages that may fail. -/
inductive Stage where
  | parse
  | compile
  | interpret
  deriving DecidableEq, Repr

def Stage.text : Stage → String
  | .parse => "parse"
  | .compile => "compile"
  | .interpret => "interpret"

/-- The failure of a stage. -/
inductive StageFailure where
  | parse (rejection : Rejection)
  | compile (rejection : Rejection)
  | interpret (breakdown : Breakdown)
  deriving DecidableEq, Repr, Inhabited

namespace StageFailure

def stage : StageFailure → Stage
  | .parse _ => .parse
  | .compile _ => .compile
  | .interpret _ => .interpret

/-- The span of the source that a failure is about. -/
def span? : StageFailure → Option Span
  | .parse rejection => rejection.span?
  | .compile rejection => rejection.span?
  | .interpret _ => none

/-- The instruction at which a run broke off. -/
def instruction? : StageFailure → Option Nat
  | .interpret breakdown => breakdown.instruction?
  | _ => none

/-- A failure in one line. -/
def describe : StageFailure → String
  | .parse rejection => "syntax error: " ++ rejection.message
  | .compile rejection => "compile error: " ++ rejection.message
  | .interpret ⟨message, none⟩ => "runtime error: " ++ message
  | .interpret ⟨message, some instruction⟩ =>
    "runtime error at instruction " ++ toString instruction ++ ": " ++ message

/-- A failure in one line, with its line and column in the source if there are any. -/
def locate (failure : StageFailure) (source : String) : String :=
  match failure.span? with
  | none => failure.describe
  | some span =>
    let place := span.location source
    failure.describe ++ " (line " ++ toString place.line ++ ", column " ++ toString place.column
      ++ ")"

/-- What is told about a failure, given the name of the source. -/
def report (failure : StageFailure) (file : String) : Report :=
  match failure with
  | .parse ⟨message, span?⟩ => ⟨.form, message, span?, file, []⟩
  | .compile ⟨message, span?⟩ => ⟨.meaning, message, span?, file, []⟩
  | .interpret ⟨message, instruction?⟩ =>
    ⟨.run, message, none, file, instruction?.toList.map fun i => "at instruction " ++ toString i⟩

end StageFailure

end Kestrel
