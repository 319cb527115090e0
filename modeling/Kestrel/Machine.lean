import Std.Data.TreeMap
import Kestrel.Bytecode

/-!
# The machine

The machine runs code step by step on an operand stack and registers, and writes lines to a writer
that may refuse them. A run ends at `halt`, behind the last instruction, at the first fault, or
when its budget of steps is used up.

## Main definitions

- `Writer` — where printed lines go
- `Fault`, `RuntimeError` — why a run fails, and where
- `Machine` — the state of a run
- `step` — what one instruction does
- `runFor` — a run with a number of steps left
- `interpret` — a whole run: a fresh machine, the run itself, and the flush at its end

## Design notes

An operand that an instruction has taken stays taken when the instruction faults, and a fault leaves
everything else as it was, with one exception. A line comes to the writer in parts, the text of a
value and then the end of the line, so a writer that refuses a line may have written some of it
before. That nothing is written of what is refused is a property of some writers, and not of the
machine.
-/

namespace Kestrel

/-- A place where lines are written, with states of type `σ`. It may refuse a line or a flush with
a reason. -/
structure Writer (σ : Type) where
  line : String → σ → Except String σ
  flush : σ → Except String σ
  /-- The state behind a line that was refused. Nothing of it was written unless the writer says
  otherwise. -/
  refused : String → σ → σ := fun _ output => output

/-- The writer that keeps all lines, the last one in front, and refuses nothing. -/
def Writer.keeping : Writer (List String) where
  line text written := .ok (text :: written)
  flush written := .ok written

/-- Why an instruction cannot be carried out. -/
inductive Fault where
  | stackUnderflow
  | unsetRegister (register : Register)
  | jumpOutOfBounds (target : Nat)
  | conditionNotBoolean (found : ValueType)
  | operator (fault : OperatorFault)
  | outputRefused (reason : String)
  | stepLimit (limit : Nat)
  deriving DecidableEq, Repr

def Fault.message : Fault → String
  | .stackUnderflow => "stack underflow"
  | .unsetRegister register => "read of unset register " ++ register.text
  | .jumpOutOfBounds target => "jump target " ++ toString target ++ " out of bounds"
  | .conditionNotBoolean found => "condition must be a boolean, found " ++ found.describe
  | .operator fault => fault.message
  | .outputRefused reason => "failed to write output: " ++ reason
  | .stepLimit limit => "step limit of " ++ toString limit ++ " instructions exceeded"

/-- Why a run failed: a fault at an instruction, or a refused flush after all of them. -/
inductive RuntimeError where
  | fault (cause : Fault) (instruction : Nat)
  | flushRefused (reason : String)
  deriving DecidableEq, Repr

def RuntimeError.message : RuntimeError → String
  | .fault cause _ => cause.message
  | .flushRefused reason => "failed to flush output: " ++ reason

/-- The instruction at which an error arose, if it arose at one. -/
def RuntimeError.instruction? : RuntimeError → Option Nat
  | .fault _ instruction => some instruction
  | .flushRefused _ => none

/-- What a run has computed: the operand stack, its top in front, and the registers that are set. -/
structure Store where
  stack : List Value
  registers : Std.TreeMap Register Value

namespace Store

/-- Nothing is on the stack, and no register is set. -/
def empty : Store := ⟨[], ∅⟩

/-- The value of a register, if it is set. -/
def register? (store : Store) (register : Register) : Option Value :=
  store.registers[register]?

/-- The stack as text, its bottom first. -/
def stackText (store : Store) : String :=
  "[" ++ String.intercalate ", " (store.stack.reverse.map Value.text) ++ "]"

/-- The registers as text, in order. -/
def registersText (store : Store) : String :=
  "\x7b" ++ String.intercalate ", " (store.registers.toList.map fun (register, value) =>
    register.text ++ ": " ++ value.text) ++ "\x7d"

end Store

/-- The state of a run: the index of the next instruction, what is computed, and the state of the
writer. -/
structure Machine (σ : Type) where
  next : Nat
  stack : List Value
  registers : Std.TreeMap Register Value
  output : σ

/-- A machine at the start of a run. -/
def Machine.start {σ : Type} (output : σ) : Machine σ := ⟨0, [], ∅, output⟩

/-- What the run has computed so far. -/
def Machine.store {σ : Type} (m : Machine σ) : Store := ⟨m.stack, m.registers⟩

/-- What becomes of a run at one instruction. -/
inductive Progress (σ : Type) where
  | running (m : Machine σ)
  | halted (m : Machine σ)
  | faulted (fault : Fault) (m : Machine σ)

section Running

variable {σ : Type} (writer : Writer σ)

/-- Goes on at `target`, which may be any instruction or the end of code of this size. -/
def Machine.goTo (size target : Nat) (m : Machine σ) : Progress σ :=
  if target ≤ size then .running { m with next := target }
  else .faulted (.jumpOutOfBounds target) m

/-- What an instruction of code of this size does. -/
def step (size : Nat) (instruction : Instruction) (m : Machine σ) : Progress σ :=
  match instruction with
  | .push value => .running { m with next := m.next + 1, stack := value :: m.stack }
  | .pop =>
    match m.stack with
    | _ :: stack => .running { m with next := m.next + 1, stack }
    | [] => .faulted .stackUnderflow m
  | .load register =>
    match m.registers[register]? with
    | some value => .running { m with next := m.next + 1, stack := value :: m.stack }
    | none => .faulted (.unsetRegister register) m
  | .store register =>
    match m.stack with
    | value :: stack =>
      .running
        { m with next := m.next + 1, stack, registers := m.registers.insert register value }
    | [] => .faulted .stackUnderflow m
  | .unary op =>
    match m.stack with
    | operand :: stack =>
      match op.apply operand with
      | .ok value => .running { m with next := m.next + 1, stack := value :: stack }
      | .error fault => .faulted (.operator fault) { m with stack }
    | [] => .faulted .stackUnderflow m
  | .binary op =>
    match m.stack with
    | right :: left :: stack =>
      match op.apply left right with
      | .ok value => .running { m with next := m.next + 1, stack := value :: stack }
      | .error fault => .faulted (.operator fault) { m with stack }
    | _ => .faulted .stackUnderflow { m with stack := [] }
  | .jump target => m.goTo size target
  | .jumpIfFalse target =>
    match m.stack with
    | .boolean true :: stack => .running { m with next := m.next + 1, stack }
    | .boolean false :: stack => Machine.goTo size target { m with stack }
    | value :: stack => .faulted (.conditionNotBoolean value.type) { m with stack }
    | [] => .faulted .stackUnderflow m
  | .print =>
    match m.stack with
    | value :: stack =>
      match writer.line value.text m.output with
      | .ok output => .running { m with next := m.next + 1, stack, output }
      | .error reason =>
        .faulted (.outputRefused reason)
          { m with stack, output := writer.refused value.text m.output }
    | [] => .faulted .stackUnderflow m
  | .halt => .halted m

/-- Runs on with `left` steps out of `limit`: the last state, and the fault that ended the run with
the index of its instruction. Behind the last instruction a run ends without using a step. -/
def runFor (code : Code) (limit : Nat) : (left : Nat) → Machine σ → Machine σ × Option (Fault × Nat)
  | 0, m =>
    match code[m.next]? with
    | none => (m, none)
    | some _ => (m, some (.stepLimit limit, m.next))
  | left + 1, m =>
    match code[m.next]? with
    | none => (m, none)
    | some instruction =>
      match step writer code.size instruction m with
      | .running m' => runFor code limit left m'
      | .halted m' => (m', none)
      | .faulted fault m' => (m', some (fault, m.next))

/-- The result of a run: what it had computed at its end, and how it ended. -/
structure Execution where
  store : Store
  outcome : Except RuntimeError Unit

/-- How a run ended, given its fault and the reason of a refused flush. A fault comes first. -/
def outcomeOf : Option (Fault × Nat) → Option String → Except RuntimeError Unit
  | some (fault, instruction), _ => .error (.fault fault instruction)
  | none, some reason => .error (.flushRefused reason)
  | none, none => .ok ()

/-- Runs code on a fresh machine with at most `limit` steps, and flushes the writer at the end. -/
def interpret (limit : Nat) (code : Code) (output : σ) : Execution × σ :=
  let (m, fault) := runFor writer code limit limit (.start output)
  match writer.flush m.output with
  | .ok output => (⟨m.store, outcomeOf fault none⟩, output)
  | .error reason => (⟨m.store, outcomeOf fault (some reason)⟩, m.output)

end Running

/-- The steps that a run may take unless told otherwise. -/
def defaultStepLimit : Nat := 10000000

end Kestrel
