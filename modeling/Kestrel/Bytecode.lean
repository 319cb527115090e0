import Kestrel.Value

/-!
# Bytecode

Code is a sequence of instructions for a machine with an operand stack and numbered registers.

## Main definitions

- `Register` — the number of a register
- `Instruction`, `Code` — instructions and sequences of them
- `listing` — code as text, one line per instruction
-/

namespace Kestrel

def registerCount : Nat := 65536

/-- The number of a register. -/
structure Register where
  index : Nat
  index_lt : index < registerCount
  deriving DecidableEq, Repr

namespace Register

def first : Register := ⟨0, by decide⟩

instance : Inhabited Register := ⟨first⟩

/-- Registers are in the order of their numbers. -/
instance : Ord Register := ⟨compareOn index⟩

instance : Std.TransOrd Register := inferInstanceAs (Std.TransCmp (compareOn index))

instance : Std.LawfulEqOrd Register where
  eq_of_compare {a b} h := by
    cases a
    cases b
    simpa using Std.LawfulEqOrd.eq_of_compare (α := Nat) h

def text (r : Register) : String := "r" ++ toString r.index

end Register

/-- What the machine can do in one step. Jumps name the index of an instruction. -/
inductive Instruction where
  /-- Pushes a value. -/
  | push (value : Value)
  /-- Drops the top of the stack. -/
  | pop
  /-- Pushes the value of a register. -/
  | load (register : Register)
  /-- Moves the top of the stack into a register. -/
  | store (register : Register)
  /-- Replaces the top of the stack by the result of an operator. -/
  | unary (op : UnaryOp)
  /-- Replaces the two values on top of the stack by the result of an operator. -/
  | binary (op : BinaryOp)
  /-- Goes on elsewhere. -/
  | jump (target : Nat)
  /-- Takes a boolean off the stack, and goes on elsewhere if it is false. -/
  | jumpIfFalse (target : Nat)
  /-- Takes a value off the stack and writes it. -/
  | print
  /-- Ends the run. -/
  | halt
  deriving DecidableEq

/-- A sequence of instructions. -/
abbrev Code := Array Instruction

def UnaryOp.mnemonic : UnaryOp → String
  | .neg => "neg"
  | .not => "not"

def BinaryOp.mnemonic : BinaryOp → String
  | .add => "add"
  | .sub => "sub"
  | .mul => "mul"
  | .div => "div"
  | .mod => "mod"
  | .pow => "pow"
  | .eq => "eq"
  | .ne => "ne"
  | .lt => "lt"
  | .le => "le"
  | .gt => "gt"
  | .ge => "ge"
  | .and => "and"
  | .or => "or"

def Instruction.text : Instruction → String
  | .push value => "push " ++ value.text
  | .pop => "pop"
  | .load register => "load " ++ register.text
  | .store register => "store " ++ register.text
  | .unary op => op.mnemonic
  | .binary op => op.mnemonic
  | .jump target => "jump " ++ toString target
  | .jumpIfFalse target => "jump_if_false " ++ toString target
  | .print => "print"
  | .halt => "halt"

/-- A number with blanks in front, so that it takes at least `width` characters. -/
def padded (width n : Nat) : String :=
  let digits := Nat.toDigits 10 n
  String.ofList (List.replicate (width - digits.length) ' ' ++ digits)

/-- Code as text, one line per instruction. Every line starts with the index of its instruction, as
wide as the last one. -/
def listing (code : Code) : List String :=
  let width := Number.digitCount (code.size - 1)
  code.toList.mapIdx fun i instruction => padded width i ++ ": " ++ instruction.text

end Kestrel
