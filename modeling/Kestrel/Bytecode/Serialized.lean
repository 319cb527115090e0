import Kestrel.Bytecode

/-!
# Bytecode files

Code is kept in files as text: a list of named values in brackets, one instruction per line.

## Main definitions

- `Serialized.numbers` — how numbers are written
- `serialize` — the text of a bytecode file
-/

namespace Kestrel

/-- Digits always stand at their places, and whole numbers end in `.0`. -/
def Serialized.numbers : Number.Style := ⟨.up, none, true, false⟩

def Value.serialized : Value → String
  | .number x => "Number(" ++ Serialized.numbers.text x ++ ")"
  | .boolean b => "Bool(" ++ (if b then "true" else "false") ++ ")"

/-- The name of a unary operator in a bytecode file. -/
def UnaryOp.serialized : UnaryOp → String
  | .neg => "Neg"
  | .not => "Not"

/-- The name of a binary operator in a bytecode file. -/
def BinaryOp.serialized : BinaryOp → String
  | .add => "Add"
  | .sub => "Sub"
  | .mul => "Mul"
  | .div => "Div"
  | .mod => "Mod"
  | .pow => "Pow"
  | .eq => "Eq"
  | .ne => "Ne"
  | .lt => "Lt"
  | .le => "Le"
  | .gt => "Gt"
  | .ge => "Ge"
  | .and => "And"
  | .or => "Or"

/-- An instruction in a bytecode file. -/
def Instruction.serialized : Instruction → String
  | .push value => "Push(" ++ value.serialized ++ ")"
  | .pop => "Pop"
  | .load register => "Load((" ++ toString register.index ++ "))"
  | .store register => "Store((" ++ toString register.index ++ "))"
  | .unary op => op.serialized
  | .binary op => op.serialized
  | .jump target => "Jump(" ++ toString target ++ ")"
  | .jumpIfFalse target => "JumpIfFalse(" ++ toString target ++ ")"
  | .print => "Print"
  | .halt => "Halt"

def serialize (code : Code) : String :=
  if code.isEmpty then "[]"
  else
    "[\n" ++ String.join (code.toList.map fun i => "    " ++ i.serialized ++ ",\n") ++ "]"

end Kestrel
