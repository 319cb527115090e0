import Kestrel.Number.Style
import Kestrel.Program

/-!
# Values and operators

A program computes with numbers and booleans. Arithmetic and order are for numbers, logic is for
booleans, and equality holds between values of one type only.

## Main definitions

- `Value`, `ValueType` — values and their types
- `OperatorFault` — why an operator has no result
- `UnaryOp.apply`, `BinaryOp.apply` — the results of the operators

## Design notes

Numbers compare as doubles do: the two zeros are equal, and nothing equals what is not a number.
Equality of values as data is finer; no operator uses it.
-/

namespace Kestrel

/-- A value of a running program. -/
inductive Value where
  | number (x : Float)
  | boolean (b : Bool)
  deriving DecidableEq, Inhabited

/-- The types of values. -/
inductive ValueType where
  | number
  | boolean
  deriving DecidableEq, Repr

def ValueType.describe : ValueType → String
  | .number => "number"
  | .boolean => "boolean"

namespace Value

def type : Value → ValueType
  | .number _ => .number
  | .boolean _ => .boolean

def text : Value → String
  | .number x => Number.text x
  | .boolean b => if b then "true" else "false"

/-- Whether two values are equal for a program. -/
def equals : Value → Value → Bool
  | .number a, .number b => a == b
  | .boolean a, .boolean b => a == b
  | _, _ => false

end Value

/-- Why an operator has no result for its operands. -/
inductive OperatorFault where
  | operands (op : BinaryOp) (left right : ValueType)
  | negation (operand : ValueType)
  | complement (operand : ValueType)
  | divisionByZero
  | moduloByZero
  deriving DecidableEq, Repr

def OperatorFault.message : OperatorFault → String
  | .operands op left right =>
    "cannot apply '" ++ op.sign ++ "' to " ++ left.describe ++ " and " ++ right.describe
  | .negation operand => "cannot negate " ++ operand.describe
  | .complement operand => "cannot apply 'not' to " ++ operand.describe
  | .divisionByZero => "division by zero"
  | .moduloByZero => "modulo by zero"

def UnaryOp.apply : UnaryOp → Value → Except OperatorFault Value
  | .neg, .number x => .ok (.number (-x))
  | .neg, v => .error (.negation v.type)
  | .not, .boolean b => .ok (.boolean !b)
  | .not, v => .error (.complement v.type)

/-- The result of an operator on numbers; there is none if the operator is for booleans. -/
def BinaryOp.onNumbers? : BinaryOp → Float → Float → Option (Except OperatorFault Value)
  | .add, a, b => some (.ok (.number (a + b)))
  | .sub, a, b => some (.ok (.number (a - b)))
  | .mul, a, b => some (.ok (.number (a * b)))
  | .div, a, b => some (if b == 0 then .error .divisionByZero else .ok (.number (a / b)))
  | .mod, a, b =>
    some (if b == 0 then .error .moduloByZero else .ok (.number (Number.remainder a b)))
  | .pow, a, b => some (.ok (.number (a ^ b)))
  | .lt, a, b => some (.ok (.boolean (decide (a < b))))
  | .le, a, b => some (.ok (.boolean (decide (a ≤ b))))
  | .gt, a, b => some (.ok (.boolean (decide (a > b))))
  | .ge, a, b => some (.ok (.boolean (decide (a ≥ b))))
  | .eq, _, _ | .ne, _, _ | .and, _, _ | .or, _, _ => none

/-- The result of an operator on booleans; there is none if the operator is for numbers. -/
def BinaryOp.onBooleans? : BinaryOp → Bool → Bool → Option Value
  | .and, a, b => some (.boolean (a && b))
  | .or, a, b => some (.boolean (a || b))
  | _, _, _ => none

def BinaryOp.apply (op : BinaryOp) (left right : Value) : Except OperatorFault Value :=
  match op with
  | .eq => .ok (.boolean (left.equals right))
  | .ne => .ok (.boolean !(left.equals right))
  | _ =>
    match left, right with
    | .number a, .number b =>
      (op.onNumbers? a b).getD (.error (.operands op .number .number))
    | .boolean a, .boolean b =>
      match op.onBooleans? a b with
      | some v => .ok v
      | none => .error (.operands op .boolean .boolean)
    | _, _ => .error (.operands op left.type right.type)

end Kestrel
