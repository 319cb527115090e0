import Kestrel.Text.Span

/-!
# Programs

A program is a list of statements. Every expression and every statement carries the span of the
source text that it was read from.

## Main definitions

- `UnaryOp`, `BinaryOp`, `AssignOp` — the operators, with the signs that programs write
- `Expr` — expressions
- `Stmt`, `Program` — statements and lists of them

## Design notes

An `if` without an `else` and one with an empty `else` block are different programs, so they are
two constructors of `Stmt`.
-/

namespace Kestrel

/-- Operators with one operand. -/
inductive UnaryOp where
  | neg | not
  deriving DecidableEq, Repr

/-- Operators with two operands. -/
inductive BinaryOp where
  | add | sub | mul | div | mod | pow
  | eq | ne | lt | le | gt | ge
  | and | or
  deriving DecidableEq, Repr

/-- The sign of an operator. -/
def BinaryOp.sign : BinaryOp → String
  | .add => "+"
  | .sub => "-"
  | .mul => "*"
  | .div => "/"
  | .mod => "%"
  | .pow => "^"
  | .eq => "=="
  | .ne => "!="
  | .lt => "<"
  | .le => "<="
  | .gt => ">"
  | .ge => ">="
  | .and => "and"
  | .or => "or"

/-- Assignments: plain ones, and those that combine the old value with the new one. -/
inductive AssignOp where
  | set | add | sub | mul | div
  deriving DecidableEq, Repr

/-- The sign of an assignment. -/
def AssignOp.sign : AssignOp → String
  | .set => "="
  | .add => "+="
  | .sub => "-="
  | .mul => "*="
  | .div => "/="

/-- The operator that combines the old value with the new one. -/
def AssignOp.binaryOp? : AssignOp → Option BinaryOp
  | .set => none
  | .add => some .add
  | .sub => some .sub
  | .mul => some .mul
  | .div => some .div

/-- Expressions. -/
inductive Expr where
  | number (value : Float) (span : Span)
  | boolean (value : Bool) (span : Span)
  | name (text : String) (span : Span)
  | unary (op : UnaryOp) (operand : Expr) (span : Span)
  | binary (left : Expr) (op : BinaryOp) (right : Expr) (span : Span)
  deriving DecidableEq

/-- The source text that an expression was read from. -/
def Expr.span : Expr → Span
  | .number _ span | .boolean _ span | .name _ span | .unary _ _ span | .binary _ _ _ span => span

/-- Statements. -/
inductive Stmt where
  | expression (value : Expr) (span : Span)
  | assign (name : String) (op : AssignOp) (value : Expr) (span : Span)
  | print (value : Expr) (span : Span)
  | ifThen (condition : Expr) (body : List Stmt) (span : Span)
  | ifElse (condition : Expr) (body otherwise : List Stmt) (span : Span)
  | whileDo (condition : Expr) (body : List Stmt) (span : Span)
  | breakLoop (span : Span)
  | continueLoop (span : Span)

/-- The source text that a statement was read from. -/
def Stmt.span : Stmt → Span
  | .expression _ span | .assign _ _ _ span | .print _ span | .ifThen _ _ span
  | .ifElse _ _ _ span | .whileDo _ _ span | .breakLoop span | .continueLoop span => span

/-- A program: statements in order. -/
abbrev Program := List Stmt

/-- The expression made from two others: its span covers both. -/
def Expr.join (left : Expr) (op : BinaryOp) (right : Expr) : Expr :=
  .binary left op right (left.span.merge right.span)

end Kestrel
