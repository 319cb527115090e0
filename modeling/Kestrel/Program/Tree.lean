import Kestrel.Program

/-!
# Programs as plain trees

Two notations write a program out with all its parts and spans: JSON and an indented outline. Both
start from the same plain tree of named records, lists and leaves.

## Main definitions

- `Tree` — plain trees
- `Program.tree` — a program as a plain tree
-/

namespace Kestrel

/-- Plain trees of data. -/
inductive Tree where
  | word (name : String)
  | text (value : String)
  | number (value : Float)
  | count (value : Nat)
  | flag (value : Bool)
  | absent
  | present (value : Tree)
  | list (items : List Tree)
  /-- Named parts of a value whose type is known from where it stands. -/
  | record (name : String) (fields : List (String × Tree))
  /-- Named parts of one of several kinds of value; the name says which kind. -/
  | variant (name : String) (fields : List (String × Tree))

/-- A span as a tree. -/
def Span.tree (s : Span) : Tree :=
  .record "Span" [("start", .count s.start), ("end", .count s.stop)]

def UnaryOp.label : UnaryOp → String
  | .neg => "Neg"
  | .not => "Not"

def BinaryOp.label : BinaryOp → String
  | .add => "Add"
  | .sub => "Sub"
  | .mul => "Mul"
  | .div => "Div"
  | .mod => "Mod"
  | .pow => "Pow"
  | .eq => "Eq"
  | .ne => "Ne"
  | .lt => "Lt"
  | .le => "Le"
  | .gt => "Gt"
  | .ge => "Ge"
  | .and => "And"
  | .or => "Or"

def AssignOp.label : AssignOp → String
  | .set => "Assign"
  | .add => "AddAssign"
  | .sub => "SubAssign"
  | .mul => "MulAssign"
  | .div => "DivAssign"

/-- An expression as a tree. -/
def Expr.tree : Expr → Tree
  | .number value span => .variant "Number" [("value", .number value), ("span", span.tree)]
  | .boolean value span => .variant "Boolean" [("value", .flag value), ("span", span.tree)]
  | .name text span => .variant "Identifier" [("name", .text text), ("span", span.tree)]
  | .unary op operand span =>
    .variant "Unary" [("op", .word op.label), ("operand", operand.tree), ("span", span.tree)]
  | .binary left op right span =>
    .variant "Binary" [("left", left.tree), ("op", .word op.label), ("right", right.tree),
      ("span", span.tree)]

mutual

def Stmt.tree : Stmt → Tree
  | .expression value span => .variant "Expression" [("expr", value.tree), ("span", span.tree)]
  | .assign name op value span =>
    .variant "Assignment" [("name", .text name), ("op", .word op.label), ("value", value.tree),
      ("span", span.tree)]
  | .print value span => .variant "Print" [("value", value.tree), ("span", span.tree)]
  | .ifThen condition body span =>
    .variant "If" [("condition", condition.tree), ("then_block", .list (Stmt.trees body)),
      ("else_block", .absent), ("span", span.tree)]
  | .ifElse condition body otherwise span =>
    .variant "If" [("condition", condition.tree), ("then_block", .list (Stmt.trees body)),
      ("else_block", .present (.list (Stmt.trees otherwise))), ("span", span.tree)]
  | .whileDo condition body span =>
    .variant "While" [("condition", condition.tree), ("body", .list (Stmt.trees body)),
      ("span", span.tree)]
  | .breakLoop span => .variant "Break" [("span", span.tree)]
  | .continueLoop span => .variant "Continue" [("span", span.tree)]

/-- The statements of a block as trees. -/
def Stmt.trees : List Stmt → List Tree
  | [] => []
  | s :: rest => s.tree :: Stmt.trees rest

end

def Program.tree (program : Program) : Tree :=
  .list (program.map Stmt.tree)

/-- A line break and some blanks at the start of the next line. -/
def newLine (indent : Nat) : String :=
  String.ofList ('\n' :: List.replicate indent ' ')

end Kestrel
