import Kestrel.Number.Style
import Kestrel.Program

/-!
# One line per statement

The summary of a statement is a single line of text. Every operator stands in parentheses with its
operands, so a summary shows how a program was understood.

## Main definitions

- `Expr.summary`, `Stmt.summary` — the text of an expression and of a statement
-/

namespace Kestrel

/-- The text of an expression, with all its parentheses. -/
def Expr.summary : Expr → String
  | .number value _ => Number.text value
  | .boolean value _ => if value then "true" else "false"
  | .name text _ => text
  | .unary .neg operand _ => "(-" ++ operand.summary ++ ")"
  | .unary .not operand _ => "(not " ++ operand.summary ++ ")"
  | .binary left op right _ =>
    "(" ++ left.summary ++ " " ++ op.sign ++ " " ++ right.summary ++ ")"

/-- A block of statements that are already summarised. -/
def blockSummary : List String → String
  | [] => "\x7b \x7d"
  | items => "\x7b " ++ String.intercalate "; " items ++ " \x7d"

mutual

def Stmt.summary : Stmt → String
  | .expression value _ => "Expression(" ++ value.summary ++ ")"
  | .assign name op value _ =>
    "Assignment(" ++ name ++ " " ++ op.sign ++ " " ++ value.summary ++ ")"
  | .print value _ => "Print(" ++ value.summary ++ ")"
  | .ifThen condition body _ =>
    "If(" ++ condition.summary ++ ") " ++ blockSummary (Stmt.summaries body)
  | .ifElse condition body otherwise _ =>
    "If(" ++ condition.summary ++ ") " ++ blockSummary (Stmt.summaries body) ++ " else "
      ++ blockSummary (Stmt.summaries otherwise)
  | .whileDo condition body _ =>
    "While(" ++ condition.summary ++ ") " ++ blockSummary (Stmt.summaries body)
  | .breakLoop _ => "Break"
  | .continueLoop _ => "Continue"

/-- The texts of the statements of a block. -/
def Stmt.summaries : List Stmt → List String
  | [] => []
  | s :: rest => s.summary :: Stmt.summaries rest

end

end Kestrel
