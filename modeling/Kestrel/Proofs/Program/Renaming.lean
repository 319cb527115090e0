import Kestrel.Proofs.Program.Walk

/-!
# Programs with other names

A program is renamed by replacing every name in it, where it is read and where it is assigned. All
spans stay as they are. The walk over the renamed program has the same sites in the same order, with
the new names.

## Main definitions

- `Expr.rename`, `Stmt.rename`, `Program.rename` — a construct with its names replaced
- `Program.Mentions` — a name is read or assigned in a program

## Main statements

- `Program.walk_rename` — the walk over a renamed program
-/

namespace Kestrel

variable (f : String → String)

/-- The expression with its names replaced. -/
def Expr.rename : Expr → Expr
  | .number value span => .number value span
  | .boolean value span => .boolean value span
  | .name text span => .name (f text) span
  | .unary op operand span => .unary op operand.rename span
  | .binary left op right span => .binary left.rename op right.rename span

mutual

/-- The statement with its names replaced. -/
def Stmt.rename : Stmt → Stmt
  | .expression value span => .expression (value.rename f) span
  | .assign name op value span => .assign (f name) op (value.rename f) span
  | .print value span => .print (value.rename f) span
  | .ifThen condition body span => .ifThen (condition.rename f) (Stmt.renameAll body) span
  | .ifElse condition body otherwise span =>
    .ifElse (condition.rename f) (Stmt.renameAll body) (Stmt.renameAll otherwise) span
  | .whileDo condition body span => .whileDo (condition.rename f) (Stmt.renameAll body) span
  | .breakLoop span => .breakLoop span
  | .continueLoop span => .continueLoop span

/-- The statements with their names replaced. -/
def Stmt.renameAll : List Stmt → List Stmt
  | [] => []
  | s :: rest => s.rename :: Stmt.renameAll rest

end

/-- The program with its names replaced. -/
def Program.rename (program : Program) : Program :=
  Stmt.renameAll f program

/-- The act on the new name. -/
def Act.rename : Act → Act
  | .read name span => .read (f name) span
  | .assign name span => .assign (f name) span
  | .breakLoop span => .breakLoop span
  | .continueLoop span => .continueLoop span

/-- The site with the new name. -/
def Site.rename (site : Site) : Site :=
  ⟨site.block, site.act.rename f⟩

theorem Expr.walk_rename (e : Expr) (block : BlockPath) :
    (e.rename f).walk block = (e.walk block).map (Site.rename f) := by
  induction e with
  | number | boolean | name => rfl
  | unary op operand span ih => exact ih
  | binary left op right span ihl ihr =>
    simp only [Expr.rename, Expr.walk, List.map_append, ihl, ihr]

theorem assignmentWalk_rename (block : BlockPath) (name : String) (op : AssignOp) (value : Expr)
    (span : Span) :
    assignmentWalk block (f name) op (value.rename f) span =
      (assignmentWalk block name op value span).map (Site.rename f) := by
  simp only [assignmentWalk, List.map_append, Expr.walk_rename]
  split <;> rfl

mutual

theorem Stmt.walk_rename (s : Stmt) (block : BlockPath) (index : Nat) :
    (s.rename f).walk block index = (s.walk block index).map (Site.rename f) := by
  cases s with
  | expression e span | print e span => exact Expr.walk_rename f e block
  | assign name op e span => exact assignmentWalk_rename f block name op e span
  | ifThen c body span | whileDo c body span =>
    simp only [Stmt.rename, Stmt.walk, List.map_append, Expr.walk_rename]
    rw [Stmt.walkAll_renameAll body]
  | ifElse c body otherwise span =>
    simp only [Stmt.rename, Stmt.walk, List.map_append, Expr.walk_rename]
    rw [Stmt.walkAll_renameAll body, Stmt.walkAll_renameAll otherwise]
  | breakLoop | continueLoop => rfl

theorem Stmt.walkAll_renameAll (ss : List Stmt) (block : BlockPath) (index : Nat) :
    Stmt.walkAll block index (Stmt.renameAll f ss) =
      (Stmt.walkAll block index ss).map (Site.rename f) := by
  cases ss with
  | nil => rfl
  | cons s rest =>
    rw [Stmt.renameAll, Stmt.walkAll, Stmt.walkAll, List.map_append, Stmt.walk_rename s,
      Stmt.walkAll_renameAll rest]

end

theorem Program.walk_rename (program : Program) :
    (program.rename f).walk = program.walk.map (Site.rename f) :=
  Stmt.walkAll_renameAll f program [] 0

/-- The name that an act reads or assigns. -/
def Act.name? : Act → Option String
  | .read name _ | .assign name _ => some name
  | .breakLoop _ | .continueLoop _ => none

/-- The name is read or assigned somewhere in the program. -/
def Program.Mentions (program : Program) (name : String) : Prop :=
  ∃ site ∈ program.walk, site.act.name? = some name

end Kestrel
