import Std.Data.HashMap
import Kestrel.Bytecode

/-!
# Names and the places of statements

Before a program is lowered it is walked through once, in the order of its text. A name may be read
after an assignment to it, wherever in a block that stands, and statements that leave or restart a
loop stand inside one. The walk also numbers the names: each gets the next register where it is
first assigned.

## Main definitions

- `CompileError` — what the walk may object to
- `Scope` — the names assigned so far, with their registers
- `Expr.check` — every name that an expression reads is assigned
- `Stmt.declare`, `Program.scope` — the scope after a statement, and the scope of a program
-/

namespace Kestrel

/-- What is wrong with a program that was understood. -/
inductive CompileError where
  | undefinedVariable (name : String) (span : Span)
  | tooManyVariables (name : String) (span : Span)
  | breakOutsideLoop (span : Span)
  | continueOutsideLoop (span : Span)
  deriving DecidableEq, Repr

def CompileError.message : CompileError → String
  | .undefinedVariable name _ => "undefined variable '" ++ name ++ "'"
  | .tooManyVariables name _ =>
    "too many variables; cannot allocate a register for '" ++ name ++ "'"
  | .breakOutsideLoop _ => "'break' outside of a loop"
  | .continueOutsideLoop _ => "'continue' outside of a loop"

def CompileError.span : CompileError → Span
  | .undefinedVariable _ span | .tooManyVariables _ span | .breakOutsideLoop span
  | .continueOutsideLoop span => span

/-- The names assigned so far, with their registers. -/
structure Scope where
  registers : Std.HashMap String Register

namespace Scope

def empty : Scope := ⟨∅⟩

/-- The register of a name, if it is assigned. -/
def register? (scope : Scope) (name : String) : Option Register :=
  scope.registers[name]?

/-- The register of an assigned name. Other names are given the first register. -/
def register (scope : Scope) (name : String) : Register :=
  (scope.register? name).getD .first

/-- Adds a name with the next register, if it is new; there may be no register left for it. -/
def assign? (scope : Scope) (name : String) : Option Scope :=
  match scope.register? name with
  | some _ => some scope
  | none =>
    if h : scope.registers.size < registerCount then
      some ⟨scope.registers.insert name ⟨scope.registers.size, h⟩⟩
    else none

/-- Adds a name that is assigned at `span`. -/
def assign (scope : Scope) (name : String) (span : Span) : Except CompileError Scope :=
  match scope.assign? name with
  | some scope => .ok scope
  | none => .error (.tooManyVariables name span)

/-- Checks that a name that is read at `span` is assigned. -/
def read (scope : Scope) (name : String) (span : Span) : Except CompileError Unit :=
  match scope.register? name with
  | some _ => .ok ()
  | none => .error (.undefinedVariable name span)

end Scope

/-- Checks that every name in an expression is assigned. -/
def Expr.check (scope : Scope) : Expr → Except CompileError Unit
  | .number _ _ => .ok ()
  | .boolean _ _ => .ok ()
  | .name text span => scope.read text span
  | .unary _ operand _ => operand.check scope
  | .binary left _ right _ =>
    match left.check scope with
    | .error e => .error e
    | .ok () => right.check scope

/-- Checks an assignment. One that combines values reads its name before anything else; a plain one
assigns its name after everything else. -/
def checkAssignment (scope : Scope) (name : String) (op : AssignOp) (value : Expr) (span : Span) :
    Except CompileError Scope := do
  if op.binaryOp?.isSome then scope.read name span
  value.check scope
  scope.assign name span

mutual

/-- The scope after a statement, which stands inside a loop or not. -/
def Stmt.declare (inLoop : Bool) : Stmt → Scope → Except CompileError Scope
  | .expression value _, scope => do
    value.check scope
    return scope
  | .assign name op value span, scope => checkAssignment scope name op value span
  | .print value _, scope => do
    value.check scope
    return scope
  | .ifThen condition body _, scope => do
    condition.check scope
    Stmt.declareAll inLoop body scope
  | .ifElse condition body otherwise _, scope => do
    condition.check scope
    let scope ← Stmt.declareAll inLoop body scope
    Stmt.declareAll inLoop otherwise scope
  | .whileDo condition body _, scope => do
    condition.check scope
    Stmt.declareAll true body scope
  | .breakLoop span, scope => if inLoop then .ok scope else .error (.breakOutsideLoop span)
  | .continueLoop span, scope => if inLoop then .ok scope else .error (.continueOutsideLoop span)

/-- The scope after some statements in order. -/
def Stmt.declareAll (inLoop : Bool) : List Stmt → Scope → Except CompileError Scope
  | [], scope => .ok scope
  | s :: rest, scope =>
    match s.declare inLoop scope with
    | .error e => .error e
    | .ok scope => Stmt.declareAll inLoop rest scope

end

/-- The names of a program with their registers, or its first error. -/
def Program.scope (program : Program) : Except CompileError Scope :=
  Stmt.declareAll false program .empty

end Kestrel
