import Kestrel.Bytecode.Scope

/-!
# From programs to code

An expression becomes code that leaves its value on the stack. Statements keep the stack as it is,
except that an expression by itself at the top level leaves its value there; inside a block it is
dropped. A program ends with `halt`.

## Main definitions

- `Expr.size`, `Stmt.size` — how many instructions an expression or a statement becomes
- `Expr.emit`, `Stmt.emit` — their instructions, after those already emitted
- `Program.lower` — the code of a program whose names have registers
- `Program.compile` — the code of a program, or its first error

## Design notes

Code is only ever added at the end, so the index of the next instruction is the size of the code so
far. Jumps forward need to know how much code follows before it is there: sizes are computed from
the statements alone.
-/

namespace Kestrel

/-- How many instructions an expression becomes. -/
def Expr.size : Expr → Nat
  | .number _ _ => 1
  | .boolean _ _ => 1
  | .name _ _ => 1
  | .unary _ operand _ => operand.size + 1
  | .binary left _ right _ => left.size + right.size + 1

mutual

/-- How many instructions a statement becomes inside a block. -/
def Stmt.size : Stmt → Nat
  | .expression value _ => value.size + 1
  | .assign _ op value _ => value.size + if op.binaryOp?.isSome then 3 else 1
  | .print value _ => value.size + 1
  | .ifThen condition body _ => condition.size + 1 + Stmt.sizes body
  | .ifElse condition body otherwise _ =>
    condition.size + 1 + Stmt.sizes body + 1 + Stmt.sizes otherwise
  | .whileDo condition body _ => condition.size + 1 + Stmt.sizes body + 1
  | .breakLoop _ => 1
  | .continueLoop _ => 1

/-- How many instructions the statements of a block become. -/
def Stmt.sizes : List Stmt → Nat
  | [] => 0
  | s :: rest => s.size + Stmt.sizes rest

end

/-- Adds the instructions of an expression. -/
def Expr.emit (register : String → Register) : Expr → Code → Code
  | .number value _, code => code.push (.push (.number value))
  | .boolean value _, code => code.push (.push (.boolean value))
  | .name text _, code => code.push (.load (register text))
  | .unary op operand _, code => (operand.emit register code).push (.unary op)
  | .binary left op right _, code =>
    (right.emit register (left.emit register code)).push (.binary op)

/-- Where the statements of a loop's body jump to: the start of the loop and the place after it. -/
structure LoopExits where
  start : Nat
  stop : Nat
  deriving DecidableEq, Repr, Inhabited

/-- Adds the instructions of an assignment. -/
def emitAssignment (register : String → Register) (name : String) (op : AssignOp) (value : Expr)
    (code : Code) : Code :=
  match op.binaryOp? with
  | none => (value.emit register code).push (.store (register name))
  | some binary =>
    (value.emit register (code.push (.load (register name)))).push (.binary binary)
      |>.push (.store (register name))

mutual

/-- Adds the instructions of a statement inside a block. -/
def Stmt.emit (register : String → Register) (exits : LoopExits) : Stmt → Code → Code
  | .expression value _, code => (value.emit register code).push .pop
  | .assign name op value _, code => emitAssignment register name op value code
  | .print value _, code => (value.emit register code).push .print
  | .ifThen condition body _, code =>
    let code := condition.emit register code
    let stop := code.size + 1 + Stmt.sizes body
    Stmt.emitAll register exits body (code.push (.jumpIfFalse stop))
  | .ifElse condition body otherwise _, code =>
    let code := condition.emit register code
    let middle := code.size + 1 + Stmt.sizes body + 1
    let stop := middle + Stmt.sizes otherwise
    let code := Stmt.emitAll register exits body (code.push (.jumpIfFalse middle))
    Stmt.emitAll register exits otherwise (code.push (.jump stop))
  | .whileDo condition body _, code =>
    let start := code.size
    let code := condition.emit register code
    let stop := code.size + 1 + Stmt.sizes body + 1
    let code := Stmt.emitAll register ⟨start, stop⟩ body (code.push (.jumpIfFalse stop))
    code.push (.jump start)
  | .breakLoop _, code => code.push (.jump exits.stop)
  | .continueLoop _, code => code.push (.jump exits.start)

/-- Adds the instructions of the statements of a block. -/
def Stmt.emitAll (register : String → Register) (exits : LoopExits) : List Stmt → Code → Code
  | [], code => code
  | s :: rest, code => Stmt.emitAll register exits rest (s.emit register exits code)

end

/-- Adds the instructions of a statement at the top level, which is in no loop. -/
def Stmt.emitTop (register : String → Register) (s : Stmt) (code : Code) : Code :=
  match s with
  | .expression value _ => value.emit register code
  | s => s.emit register default code

/-- The code of a program whose names have registers. -/
def Program.lower (register : String → Register) (program : Program) : Code :=
  (program.foldl (fun code s => s.emitTop register code) #[]).push .halt

/-- The code of a program, or its first error. -/
def Program.compile (program : Program) : Except CompileError Code :=
  program.scope.map fun scope => program.lower scope.register

end Kestrel
