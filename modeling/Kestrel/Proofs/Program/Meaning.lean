import Kestrel.Machine

/-!
# What programs mean

A program has a meaning of its own, without code or machine: its expressions have values in an
environment of names, and its statements lead from one state to another one. The relations here are
big-step: they tie the state before a statement to the state after it.

## Main definitions

- `Expr.value`, `assignedValue` — the value of an expression and of an assignment
- `State` — the environment, the printed lines, and the values that expressions by themselves left
- `Exit` — how a statement ends
- `Stmt.Runs`, `Stmt.RunsAll` — what a statement, and a block, does
- `Program.Runs` — what a program does

## Design notes

Statements that end early have an exit of their own, which the loop around them takes up, and
which ends every block in between. Only the top level keeps the values of expression statements, so
`Program.Runs` is a relation apart from `Stmt.RunsAll`.
-/

namespace Kestrel

/-- Why a program cannot go on. -/
inductive ProgramFault where
  | unset (name : String)
  | operator (fault : OperatorFault)
  | conditionNotBoolean (found : ValueType)
  deriving DecidableEq, Repr

/-- The values of the names that are set. -/
abbrev Environment := String → Option Value

/-- The value of a name. -/
def Environment.read (environment : Environment) (name : String) : Except ProgramFault Value :=
  match environment name with
  | some value => .ok value
  | none => .error (.unset name)

/-- The result of an operator as a step of a program. -/
def operatorResult : Except OperatorFault Value → Except ProgramFault Value
  | .ok value => .ok value
  | .error fault => .error (.operator fault)

/-- The value of an expression. Operands are evaluated from left to right, all of them. -/
def Expr.value (environment : Environment) : Expr → Except ProgramFault Value
  | .number x _ => .ok (.number x)
  | .boolean b _ => .ok (.boolean b)
  | .name text _ => environment.read text
  | .unary op operand _ => do
    let v ← operand.value environment
    operatorResult (op.apply v)
  | .binary left op right _ => do
    let a ← left.value environment
    let b ← right.value environment
    operatorResult (op.apply a b)

/-- The value of a condition, which has to be a boolean. -/
def Expr.truth (environment : Environment) (condition : Expr) : Except ProgramFault Bool := do
  match ← condition.value environment with
  | .boolean b => .ok b
  | v => .error (.conditionNotBoolean v.type)

/-- The value that an assignment gives to its name. One that combines values reads the name before
it evaluates the expression. -/
def assignedValue (environment : Environment) (name : String) (op : AssignOp) (e : Expr) :
    Except ProgramFault Value :=
  match op.binaryOp? with
  | none => e.value environment
  | some binary => do
    let old ← environment.read name
    let new ← e.value environment
    operatorResult (binary.apply old new)

/-- What a program has done so far. -/
structure State where
  /-- The values of its names. -/
  values : Environment
  /-- The lines that it printed, in order. -/
  printed : List String
  /-- The values that expressions at the top level left, the last one in front. -/
  results : List Value

namespace State

/-- No name is set, and nothing is printed or left. -/
def initial : State := ⟨fun _ => none, [], []⟩

/-- Gives a value to a name. -/
def assign (st : State) (name : String) (value : Value) : State :=
  { st with values := fun other => if other = name then some value else st.values other }

/-- Prints the line of a value. -/
def print (st : State) (value : Value) : State :=
  { st with printed := st.printed ++ [value.text] }

/-- Leaves a value. -/
def leave (st : State) (value : Value) : State :=
  { st with results := value :: st.results }

end State

/-- How a statement ends. -/
inductive Exit where
  /-- What follows it is next. -/
  | done
  /-- The loop around it ends. -/
  | broke
  /-- The loop around it starts again. -/
  | continued
  /-- The program cannot go on. -/
  | failed (fault : ProgramFault)
  deriving DecidableEq

/-- Whether a body that ends so is followed by the next round of its loop. -/
def Exit.roundEnds : Exit → Bool
  | .done | .continued => true
  | .broke | .failed _ => false

mutual

/-- A statement inside a block leads from one state to another one and ends in some way. -/
inductive Stmt.Runs : Stmt → State → State → Exit → Prop
  | expression {e : Expr} {span : Span} {st : State} {v : Value}
      (he : e.value st.values = .ok v) : Runs (.expression e span) st st .done
  | expressionFails {e : Expr} {span : Span} {st : State} {f : ProgramFault}
      (he : e.value st.values = .error f) : Runs (.expression e span) st st (.failed f)
  | assign {name : String} {op : AssignOp} {e : Expr} {span : Span} {st : State} {v : Value}
      (he : assignedValue st.values name op e = .ok v) :
      Runs (.assign name op e span) st (st.assign name v) .done
  | assignFails {name : String} {op : AssignOp} {e : Expr} {span : Span} {st : State}
      {f : ProgramFault} (he : assignedValue st.values name op e = .error f) :
      Runs (.assign name op e span) st st (.failed f)
  | print {e : Expr} {span : Span} {st : State} {v : Value} (he : e.value st.values = .ok v) :
      Runs (.print e span) st (st.print v) .done
  | printFails {e : Expr} {span : Span} {st : State} {f : ProgramFault}
      (he : e.value st.values = .error f) : Runs (.print e span) st st (.failed f)
  | ifThen {c : Expr} {body : List Stmt} {span : Span} {st st' : State} {exit : Exit} {b : Bool}
      (hc : c.truth st.values = .ok b) (hbranch : RunsAll (if b then body else []) st st' exit) :
      Runs (.ifThen c body span) st st' exit
  | ifThenFails {c : Expr} {body : List Stmt} {span : Span} {st : State} {f : ProgramFault}
      (hc : c.truth st.values = .error f) : Runs (.ifThen c body span) st st (.failed f)
  | ifElse {c : Expr} {body otherwise : List Stmt} {span : Span} {st st' : State} {exit : Exit}
      {b : Bool} (hc : c.truth st.values = .ok b)
      (hbranch : RunsAll (if b then body else otherwise) st st' exit) :
      Runs (.ifElse c body otherwise span) st st' exit
  | ifElseFails {c : Expr} {body otherwise : List Stmt} {span : Span} {st : State}
      {f : ProgramFault} (hc : c.truth st.values = .error f) :
      Runs (.ifElse c body otherwise span) st st (.failed f)
  | whileEnds {c : Expr} {body : List Stmt} {span : Span} {st : State}
      (hc : c.truth st.values = .ok false) : Runs (.whileDo c body span) st st .done
  | whileFails {c : Expr} {body : List Stmt} {span : Span} {st : State} {f : ProgramFault}
      (hc : c.truth st.values = .error f) : Runs (.whileDo c body span) st st (.failed f)
  | whileRepeats {c : Expr} {body : List Stmt} {span : Span} {st st₁ st₂ : State}
      {round exit : Exit} (hc : c.truth st.values = .ok true)
      (hbody : RunsAll body st st₁ round) (hround : round.roundEnds = true)
      (hrest : Runs (.whileDo c body span) st₁ st₂ exit) :
      Runs (.whileDo c body span) st st₂ exit
  | whileBreaks {c : Expr} {body : List Stmt} {span : Span} {st st' : State}
      (hc : c.truth st.values = .ok true) (hbody : RunsAll body st st' .broke) :
      Runs (.whileDo c body span) st st' .done
  | whileBodyFails {c : Expr} {body : List Stmt} {span : Span} {st st' : State} {f : ProgramFault}
      (hc : c.truth st.values = .ok true) (hbody : RunsAll body st st' (.failed f)) :
      Runs (.whileDo c body span) st st' (.failed f)
  | breakLoop {span : Span} {st : State} : Runs (.breakLoop span) st st .broke
  | continueLoop {span : Span} {st : State} : Runs (.continueLoop span) st st .continued

/-- The statements of a block, in order, up to the first that ends early. -/
inductive Stmt.RunsAll : List Stmt → State → State → Exit → Prop
  | nil {st : State} : RunsAll [] st st .done
  | cons {s : Stmt} {rest : List Stmt} {st st₁ st₂ : State} {exit : Exit}
      (hs : Stmt.Runs s st st₁ .done) (hrest : RunsAll rest st₁ st₂ exit) :
      RunsAll (s :: rest) st st₂ exit
  | stop {s : Stmt} {rest : List Stmt} {st st' : State} {exit : Exit}
      (hs : Stmt.Runs s st st' exit) (hexit : exit ≠ .done) :
      RunsAll (s :: rest) st st' exit

end

/-- A statement at the top level. An expression by itself leaves its value. -/
inductive Stmt.RunsTop : Stmt → State → State → Exit → Prop
  | expression {e : Expr} {span : Span} {st : State} {v : Value} (he : e.value st.values = .ok v) :
      RunsTop (.expression e span) st (st.leave v) .done
  | expressionFails {e : Expr} {span : Span} {st : State} {f : ProgramFault}
      (he : e.value st.values = .error f) : RunsTop (.expression e span) st st (.failed f)
  | other {s : Stmt} {st st' : State} {exit : Exit}
      (hs : ∀ e span, s ≠ .expression e span) (hruns : s.Runs st st' exit) :
      RunsTop s st st' exit

/-- The statements of a program, in order, up to the first that ends early. -/
inductive Program.Runs : Program → State → State → Exit → Prop
  | nil {st : State} : Runs [] st st .done
  | cons {s : Stmt} {rest : Program} {st st₁ st₂ : State} {exit : Exit}
      (hs : s.RunsTop st st₁ .done) (hrest : Runs rest st₁ st₂ exit) :
      Runs (s :: rest) st st₂ exit
  | stop {s : Stmt} {rest : Program} {st st' : State} {exit : Exit}
      (hs : s.RunsTop st st' exit) (hexit : exit ≠ .done) : Runs (s :: rest) st st' exit

end Kestrel
