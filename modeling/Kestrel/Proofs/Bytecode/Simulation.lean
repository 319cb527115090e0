import Kestrel.Proofs.Bytecode.Layout
import Kestrel.Proofs.Bytecode.Names
import Kestrel.Proofs.Machine.Reaches
import Kestrel.Proofs.Machine.Writing
import Kestrel.Proofs.Program.Meaning

/-!
# Code does what its program means

Wherever the code of a construct stands, a machine that comes to it in a state that models a state
of the program goes on as the program does: past the construct, out of or back to the start of the
loop around it, or to the same fault.

## Main definitions

- `ProgramFault.onMachine` — how a fault of a program shows on the machine
- `Scope.Holds` — registers hold the values of an environment
- `Machine.Models` — a state of the machine stands for a state of a program
- `Machine.Follows` — what the machine does after a statement that ended in some way
- `Machine.Evaluates` — what the machine does with the code of an expression

## Main statements

- `Expr.follows_value` — the code of an expression leaves its value, or comes to its fault
- `evaluates_assignment`, `reaches_branch`, `fails_branch` — the code around expressions
-/

namespace Kestrel

/-- How a fault of a program shows on the machine, where names are registers. -/
def ProgramFault.onMachine (register : String → Register) : ProgramFault → Fault
  | .unset name => .unsetRegister (register name)
  | .operator fault => .operator fault
  | .conditionNotBoolean found => .conditionNotBoolean found

/-- Registers hold the values of an environment: those of names in the scope, and no others. -/
structure Scope.Holds (scope : Scope) (registers : Std.TreeMap Register Value)
    (values : Environment) : Prop where
  value_eq : ∀ name, values name = (scope.register? name).bind (registers[·]?)
  named : ∀ r v, registers[r]? = some v → ∃ name, scope.register? name = some r

namespace Scope.Holds

variable {scope : Scope} {registers : Std.TreeMap Register Value} {values : Environment}

theorem empty (scope : Scope) : scope.Holds ∅ State.initial.values where
  value_eq name := by
    cases scope.register? name <;> simp [State.initial]
  named r v h := by simp at h

theorem getElem?_register (h : scope.Holds registers values) {name : String}
    (hname : (scope.register? name).isSome) : registers[scope.register name]? = values name := by
  rw [h.value_eq, Scope.register_of_isSome hname, Option.bind_some]

/-- Moving a value into the register of a name assigns it to the name. Other names have other
registers, so nothing else changes. -/
theorem insert (h : scope.Holds registers values) (hn : scope.Numbered) {name : String}
    (hname : (scope.register? name).isSome) (v : Value) :
    scope.Holds (registers.insert (scope.register name) v)
      (fun other => if other = name then some v else values other) := by
  have hr := Scope.register_of_isSome hname
  constructor
  · intro other
    by_cases heq : other = name
    · subst heq
      rw [if_pos rfl, hr, Option.bind_some, Std.TreeMap.getElem?_insert_self]
    · rw [if_neg heq, h.value_eq]
      cases hother : scope.register? other with
      | none => rfl
      | some r =>
        -- two names share no register, so this one keeps its value
        have hne : scope.register name ≠ r := by
          intro hsame
          exact heq (hn.name_unique hother (hsame ▸ hr))
        rw [Option.bind_some, Option.bind_some, Std.TreeMap.getElem?_insert, if_neg]
        simpa using hne
  · intro r v' hget
    rw [Std.TreeMap.getElem?_insert] at hget
    split at hget
    · next hsame => exact ⟨name, by rw [hr, Std.LawfulEqOrd.compare_eq_iff_eq.1 hsame]⟩
    · exact h.named r v' hget

end Scope.Holds

section Simulation

variable {σ : Type} {writer : Writer σ} {output : σ} {scope : Scope} {whole : Code}

namespace Machine

variable (writer output scope)

/-- A state of the machine stands for a state of a program, whose lines were written behind
`output`. -/
structure Models (m : Machine σ) (st : State) : Prop where
  stack : m.stack = st.results
  registers : scope.Holds m.registers st.values
  printed : writer.lines st.printed output = .ok m.output

variable (whole)

/-- The machine goes on as a statement that ended in some way: to the place behind it or to one of
the exits of the loop around it, or to a fault. -/
inductive Follows (exits : LoopExits) (stop : Nat) (m : Machine σ) (st : State) : Exit → Prop
  | done {k : Nat} {m' : Machine σ} (hreach : Reaches writer whole k m m') (hnext : m'.next = stop)
      (hmodels : Models writer output scope m' st) : Follows exits stop m st .done
  | broke {k : Nat} {m' : Machine σ} (hreach : Reaches writer whole k m m')
      (hnext : m'.next = exits.stop) (hmodels : Models writer output scope m' st) :
      Follows exits stop m st .broke
  | continued {k : Nat} {m' : Machine σ} (hreach : Reaches writer whole k m m')
      (hnext : m'.next = exits.start) (hmodels : Models writer output scope m' st) :
      Follows exits stop m st .continued
  | failed {k : Nat} {m₁ m' : Machine σ} {fault : ProgramFault}
      (hreach : Reaches writer whole k m m₁)
      (hstop : Stops writer whole m₁ m' (some (fault.onMachine scope.register, m₁.next)))
      (hregisters : scope.Holds m'.registers st.values)
      (hprinted : writer.lines st.printed output = .ok m'.output) :
      Follows exits stop m st (.failed fault)

variable {writer output scope whole} {exits : LoopExits} {stop k : Nat} {m m₁ : Machine σ}
  {st : State} {exit : Exit}

/-- Steps in front change nothing about what follows. -/
theorem Follows.after (h : Follows writer output scope whole exits stop m₁ st exit)
    (hreach : Reaches writer whole k m m₁) :
    Follows writer output scope whole exits stop m st exit := by
  cases h with
  | done hrest hnext hmodels => exact .done (hreach.trans hrest) hnext hmodels
  | broke hrest hnext hmodels => exact .broke (hreach.trans hrest) hnext hmodels
  | continued hrest hnext hmodels => exact .continued (hreach.trans hrest) hnext hmodels
  | failed hrest hstop hregisters hprinted =>
    exact .failed (hreach.trans hrest) hstop hregisters hprinted

theorem Follows.reaches_stop (h : Follows writer output scope whole exits stop m st .done) :
    ∃ k m', Reaches writer whole k m m' ∧ m'.next = stop ∧ Models writer output scope m' st := by
  cases h with
  | done hreach hnext hmodels => exact ⟨_, _, hreach, hnext, hmodels⟩

/-- A statement that is not done leaves the code behind it alone. -/
theorem Follows.of_ne_done (h : Follows writer output scope whole exits stop m st exit)
    (hexit : exit ≠ .done) (stop' : Nat) :
    Follows writer output scope whole exits stop' m st exit := by
  cases h with
  | done => exact absurd rfl hexit
  | broke hreach hnext hmodels => exact .broke hreach hnext hmodels
  | continued hreach hnext hmodels => exact .continued hreach hnext hmodels
  | failed hreach hstop hregisters hprinted => exact .failed hreach hstop hregisters hprinted

/-- A jump over what comes next is part of what follows a statement that is done. -/
theorem Follows.jump {target : Nat} (h : Follows writer output scope whole exits stop m st exit)
    (hat : whole[stop]? = some (.jump target)) (hle : target ≤ whole.size) :
    Follows writer output scope whole exits target m st exit := by
  cases h with
  | @done _ m' hreach hnext hmodels =>
    subst hnext
    have hjump : Reaches writer whole 1 m' { m' with next := target } :=
      .single hat (by simp [step, goTo, hle])
    exact .done (hreach.trans hjump) rfl ⟨hmodels.stack, hmodels.registers, hmodels.printed⟩
  | broke hreach hnext hmodels => exact .broke hreach hnext hmodels
  | continued hreach hnext hmodels => exact .continued hreach hnext hmodels
  | failed hreach hstop hregisters hprinted => exact .failed hreach hstop hregisters hprinted

/-- The machine comes to a fault that leaves the registers and the output as they are. -/
def Fails (writer : Writer σ) (whole : Code) (m : Machine σ) (fault : Fault) : Prop :=
  ∃ k m₁ m', Reaches writer whole k m m₁ ∧ Stops writer whole m₁ m' (some (fault, m₁.next)) ∧
    m'.registers = m.registers ∧ m'.output = m.output

theorem Fails.follows {fault : ProgramFault}
    (h : Fails writer whole m (fault.onMachine scope.register))
    (hmodels : Models writer output scope m st) :
    Follows writer output scope whole exits stop m st (.failed fault) := by
  obtain ⟨k, m₁, m', hreach, hstop, hregisters, houtput⟩ := h
  exact .failed hreach hstop (hregisters ▸ hmodels.registers) (houtput ▸ hmodels.printed)

/-- Steps that keep the registers and the output may come before a fault. -/
theorem Fails.after {fault : Fault} (h : Fails writer whole m₁ fault)
    (hreach : Reaches writer whole k m m₁) (hregisters : m₁.registers = m.registers)
    (houtput : m₁.output = m.output) : Fails writer whole m fault := by
  obtain ⟨j, m₂, m', hreach', hstop, hregisters', houtput'⟩ := h
  exact ⟨k + j, m₂, m', hreach.trans hreach', hstop, hregisters'.trans hregisters,
    houtput'.trans houtput⟩

end Machine

open Machine

/-! ### Expressions -/

/-- The machine with a value more on its stack, at another instruction. -/
def Machine.pushed (m : Machine σ) (next : Nat) (v : Value) : Machine σ :=
  { m with next, stack := v :: m.stack }

/-- What the machine does with the code of an expression that ends before `stop`: it leaves the
value on the stack, or comes to the fault. -/
def Machine.Evaluates (writer : Writer σ) (scope : Scope) (whole : Code) (stop : Nat)
    (m : Machine σ) : Except ProgramFault Value → Prop
  | .ok v => ∃ k, Reaches writer whole k m (m.pushed stop v)
  | .error fault => Fails writer whole m (fault.onMachine scope.register)

theorem evaluates_load (writer : Writer σ) {code : Code} {name : String} {values : Environment}
    {m : Machine σ}
    (hcode : Code.IsStartOf (Array.push code (.load (scope.register name))) whole)
    (hname : (scope.register? name).isSome) (hnext : m.next = code.size)
    (hholds : scope.Holds m.registers values) :
    m.Evaluates writer scope whole (code.size + 1) (values.read name) := by
  have hat : whole[m.next]? = some (.load (scope.register name)) := hnext ▸ hcode.getElem?_size
  have hget := hholds.getElem?_register hname
  unfold Environment.read
  cases hvalue : values name with
  | some v =>
    rw [hvalue] at hget
    exact ⟨1, .single hat (by simp [step, hget, pushed, hnext])⟩
  | none =>
    rw [hvalue] at hget
    exact ⟨0, m, m, .refl m, .faults hat (by simp [step, hget, ProgramFault.onMachine]), rfl, rfl⟩

theorem evaluates_unary {code : Code} {op : UnaryOp} {v : Value} {m : Machine σ} {k : Nat}
    (hcode : Code.IsStartOf (Array.push code (.unary op)) whole)
    (hreach : Reaches writer whole k m (m.pushed code.size v)) :
    m.Evaluates writer scope whole (code.size + 1) (operatorResult (op.apply v)) := by
  have hat : whole[(m.pushed code.size v).next]? = some (.unary op) := hcode.getElem?_size
  cases happly : op.apply v with
  | ok v' => exact ⟨k + 1, hreach.trans (.single hat (by simp [step, pushed, happly]))⟩
  | error fault =>
    have hstep : step writer whole.size (.unary op) (m.pushed code.size v) =
        .faulted (.operator fault) { m with next := code.size } := by
      simp [step, pushed, happly]
    exact ⟨k, _, _, hreach, .faults hat hstep, rfl, rfl⟩

theorem evaluates_binary {code : Code} {op : BinaryOp} {a b : Value} {next : Nat} {m : Machine σ}
    {k : Nat} (hcode : Code.IsStartOf (Array.push code (.binary op)) whole)
    (hreach : Reaches writer whole k m ((m.pushed next a).pushed code.size b)) :
    m.Evaluates writer scope whole (code.size + 1) (operatorResult (op.apply a b)) := by
  have hat : whole[((m.pushed next a).pushed code.size b).next]? = some (.binary op) :=
    hcode.getElem?_size
  cases happly : op.apply a b with
  | ok v => exact ⟨k + 1, hreach.trans (.single hat (by simp [step, pushed, happly]))⟩
  | error fault =>
    have hstep : step writer whole.size (.binary op) ((m.pushed next a).pushed code.size b) =
        .faulted (.operator fault) { m with next := code.size } := by
      simp [step, pushed, happly]
    exact ⟨k, _, _, hreach, .faults hat hstep, rfl, rfl⟩

/-- The code of an expression leaves its value on the stack, or comes to its fault. -/
theorem Expr.follows_value (writer : Writer σ) {e : Expr} {code : Code} {values : Environment}
    {m : Machine σ}
    (hcode : (e.emit scope.register code).IsStartOf whole) (hknown : e.KnownIn scope)
    (hnext : m.next = code.size) (hholds : scope.Holds m.registers values) :
    m.Evaluates writer scope whole (e.emit scope.register code).size (e.value values) := by
  induction e generalizing code m with
  | number x span | boolean x span =>
    have hat := hcode.getElem?_size
    rw [← hnext] at hat
    exact ⟨1, .single hat (by simp [step, pushed, hnext, Expr.emit])⟩
  | name text span =>
    simpa [Expr.emit, Expr.value] using evaluates_load writer hcode hknown hnext hholds
  | unary op operand span ih =>
    have hoperand := ih hcode.of_push hknown hnext hholds
    have hsize : ((Expr.unary op operand span).emit scope.register code).size =
        (operand.emit scope.register code).size + 1 := Array.size_push _
    simp only [Expr.value, bind, Except.bind, hsize]
    cases hv : operand.value values with
    | error fault =>
      rw [hv] at hoperand
      exact hoperand
    | ok v =>
      rw [hv] at hoperand
      obtain ⟨k, hreach⟩ := hoperand
      exact evaluates_unary hcode hreach
  | binary left op right span ihl ihr =>
    have hright : (right.emit scope.register (left.emit scope.register code)).IsStartOf whole :=
      hcode.of_push
    have hleft := ihl ((right.isStartOf_emit scope.register _).trans hright) hknown.1 hnext hholds
    have hsize : ((Expr.binary left op right span).emit scope.register code).size =
        (right.emit scope.register (left.emit scope.register code)).size + 1 := Array.size_push _
    simp only [Expr.value, bind, Except.bind, hsize]
    cases ha : left.value values with
    | error fault =>
      rw [ha] at hleft
      exact hleft
    | ok a =>
      rw [ha] at hleft
      obtain ⟨j, hreach⟩ := hleft
      -- the right operand is evaluated on top of the left one
      have hright := ihr (m := m.pushed _ a) hright hknown.2 rfl hholds
      cases hb : right.value values with
      | error fault =>
        rw [hb] at hright
        exact hright.after hreach rfl rfl
      | ok b =>
        rw [hb] at hright
        obtain ⟨k, hreach'⟩ := hright
        exact evaluates_binary hcode (hreach.trans hreach')

/-- The code of an assignment ends with the instruction that stores the assigned value. -/
theorem evaluates_assignment (writer : Writer σ) {name : String} {op : AssignOp} {e : Expr}
    {code : Code} {values : Environment} {m : Machine σ}
    (hcode : (emitAssignment scope.register name op e code).IsStartOf whole)
    (hname : (scope.register? name).isSome) (hknown : e.KnownIn scope)
    (hnext : m.next = code.size) (hholds : scope.Holds m.registers values) :
    ∃ before : Code, emitAssignment scope.register name op e code =
        before.push (.store (scope.register name)) ∧
      m.Evaluates writer scope whole before.size (assignedValue values name op e) := by
  unfold emitAssignment assignedValue at *
  cases hop : op.binaryOp? with
  | none =>
    simp only [hop] at hcode
    exact ⟨_, rfl, e.follows_value writer hcode.of_push hknown hnext hholds⟩
  | some binary =>
    simp only [hop] at hcode
    refine ⟨_, rfl, ?_⟩
    have hbinary := hcode.of_push
    have hstart := (e.isStartOf_emit scope.register _).trans hbinary.of_push
    have hload := evaluates_load writer hstart hname hnext hholds
    simp only [bind, Except.bind, Array.size_push]
    cases hold : values.read name with
    | error fault =>
      rw [hold] at hload
      exact hload
    | ok old =>
      rw [hold] at hload
      obtain ⟨j, hreach⟩ := hload
      -- the old value stays on the stack, below all that the expression needs
      have hvalue := e.follows_value writer (m := m.pushed _ old) hbinary.of_push hknown
        (Array.size_push _).symm hholds
      cases hv : e.value values with
      | error fault =>
        rw [hv] at hvalue
        exact hvalue.after hreach rfl rfl
      | ok v =>
        rw [hv] at hvalue
        obtain ⟨k, hreach'⟩ := hvalue
        exact evaluates_binary hbinary (hreach.trans hreach')

/-! ### Conditions -/

theorem Expr.truth_eq_ok {c : Expr} {values : Environment} {b : Bool}
    (h : c.truth values = .ok b) : c.value values = .ok (.boolean b) := by
  simp only [Expr.truth, bind, Except.bind] at h
  split at h
  · simp at h
  · next v hv =>
    cases v with
    | boolean b' =>
      cases h
      exact hv
    | number x => simp at h

theorem Expr.truth_eq_error {c : Expr} {values : Environment} {fault : ProgramFault}
    (h : c.truth values = .error fault) :
    c.value values = .error fault ∨
      ∃ x, c.value values = .ok (.number x) ∧ fault = .conditionNotBoolean .number := by
  simp only [Expr.truth, bind, Except.bind] at h
  split at h
  · next fault' hfault =>
    cases h
    exact .inl hfault
  · next v hv =>
    cases v with
    | boolean b => simp at h
    | number x =>
      cases h
      exact .inr ⟨x, hv, rfl⟩

section Branching

variable {c : Expr} {code : Code} {values : Environment} {target : Nat} {m : Machine σ}

/-- A condition that has a truth value decides whether the machine goes on or jumps. -/
theorem reaches_branch (writer : Writer σ) {b : Bool}
    (hcode : Code.IsStartOf (Array.push (c.emit scope.register code) (.jumpIfFalse target)) whole)
    (hknown : c.KnownIn scope) (hnext : m.next = code.size)
    (hholds : scope.Holds m.registers values) (htarget : target ≤ whole.size)
    (hc : c.truth values = .ok b) :
    ∃ k, Reaches writer whole (k + 1) m
      { m with next := if b then (c.emit scope.register code).size + 1 else target } := by
  have hvalue := c.follows_value writer hcode.of_push hknown hnext hholds
  rw [Expr.truth_eq_ok hc] at hvalue
  obtain ⟨k, hreach⟩ := hvalue
  refine ⟨k, hreach.trans (.single hcode.getElem?_size ?_)⟩
  cases b with
  | true => simp [step, pushed]
  | false => simp [step, pushed, goTo, htarget]

/-- A condition without a truth value is a fault. -/
theorem fails_branch (writer : Writer σ) {fault : ProgramFault}
    (hcode : Code.IsStartOf (Array.push (c.emit scope.register code) (.jumpIfFalse target)) whole)
    (hknown : c.KnownIn scope) (hnext : m.next = code.size)
    (hholds : scope.Holds m.registers values) (hc : c.truth values = .error fault) :
    Fails writer whole m (fault.onMachine scope.register) := by
  have hvalue := c.follows_value writer hcode.of_push hknown hnext hholds
  rcases Expr.truth_eq_error hc with hfault | ⟨x, hx, rfl⟩
  · rw [hfault] at hvalue
    exact hvalue
  · rw [hx] at hvalue
    obtain ⟨k, hreach⟩ := hvalue
    have hstep : step writer whole.size (.jumpIfFalse target)
        (m.pushed (c.emit scope.register code).size (.number x)) =
        .faulted (.conditionNotBoolean .number)
          { m with next := (c.emit scope.register code).size } := by
      simp [step, pushed, Value.type]
    exact ⟨k, _, _, hreach, .faults hcode.getElem?_size hstep, rfl, rfl⟩

end Branching

end Simulation

end Kestrel
