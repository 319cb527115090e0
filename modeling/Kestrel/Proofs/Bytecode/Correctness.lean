import Kestrel.Proofs.Bytecode.Statements

/-!
# Compiled programs do what they mean

A program that compiles and its code, interpreted with a writer that refuses nothing, end alike or
both go on without end.

## Main definitions

- `Shows` — what a run of the machine shows of the end of a program
- `Code.Implements` — code does what a program means, under every step budget

## Main statements

- `Program.implements_of_compile` — compiled code implements its program
-/

namespace Kestrel

open Machine

variable {σ : Type} {writer : Writer σ} {output : σ} {scope : Scope} {whole : Code}

/-! ### The top level -/

/-- The machine follows a statement at the top level. -/
theorem Stmt.RunsTop.follows {s : Stmt} {st st' : State} {exit : Exit} (h : s.RunsTop st st' exit)
    (hwriter : writer.Accepts) (hnumbered : scope.Numbered) (hknown : s.KnownIn scope false)
    {code : Code} {m : Machine σ}
    (hm : Enters writer output scope whole default code (s.emitTop scope.register code) m st) :
    Follows writer output scope whole default (s.emitTop scope.register code).size m st' exit := by
  cases h with
  | expression he =>
    have hvalue := Expr.follows_value writer hm.starts hknown hm.next_eq hm.models.registers
    rw [he] at hvalue
    obtain ⟨k, hreach⟩ := hvalue
    exact .done hreach rfl ⟨by simp [pushed, State.leave, hm.models.stack],
      hm.models.registers, hm.models.printed⟩
  | expressionFails he =>
    have hvalue := Expr.follows_value writer hm.starts hknown hm.next_eq hm.models.registers
    rw [he] at hvalue
    exact Fails.follows hvalue hm.models
  | other hs hruns =>
    rw [Stmt.emitTop_of_ne _ hs] at hm ⊢
    exact hruns.follows hwriter hnumbered hknown hm

theorem Program.Runs.follows {program : Program} {st st' : State} {exit : Exit}
    (h : program.Runs st st' exit) (hwriter : writer.Accepts) (hnumbered : scope.Numbered)
    (hknown : Stmt.AllKnownIn scope false program) {code : Code} {m : Machine σ}
    (hm : Enters writer output scope whole default code (program.emit scope.register code) m st) :
    Follows writer output scope whole default (program.emit scope.register code).size m st'
      exit := by
  induction h generalizing code m with
  | nil => exact .done (.refl m) hm.next_eq hm.models
  | @cons s rest st st₁ st₂ exit hs hrest ih =>
    have hfirst := { hm with
      starts := (Program.isStartOf_emit scope.register rest _).trans hm.starts }
    obtain ⟨k, m', hreach, hnext, hmodels⟩ :=
      (hs.follows hwriter hnumbered hknown.1 hfirst).reaches_stop
    exact (ih hknown.2 ⟨hm.starts, hm.start_le, hm.stop_le, hnext, hmodels⟩).after hreach
  | @stop s rest st st' exit hs hexit =>
    have hfirst := { hm with
      starts := (Program.isStartOf_emit scope.register rest _).trans hm.starts }
    exact (hs.follows hwriter hnumbered hknown.1 hfirst).of_ne_done hexit _

/-- A program ends if the machine stops. -/
theorem Program.runs_of_endsWithin (hwriter : writer.Accepts) (hnumbered : scope.Numbered)
    {n : Nat} {program : Program} (hknown : Stmt.AllKnownIn scope false program) {code : Code}
    {m : Machine σ} {st : State}
    (hm : Enters writer output scope whole default code (program.emit scope.register code) m st)
    (hends : EndsWithin writer whole n m) : ∃ st' exit, program.Runs st st' exit := by
  induction program generalizing code m st n with
  | nil => exact ⟨_, _, .nil⟩
  | cons s rest ih =>
    have hfirst : Enters writer output scope whole default code (s.emitTop scope.register code) m
        st :=
      { hm with starts := (Program.isStartOf_emit scope.register rest _).trans hm.starts }
    have hs : ∃ st₁ exit, s.RunsTop st st₁ exit := by
      -- expressions end by themselves; for other statements the machine decides
      by_cases htop : ∃ e span, s = .expression e span
      · obtain ⟨e, span, rfl⟩ := htop
        cases he : e.value st.values with
        | ok v => exact ⟨_, _, .expression he⟩
        | error f => exact ⟨_, _, .expressionFails he⟩
      · have hne : ∀ e span, s ≠ .expression e span := fun e span heq => htop ⟨e, span, heq⟩
        rw [Stmt.emitTop_of_ne _ hne] at hfirst
        obtain ⟨st₁, exit, hruns⟩ :=
          Stmt.runs_of_endsWithin hwriter hnumbered n s hknown.1 hfirst hends
        exact ⟨st₁, exit, .other hne hruns⟩
    obtain ⟨st₁, exit, hs⟩ := hs
    by_cases hexit : exit = .done
    · subst hexit
      obtain ⟨k, m', hreach, hnext, hmodels⟩ :=
        (hs.follows hwriter hnumbered hknown.1 hfirst).reaches_stop
      obtain ⟨st', exit, hrest⟩ := ih hknown.2
        ⟨hm.starts, hm.start_le, hm.stop_le, hnext, hmodels⟩ (hends.after hreach).2
      exact ⟨st', exit, .cons hs hrest⟩
    · exact ⟨st₁, exit, .stop hs hexit⟩

/-! ### No loop is left at the top level -/

mutual

/-- Only a statement inside a loop leaves or restarts one. -/
theorem Stmt.Runs.inLoop_of_exit {s : Stmt} {st st' : State} {exit : Exit}
    (h : s.Runs st st' exit) {inLoop : Bool} (hknown : s.KnownIn scope inLoop)
    (hexit : exit = .broke ∨ exit = .continued) : inLoop = true := by
  match h with
  | .breakLoop => exact hknown
  | .continueLoop => exact hknown
  | .ifThen (b := b) hc hbranch =>
    exact hbranch.inLoop_of_exit
      (Stmt.allKnownIn_ite b hknown.2 (Stmt.allKnownIn_nil scope inLoop)) hexit
  | .ifElse (b := b) hc hbranch =>
    exact hbranch.inLoop_of_exit (Stmt.allKnownIn_ite b hknown.2.1 hknown.2.2) hexit
  | .whileRepeats hc hbody hround hrest => exact hrest.inLoop_of_exit hknown hexit
  | .expression _ | .assign _ | .print _ | .whileEnds _ | .whileBreaks _ _ => simp at hexit
  | .expressionFails _ | .assignFails _ | .printFails _ | .ifThenFails _ | .ifElseFails _
  | .whileFails _ | .whileBodyFails _ _ => simp at hexit
termination_by structural h

theorem Stmt.RunsAll.inLoop_of_exit {ss : List Stmt} {st st' : State} {exit : Exit}
    (h : Stmt.RunsAll ss st st' exit) {inLoop : Bool} (hknown : Stmt.AllKnownIn scope inLoop ss)
    (hexit : exit = .broke ∨ exit = .continued) : inLoop = true := by
  match h with
  | .nil => simp at hexit
  | .cons hs hrest => exact hrest.inLoop_of_exit hknown.2 hexit
  | .stop hs _ => exact hs.inLoop_of_exit hknown.1 hexit
termination_by structural h

end

/-- An accepted statement at the top level ends in order or with a fault. -/
theorem Stmt.RunsTop.exit_of_known {s : Stmt} {st st' : State} {exit : Exit}
    (h : s.RunsTop st st' exit) (hknown : s.KnownIn scope false) :
    exit = .done ∨ ∃ fault, exit = .failed fault := by
  cases h with
  | expression => exact .inl rfl
  | expressionFails => exact .inr ⟨_, rfl⟩
  | other _ hruns =>
    cases exit with
    | done => exact .inl rfl
    | failed fault => exact .inr ⟨fault, rfl⟩
    | broke => exact absurd (hruns.inLoop_of_exit hknown (.inl rfl)) Bool.false_ne_true
    | continued => exact absurd (hruns.inLoop_of_exit hknown (.inr rfl)) Bool.false_ne_true

/-- An accepted program ends behind its last statement or with a fault. -/
theorem Program.Runs.exit_of_known {program : Program} {st st' : State} {exit : Exit}
    (h : program.Runs st st' exit) (hknown : Stmt.AllKnownIn scope false program) :
    exit = .done ∨ ∃ fault, exit = .failed fault := by
  induction h with
  | nil => exact .inl rfl
  | cons hs hrest ih => exact ih hknown.2
  | stop hs hexit => exact hs.exit_of_known hknown.1

/-! ### Whole runs -/

/-- A run of the machine shows how and where a program ended. -/
structure Shows (writer : Writer σ) (output : σ) (scope : Scope) (st : State) (exit : Exit)
    (result : Execution × σ) : Prop where
  /-- The printed lines are written and flushed. -/
  output : (writer.lines st.printed output).bind writer.flush = .ok result.2
  /-- The registers hold the values of the names. -/
  registers : scope.Holds result.1.store.registers st.values
  /-- At the end of the program the values that it left are on the stack. -/
  stack : exit = .done → result.1.store.stack = st.results
  /-- The run ends well if the program does. -/
  ok : exit = .done → result.1.outcome = .ok ()
  /-- The run fails if the program does, with the same fault. -/
  failed : ∀ fault, exit = .failed fault →
    ∃ i, result.1.outcome = .error (.fault (fault.onMachine scope.register) i)
  /-- There is no third way. -/
  exit_eq : exit = .done ∨ ∃ fault, exit = .failed fault

/-- A run was ended by the limit on its steps. -/
def Execution.LimitReached (limit : Nat) (execution : Execution) : Prop :=
  ∃ i, execution.outcome = .error (.fault (.stepLimit limit) i)

/-- Code does what a program means: under every budget of steps that is enough it shows how the
program ends, and no budget is enough only if the program has no end. -/
structure Code.Implements (writer : Writer σ) (output : σ) (scope : Scope) (program : Program)
    (code : Code) : Prop where
  ends_of_run : ∀ limit, ¬ (interpret writer limit code output).1.LimitReached limit →
    ∃ st exit, program.Runs .initial st exit ∧
      Shows writer output scope st exit (interpret writer limit code output)
  run_of_ends : ∀ st exit, program.Runs .initial st exit →
    ∃ enough, ∀ limit, enough ≤ limit →
      Shows writer output scope st exit (interpret writer limit code output)
  endless : (∀ st exit, ¬ program.Runs .initial st exit) →
    ∀ limit, (interpret writer limit code output).1.LimitReached limit

theorem interpret_of_stops {code : Code} {k : Nat} {m₁ m' : Machine σ} {output' : σ}
    {ending : Option (Fault × Nat)} (hreach : Reaches writer code k (.start output) m₁)
    (hstop : Stops writer code m₁ m' ending) (hflush : writer.flush m'.output = .ok output')
    {limit : Nat} (hlimit : k < limit) :
    interpret writer limit code output = (⟨m'.store, outcomeOf ending none⟩, output') := by
  have hrun : runFor writer code limit limit (.start output) = (m', ending) := by
    obtain ⟨left, rfl⟩ := Nat.exists_eq_add_of_le (Nat.le_of_lt hlimit)
    rw [runFor_of_reaches hreach]
    exact runFor_of_stops hstop _ (by omega)
  simp only [interpret, hrun, hflush]

/-- A run that is not ended by the limit stops within its budget. -/
theorem endsWithin_of_not_limitReached {code : Code} {limit : Nat}
    (h : ¬ (interpret writer limit code output).1.LimitReached limit) :
    ∃ k m₁ m' ending, k ≤ limit ∧ Reaches writer code k (.start output) m₁ ∧
      Stops writer code m₁ m' ending ∧
      runFor writer code limit limit (.start output) = (m', ending) := by
  rcases runFor_cases writer code limit limit (.start output) with hstops | ⟨m', -, -, hrun⟩
  · exact hstops
  · refine absurd ⟨m'.next, ?_⟩ h
    simp only [interpret, hrun]
    split <;> rfl

/-- A run that is not ended by the limit is the same under every larger limit. -/
theorem interpret_eq_of_le {code : Code} {limit limit' : Nat}
    (h : ¬ (interpret writer limit code output).1.LimitReached limit) (hle : limit ≤ limit') :
    interpret writer limit' code output = interpret writer limit code output := by
  obtain ⟨k, m₁, m', ending, hk, hreach, hstop, hrun⟩ := endsWithin_of_not_limitReached h
  rcases Nat.eq_or_lt_of_le hle with rfl | hlt
  · rfl
  · have hrun' : runFor writer code limit' limit' (.start output) = (m', ending) := by
      obtain ⟨left, rfl⟩ := Nat.exists_eq_add_of_le (Nat.le_trans hk hle)
      rw [runFor_of_reaches hreach]
      exact runFor_of_stops hstop _ (by omega)
    simp only [interpret, hrun, hrun']

/-- The code of a whole program stands in front of its `halt`. -/
theorem Program.enters_start (writer : Writer σ) (scope : Scope) (program : Program)
    (output : σ) :
    Enters writer output scope (program.lower scope.register) default #[]
      (program.emit scope.register #[]) (.start output) .initial :=
  ⟨.push _ _, Nat.zero_le _, Nat.zero_le _, rfl, rfl, .empty scope, rfl⟩

/-- If a program ends, then every budget that is large enough shows how. -/
theorem Program.shows_of_runs (hwriter : writer.Accepts) (output : σ) (hnumbered : scope.Numbered)
    {program : Program} (hknown : Stmt.AllKnownIn scope false program) {st : State} {exit : Exit}
    (h : program.Runs .initial st exit) :
    ∃ k, ∀ limit, k < limit → Shows writer output scope st exit
      (interpret writer limit (program.lower scope.register) output) := by
  have hfollow := h.follows hwriter hnumbered hknown
    (Program.enters_start writer scope program output)
  rcases h.exit_of_known hknown with rfl | ⟨fault, rfl⟩
  · cases hfollow with
    | @done k m' hreach hnext hmodels =>
      -- behind the last statement stands the `halt`
      obtain ⟨output', hflush⟩ := hwriter.flush m'.output
      have hstop : Stops writer (program.lower scope.register) m' m' none :=
        .halts (hnext ▸ (Code.IsStartOf.refl _).getElem?_size) rfl
      refine ⟨k, fun limit hlimit => ?_⟩
      rw [interpret_of_stops hreach hstop hflush hlimit]
      exact ⟨by rw [hmodels.printed]; exact hflush, hmodels.registers, fun _ => hmodels.stack,
        fun _ => rfl, by simp, .inl rfl⟩
  · cases hfollow with
    | @failed k m₁ m' _ hreach hstop hregisters hprinted =>
      obtain ⟨output', hflush⟩ := hwriter.flush m'.output
      refine ⟨k, fun limit hlimit => ?_⟩
      rw [interpret_of_stops hreach hstop hflush hlimit]
      exact ⟨by rw [hprinted]; exact hflush, hregisters, by simp, by simp,
        fun _ hfault => ⟨m₁.next, by cases hfault; rfl⟩, .inr ⟨fault, rfl⟩⟩

/-- Compiled code implements its program: with a writer that refuses nothing, and under every
budget of steps, both print the same, leave the same values and come to the same end. -/
theorem Program.implements_of_compile {program : Program} {code : Code}
    (hcompile : program.compile = .ok code) :
    ∃ scope, program.scope = .ok scope ∧
      ∀ {σ : Type} (writer : Writer σ), writer.Accepts →
        ∀ output, code.Implements writer output scope program := by
  obtain ⟨scope, hscope, rfl⟩ := Program.exists_scope_of_compile hcompile
  obtain ⟨hnumbered, hknown⟩ := Program.known_of_scope hscope
  refine ⟨scope, hscope, fun {σ} writer hwriter output => ?_⟩
  have hends : ∀ limit,
      ¬ (interpret writer limit (program.lower scope.register) output).1.LimitReached limit →
      ∃ st exit, program.Runs .initial st exit := by
    intro limit hlimit
    obtain ⟨k, m₁, m', ending, hk, hreach, hstop, -⟩ := endsWithin_of_not_limitReached hlimit
    exact Program.runs_of_endsWithin hwriter hnumbered hknown
      (Program.enters_start writer scope program output)
      ⟨k, m₁, m', ending, hk, hreach, hstop⟩
  constructor
  · intro limit hlimit
    obtain ⟨st, exit, hruns⟩ := hends limit hlimit
    obtain ⟨k, hshows⟩ := Program.shows_of_runs hwriter output hnumbered hknown hruns
    refine ⟨st, exit, hruns, ?_⟩
    -- the run is the same under a budget that is known to be large enough
    rw [← interpret_eq_of_le hlimit (Nat.le_max_left limit (k + 1))]
    exact hshows _ (Nat.le_max_right limit (k + 1))
  · intro st exit hruns
    obtain ⟨k, hshows⟩ := Program.shows_of_runs hwriter output hnumbered hknown hruns
    exact ⟨k + 1, hshows⟩
  · intro hendless limit
    refine Classical.byContradiction fun hlimit => ?_
    obtain ⟨st, exit, hruns⟩ := hends limit hlimit
    exact hendless st exit hruns

/-! ### A program with nested exits -/

section NestedExits

/-- A value is left, a loop is left and restarted from inside a conditional, and the last statement
is a fault. -/
def nestedExits : Program :=
  let span : Span := ⟨0, 0⟩
  let x : Expr := .name "x" span
  [.assign "x" .set (.number 0 span) span,
    .expression x span,
    .whileDo (.binary x .lt (.number 10 span) span)
      [.assign "x" .add (.number 1 span) span,
        .ifElse (.binary x .eq (.number 4 span) span) [.breakLoop span] [.continueLoop span] span]
      span,
    .print (.binary x .mul (.boolean true span) span) span]

/-- Its code. -/
def nestedExitsCode : Code :=
  #[.push (.number 0), .store .first, .load .first, .load .first, .push (.number 10), .binary .lt,
    .jumpIfFalse 19, .load .first, .push (.number 1), .binary .add, .store .first, .load .first,
    .push (.number 4), .binary .eq, .jumpIfFalse 17, .jump 19, .jump 18, .jump 3, .jump 3,
    .load .first, .push (.boolean true), .binary .mul, .print, .halt]

theorem scope_nestedExits : nestedExits.scope = .ok ⟨Std.HashMap.insert ∅ "x" .first⟩ := by
  simp [Program.scope, nestedExits, Stmt.declareAll, Stmt.declare, checkAssignment, Expr.check,
    Scope.assign, Scope.assign?, Scope.read, Scope.register?, Scope.empty, AssignOp.binaryOp?, bind,
    Except.bind, pure, Except.pure, registerCount, Register.first]

theorem compile_nestedExits : nestedExits.compile = .ok nestedExitsCode := by
  have hx : Scope.register ⟨Std.HashMap.insert ∅ "x" .first⟩ "x" = .first := by
    simp [Scope.register, Scope.register?]
  rw [Program.compile, scope_nestedExits]
  simp [Except.map, Program.lower, nestedExits, nestedExitsCode, Stmt.emitTop, Stmt.emit,
    Stmt.emitAll, Expr.emit, Stmt.size, Stmt.sizes, Expr.size, emitAssignment, AssignOp.binaryOp?,
    hx]

/-- What compiled code does holds of this program and the writer that keeps all lines. -/
theorem implements_nestedExits :
    nestedExits.compile = .ok nestedExitsCode ∧ Writer.keeping.Accepts ∧
      ∃ scope, nestedExits.scope = .ok scope ∧
        nestedExitsCode.Implements Writer.keeping [] scope nestedExits := by
  obtain ⟨scope, hscope, himplements⟩ := Program.implements_of_compile compile_nestedExits
  exact ⟨compile_nestedExits, Writer.accepts_keeping, scope, hscope,
    himplements Writer.keeping Writer.accepts_keeping []⟩

end NestedExits

end Kestrel
