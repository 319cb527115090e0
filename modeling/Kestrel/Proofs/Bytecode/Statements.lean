import Kestrel.Proofs.Bytecode.Simulation

/-!
# The code of statements

What a statement does, its code does; and where the code comes to an end, the statement does. The
first is shown by induction on what the statement does, the second by induction on the steps that
the machine still takes.

## Main definitions

- `Machine.Enters` — the machine stands in front of the code of a construct
- `Machine.LeadsInto` — some steps lead to the code of a block

## Main statements

- `Stmt.Runs.follows` — the machine follows a statement that ends
- `Stmt.runs_of_endsWithin` — a statement ends if the machine stops at all
-/

namespace Kestrel

open Machine

variable {σ : Type} (writer : Writer σ) (output : σ) (scope : Scope) (whole : Code)

/-- The machine stands in front of code that was emitted behind `code`, in a state that stands for
one of the program. The exits of the loop around it lie in the whole code. -/
structure Machine.Enters (exits : LoopExits) (code emitted : Code) (m : Machine σ) (st : State) :
    Prop where
  starts : emitted.IsStartOf whole
  start_le : exits.start ≤ whole.size
  stop_le : exits.stop ≤ whole.size
  next_eq : m.next = code.size
  models : Models writer output scope m st

/-- Some steps lead to the code of a block, and what follows the block goes on at `stop`. -/
def Machine.LeadsInto (exits : LoopExits) (ss : List Stmt) (stop : Nat) (m : Machine σ)
    (st : State) : Prop :=
  ∃ k m' code, Reaches writer whole (k + 1) m m' ∧
    Enters writer output scope whole exits code (Stmt.emitAll scope.register exits ss code) m' st ∧
    ∀ {st' exit}, Follows writer output scope whole exits
        (Stmt.emitAll scope.register exits ss code).size m' st' exit →
      Follows writer output scope whole exits stop m' st' exit

variable {writer output scope whole}

theorem Machine.Models.goTo {m : Machine σ} {st : State} (h : Models writer output scope m st)
    (next : Nat) : Models writer output scope { m with next } st :=
  ⟨h.stack, h.registers, h.printed⟩

namespace Machine.Follows

variable {exits exits' : LoopExits} {stop stop' : Nat} {m m' : Machine σ} {st : State} {exit : Exit}

/-- An expression is evaluated, and the instruction after it does the rest. -/
theorem of_value {v : Value} {instruction : Instruction} {code : Code}
    (hvalue : m.Evaluates writer scope whole code.size (.ok v))
    (hcode : Code.IsStartOf (Array.push code instruction) whole)
    (hstep : step writer whole.size instruction (m.pushed code.size v) = .running m')
    (hnext : m'.next = stop) (hmodels : Models writer output scope m' st) :
    Follows writer output scope whole exits stop m st .done := by
  obtain ⟨k, hreach⟩ := hvalue
  exact .done (hreach.trans (.single hcode.getElem?_size hstep)) hnext hmodels

/-- A fault is the same wherever the loop around it goes on. -/
theorem of_failed {fault : ProgramFault}
    (h : Follows writer output scope whole exits stop m st (.failed fault)) :
    Follows writer output scope whole exits' stop' m st (.failed fault) := by
  cases h with
  | failed hreach hstop hregisters hprinted => exact .failed hreach hstop hregisters hprinted

/-- A body that leaves its loop is followed by what comes after the loop. -/
theorem done_of_broke (h : Follows writer output scope whole exits stop m st .broke) :
    Follows writer output scope whole exits' exits.stop m st .done := by
  cases h with
  | broke hreach hnext hmodels => exact .done hreach hnext hmodels

/-- After a round of a loop the machine is back at its start. -/
theorem reaches_start (h : Follows writer output scope whole exits exits.start m st exit)
    (hround : exit.roundEnds = true) :
    ∃ k m', Reaches writer whole k m m' ∧ m'.next = exits.start ∧
      Models writer output scope m' st := by
  cases h with
  | done hreach hnext hmodels => exact ⟨_, _, hreach, hnext, hmodels⟩
  | continued hreach hnext hmodels => exact ⟨_, _, hreach, hnext, hmodels⟩
  | broke => simp [Exit.roundEnds] at hround
  | failed => simp [Exit.roundEnds] at hround

end Machine.Follows

/-! ### Statements without blocks -/

section Simple

variable {name : String} {op : AssignOp} {e : Expr} {span : Span} {st : State} {v : Value}
  {fault : ProgramFault} {exits : LoopExits} {code emitted : Code} {m : Machine σ}

/-- An expression without a value comes to its fault, whatever was to come after it. -/
theorem follows_valueFails {instruction : Instruction} {stop : Nat} (hknown : e.KnownIn scope)
    (hm : Enters writer output scope whole exits code
      (Array.push (e.emit scope.register code) instruction) m st)
    (he : e.value st.values = .error fault) :
    Follows writer output scope whole exits stop m st (.failed fault) := by
  have hvalue := e.follows_value writer hm.starts.of_push hknown hm.next_eq hm.models.registers
  rw [he] at hvalue
  exact Fails.follows hvalue hm.models

theorem follows_expression (hknown : e.KnownIn scope)
    (hm : Enters writer output scope whole exits code
      (Array.push (e.emit scope.register code) .pop) m st)
    (he : e.value st.values = .ok v) :
    Follows writer output scope whole exits ((e.emit scope.register code).size + 1) m st .done := by
  have hvalue := e.follows_value writer hm.starts.of_push hknown hm.next_eq hm.models.registers
  rw [he] at hvalue
  exact .of_value hvalue hm.starts rfl rfl (hm.models.goTo _)

theorem follows_print (hwriter : writer.Accepts) (hknown : e.KnownIn scope)
    (hm : Enters writer output scope whole exits code
      (Array.push (e.emit scope.register code) .print) m st)
    (he : e.value st.values = .ok v) :
    Follows writer output scope whole exits ((e.emit scope.register code).size + 1) m
      (st.print v) .done := by
  have hvalue := e.follows_value writer hm.starts.of_push hknown hm.next_eq hm.models.registers
  rw [he] at hvalue
  obtain ⟨output', hline⟩ := hwriter.line v.text m.output
  have hstep : step writer whole.size .print (m.pushed (e.emit scope.register code).size v) =
      .running { m with next := (e.emit scope.register code).size + 1, output := output' } := by
    simp [step, pushed, hline]
  exact .of_value hvalue hm.starts hstep rfl
    ⟨hm.models.stack, hm.models.registers, Writer.lines_concat hm.models.printed hline⟩

theorem follows_assign (hnumbered : scope.Numbered) (hname : (scope.register? name).isSome)
    (hknown : e.KnownIn scope)
    (hm : Enters writer output scope whole exits code
      (emitAssignment scope.register name op e code) m st)
    (he : assignedValue st.values name op e = .ok v) :
    Follows writer output scope whole exits
      (emitAssignment scope.register name op e code).size m (st.assign name v) .done := by
  obtain ⟨before, hbefore, hvalue⟩ :=
    evaluates_assignment writer hm.starts hname hknown hm.next_eq hm.models.registers
  have hstarts := hm.starts
  rw [he] at hvalue
  rw [hbefore] at hstarts ⊢
  exact .of_value hvalue hstarts rfl (Array.size_push _).symm
    ⟨hm.models.stack, hm.models.registers.insert hnumbered hname v, hm.models.printed⟩

theorem follows_assignFails {stop : Nat} (hname : (scope.register? name).isSome)
    (hknown : e.KnownIn scope)
    (hm : Enters writer output scope whole exits code
      (emitAssignment scope.register name op e code) m st)
    (he : assignedValue st.values name op e = .error fault) :
    Follows writer output scope whole exits stop m st (.failed fault) := by
  obtain ⟨before, -, hvalue⟩ :=
    evaluates_assignment writer hm.starts hname hknown hm.next_eq hm.models.registers
  rw [he] at hvalue
  exact Fails.follows hvalue hm.models

end Simple

/-! ### Blocks -/

section Blocks

variable {s : Stmt} {ss : List Stmt} {c : Expr} {body otherwise : List Stmt} {span : Span}
  {st : State} {b : Bool} {fault : ProgramFault} {exits : LoopExits} {code : Code} {m : Machine σ}

theorem Machine.Enters.first
    (hm : Enters writer output scope whole exits code
      (Stmt.emitAll scope.register exits (s :: ss) code) m st) :
    Enters writer output scope whole exits code (s.emit scope.register exits code) m st :=
  { hm with starts := (Stmt.isStartOf_emitAll scope.register exits ss _).trans hm.starts }

theorem Machine.Enters.rest {m' : Machine σ} {st' : State}
    (hm : Enters writer output scope whole exits code
      (Stmt.emitAll scope.register exits (s :: ss) code) m st)
    (hnext : m'.next = (s.emit scope.register exits code).size)
    (hmodels : Models writer output scope m' st') :
    Enters writer output scope whole exits (s.emit scope.register exits code)
      (Stmt.emitAll scope.register exits ss (s.emit scope.register exits code)) m' st' :=
  ⟨hm.starts, hm.start_le, hm.stop_le, hnext, hmodels⟩

theorem Stmt.allKnownIn_ite {inLoop : Bool} (b : Bool)
    (hbody : Stmt.AllKnownIn scope inLoop body)
    (hotherwise : Stmt.AllKnownIn scope inLoop otherwise) :
    Stmt.AllKnownIn scope inLoop (if b then body else otherwise) := by
  cases b
  · exact hotherwise
  · exact hbody

/-- A condition without a truth value ends what it stands in front of. -/
theorem follows_conditionFails {emitted : Code} {target stop : Nat} (hknown : c.KnownIn scope)
    (hm : Enters writer output scope whole exits code emitted m st)
    (htest : Code.IsStartOf (Array.push (c.emit scope.register code) (.jumpIfFalse target)) emitted)
    (hc : c.truth st.values = .error fault) :
    Follows writer output scope whole exits stop m st (.failed fault) :=
  (fails_branch writer (htest.trans hm.starts) hknown hm.next_eq hm.models.registers hc).follows
    hm.models

/-- A conditional without an `else` leads into its block, or behind itself. -/
theorem leadsInto_ifThen (hknown : c.KnownIn scope)
    (hm : Enters writer output scope whole exits code
      ((Stmt.ifThen c body span).emit scope.register exits code) m st)
    (hc : c.truth st.values = .ok b) :
    LeadsInto writer output scope whole exits (if b then body else [])
      ((Stmt.ifThen c body span).emit scope.register exits code).size m st := by
  have hsize := Stmt.size_emit scope.register exits (.ifThen c body span) code
  have hle := hm.starts.size_le
  simp only [Stmt.size] at hsize
  obtain ⟨k, hreach⟩ := reaches_branch writer
    ((Stmt.isStartOf_emitAll scope.register exits body _).trans hm.starts) hknown hm.next_eq
    hm.models.registers (by simp only [Expr.size_emit]; omega) hc
  cases b with
  | true =>
    exact ⟨k, _, _, hreach, ⟨hm.starts, hm.start_le, hm.stop_le, (Array.size_push _).symm,
      hm.models.goTo _⟩, id⟩
  | false =>
    -- the empty block stands behind the conditional, where the jump leads
    refine ⟨k, _, (Stmt.ifThen c body span).emit scope.register exits code, hreach,
      ⟨hm.starts, hm.start_le, hm.stop_le, ?_, hm.models.goTo _⟩, id⟩
    simp only [Expr.size_emit, hsize, Bool.false_eq_true, if_false]
    omega

/-- A conditional with an `else` leads into one of its blocks. -/
theorem leadsInto_ifElse (hknown : c.KnownIn scope)
    (hm : Enters writer output scope whole exits code
      ((Stmt.ifElse c body otherwise span).emit scope.register exits code) m st)
    (hc : c.truth st.values = .ok b) :
    LeadsInto writer output scope whole exits (if b then body else otherwise)
      ((Stmt.ifElse c body otherwise span).emit scope.register exits code).size m st := by
  have hsize : ((Stmt.ifElse c body otherwise span).emit scope.register exits code).size =
      (c.emit scope.register code).size + 1 + Stmt.sizes body + 1 + Stmt.sizes otherwise := by
    simp only [Stmt.size_emit, Expr.size_emit, Stmt.size]
    omega
  have hle := hm.starts.size_le
  -- in front of the `else` block stands the jump over it
  have hjump := (Stmt.isStartOf_emitAll scope.register exits otherwise _).trans hm.starts
  obtain ⟨k, hreach⟩ := reaches_branch writer
    ((Stmt.isStartOf_emitAll scope.register exits body _).trans hjump.of_push) hknown hm.next_eq
    hm.models.registers (by omega) hc
  rw [hsize] at hle ⊢
  cases b with
  | true =>
    exact ⟨k, _, _, hreach, ⟨hjump.of_push, hm.start_le, hm.stop_le, (Array.size_push _).symm,
      hm.models.goTo _⟩, fun hfollow => hfollow.jump hjump.getElem?_size hle⟩
  | false =>
    refine ⟨k, _, _, hreach, ⟨hm.starts, hm.start_le, hm.stop_le, ?_, hm.models.goTo _⟩,
      fun hfollow => hsize ▸ hfollow⟩
    simp only [Array.size_push, Stmt.size_emitAll, Bool.false_eq_true, if_false]

/-- The exits that the body of a loop has. -/
def bodyExits (register : String → Register) (c : Expr) (body : List Stmt) (code : Code) :
    LoopExits :=
  ⟨code.size, (c.emit register code).size + 1 + Stmt.sizes body + 1⟩

theorem size_emit_whileDo (register : String → Register) :
    ((Stmt.whileDo c body span).emit register exits code).size =
      (bodyExits register c body code).stop := by
  simp only [Stmt.size_emit, bodyExits, Expr.size_emit, Stmt.size]
  omega

theorem bodyExits_le
    (hcode : ((Stmt.whileDo c body span).emit scope.register exits code).IsStartOf whole) :
    (bodyExits scope.register c body code).start ≤ whole.size ∧
      (bodyExits scope.register c body code).stop ≤ whole.size := by
  have hle := hcode.size_le
  have hstart := (Stmt.isStartOf_emit scope.register exits (.whileDo c body span) code).size_le
  rw [size_emit_whileDo] at hle hstart
  exact ⟨Nat.le_trans hstart hle, hle⟩

/-- The test of a loop leads into its body or behind the loop. -/
theorem reaches_loop (hknown : c.KnownIn scope)
    (hm : Enters writer output scope whole exits code
      ((Stmt.whileDo c body span).emit scope.register exits code) m st)
    (hc : c.truth st.values = .ok b) :
    ∃ k, Reaches writer whole (k + 1) m
      { m with next := if b then (c.emit scope.register code).size + 1
        else (bodyExits scope.register c body code).stop } :=
  reaches_branch writer
    ((Stmt.isStartOf_emitAll scope.register _ body _).trans hm.starts.of_push) hknown hm.next_eq
    hm.models.registers (bodyExits_le hm.starts).2 hc

/-- A loop whose condition is true leads into its body, from whose end it starts again. -/
theorem leadsInto_body (hknown : c.KnownIn scope)
    (hm : Enters writer output scope whole exits code
      ((Stmt.whileDo c body span).emit scope.register exits code) m st)
    (hc : c.truth st.values = .ok true) :
    LeadsInto writer output scope whole (bodyExits scope.register c body code) body code.size m
      st := by
  obtain ⟨k, hreach⟩ := reaches_loop hknown hm hc
  obtain ⟨hstart, hstop⟩ := bodyExits_le hm.starts
  exact ⟨k, _, _, hreach, ⟨hm.starts.of_push, hstart, hstop, (Array.size_push _).symm,
    hm.models.goTo _⟩, fun hfollow => hfollow.jump hm.starts.getElem?_size hstart⟩

/-- Back at the start of a loop, the machine stands in front of its code once more. -/
theorem Machine.Enters.again {m' : Machine σ} {st' : State} {round : Exit}
    (hm : Enters writer output scope whole exits code
      ((Stmt.whileDo c body span).emit scope.register exits code) m st)
    (hfollow : Follows writer output scope whole (bodyExits scope.register c body code) code.size
      m' st' round) (hround : round.roundEnds = true) :
    ∃ k m'', Reaches writer whole k m' m'' ∧ Enters writer output scope whole exits code
      ((Stmt.whileDo c body span).emit scope.register exits code) m'' st' := by
  obtain ⟨k, m'', hreach, hnext, hmodels⟩ := Follows.reaches_start hfollow hround
  exact ⟨k, m'', hreach, hm.starts, hm.start_le, hm.stop_le, hnext, hmodels⟩

end Blocks

/-! ### What a statement does, its code does -/

mutual

/-- The machine follows a statement that ends. -/
theorem Stmt.Runs.follows {s : Stmt} {st st' : State} {exit : Exit} (h : s.Runs st st' exit)
    (hwriter : writer.Accepts) (hnumbered : scope.Numbered) {inLoop : Bool}
    (hknown : s.KnownIn scope inLoop) {exits : LoopExits} {code : Code}
    {m : Machine σ} (hm : Enters writer output scope whole exits code
      (s.emit scope.register exits code) m st) :
    Follows writer output scope whole exits (s.emit scope.register exits code).size m st'
      exit := by
  match h with
  | .expression he => simpa [Stmt.emit] using follows_expression hknown hm he
  | .expressionFails he => exact follows_valueFails hknown hm he
  | .assign he => exact follows_assign hnumbered hknown.1 hknown.2 hm he
  | .assignFails he => exact follows_assignFails hknown.1 hknown.2 hm he
  | .print he => simpa [Stmt.emit] using follows_print hwriter hknown hm he
  | .printFails he => exact follows_valueFails hknown hm he
  | .ifThen (b := b) hc hbranch =>
    obtain ⟨k, m', code', hreach, hm', hstop⟩ := leadsInto_ifThen hknown.1 hm hc
    have hknown' := Stmt.allKnownIn_ite b hknown.2 (Stmt.allKnownIn_nil scope inLoop)
    exact (hstop (hbranch.follows hwriter hnumbered hknown' hm')).after hreach
  | .ifThenFails hc =>
    exact follows_conditionFails hknown.1 hm (Stmt.isStartOf_emitAll _ exits _ _) hc
  | .ifElse (b := b) hc hbranch =>
    obtain ⟨k, m', code', hreach, hm', hstop⟩ := leadsInto_ifElse hknown.1 hm hc
    have hknown' := Stmt.allKnownIn_ite b hknown.2.1 hknown.2.2
    exact (hstop (hbranch.follows hwriter hnumbered hknown' hm')).after hreach
  | .ifElseFails hc =>
    exact follows_conditionFails hknown.1 hm (((Stmt.isStartOf_emitAll _ exits _ _).trans
      (.push _ _)).trans (Stmt.isStartOf_emitAll _ exits _ _)) hc
  | .whileEnds hc =>
    obtain ⟨k, hreach⟩ := reaches_loop hknown.1 hm hc
    exact .done hreach (size_emit_whileDo _).symm (hm.models.goTo _)
  | .whileFails hc =>
    exact follows_conditionFails hknown.1 hm ((Stmt.isStartOf_emitAll _ _ _ _).trans
      (.push _ _)) hc
  | .whileRepeats hc hbody hround hrest =>
    obtain ⟨k, m', code', hreach, hm', hstop⟩ := leadsInto_body hknown.1 hm hc
    have hfollow := hstop (hbody.follows hwriter hnumbered hknown.2 hm')
    -- after a round the machine is in front of the same code, where the other rounds begin
    obtain ⟨j, m'', hreach', hm''⟩ := hm.again hfollow hround
    exact (hrest.follows hwriter hnumbered hknown hm'').after (hreach.trans hreach')
  | .whileBreaks hc hbody =>
    obtain ⟨k, m', code', hreach, hm', hstop⟩ := leadsInto_body hknown.1 hm hc
    rw [size_emit_whileDo]
    exact (hstop (hbody.follows hwriter hnumbered hknown.2 hm')).done_of_broke.after hreach
  | .whileBodyFails hc hbody =>
    obtain ⟨k, m', code', hreach, hm', hstop⟩ := leadsInto_body hknown.1 hm hc
    exact (hstop (hbody.follows hwriter hnumbered hknown.2 hm')).of_failed.after hreach
  | .breakLoop =>
    exact .broke (.single (hm.next_eq ▸ hm.starts.getElem?_size)
      (by simp [step, goTo, hm.stop_le])) rfl (hm.models.goTo _)
  | .continueLoop =>
    exact .continued (.single (hm.next_eq ▸ hm.starts.getElem?_size)
      (by simp [step, goTo, hm.start_le])) rfl (hm.models.goTo _)
termination_by structural h

theorem Stmt.RunsAll.follows {ss : List Stmt} {st st' : State} {exit : Exit}
    (h : Stmt.RunsAll ss st st' exit) (hwriter : writer.Accepts) (hnumbered : scope.Numbered)
    {inLoop : Bool} (hknown : Stmt.AllKnownIn scope inLoop ss) {exits : LoopExits} {code : Code}
    {m : Machine σ} (hm : Enters writer output scope whole exits code
      (Stmt.emitAll scope.register exits ss code) m st) :
    Follows writer output scope whole exits (Stmt.emitAll scope.register exits ss code).size m st'
      exit := by
  match h with
  | .nil => exact .done (.refl m) hm.next_eq hm.models
  | .cons hs hrest =>
    obtain ⟨k, m', hreach, hnext, hmodels⟩ :=
      (hs.follows hwriter hnumbered hknown.1 hm.first).reaches_stop
    exact (hrest.follows hwriter hnumbered hknown.2 (hm.rest hnext hmodels)).after hreach
  | .stop hs hexit => exact (hs.follows hwriter hnumbered hknown.1 hm.first).of_ne_done hexit _
termination_by structural h

end

/-! ### Where the code comes to an end, the statement does -/

/-- A statement without a block always ends. So only the cases with blocks need steps to count. -/
theorem Stmt.runs_of_noBlock (s : Stmt) (st : State)
    (h : ∀ c body otherwise span, s ≠ .ifThen c body span ∧ s ≠ .ifElse c body otherwise span ∧
      s ≠ .whileDo c body span) : ∃ st' exit, s.Runs st st' exit := by
  cases s with
  | expression e span =>
    cases he : e.value st.values with
    | ok v => exact ⟨_, _, .expression he⟩
    | error f => exact ⟨_, _, .expressionFails he⟩
  | assign name op e span =>
    cases he : assignedValue st.values name op e with
    | ok v => exact ⟨_, _, .assign he⟩
    | error f => exact ⟨_, _, .assignFails he⟩
  | print e span =>
    cases he : e.value st.values with
    | ok v => exact ⟨_, _, .print he⟩
    | error f => exact ⟨_, _, .printFails he⟩
  | breakLoop span => exact ⟨_, _, .breakLoop⟩
  | continueLoop span => exact ⟨_, _, .continueLoop⟩
  | ifThen c body span => exact absurd rfl (h c body [] span).1
  | ifElse c body otherwise span => exact absurd rfl (h c body otherwise span).2.1
  | whileDo c body span => exact absurd rfl (h c body [] span).2.2

mutual

/-- A statement ends if the machine, in front of its code, stops after at most `n` steps. -/
theorem Stmt.runs_of_endsWithin (hwriter : writer.Accepts) (hnumbered : scope.Numbered) (n : Nat)
    (s : Stmt) {inLoop : Bool} (hknown : s.KnownIn scope inLoop) {exits : LoopExits} {code : Code}
    {m : Machine σ} {st : State} (hm : Enters writer output scope whole exits code
      (s.emit scope.register exits code) m st) (hends : EndsWithin writer whole n m) :
    ∃ st' exit, s.Runs st st' exit := by
  -- every condition takes a step, and without one the statement gets smaller
  match s with
  | .ifThen c body span =>
    cases hc : c.truth st.values with
    | error f => exact ⟨_, _, .ifThenFails hc⟩
    | ok b =>
      obtain ⟨k, m', code', hreach, hm', -⟩ := leadsInto_ifThen hknown.1 hm hc
      obtain ⟨hle, hends'⟩ := hends.after hreach
      have hknown' := Stmt.allKnownIn_ite b hknown.2 (Stmt.allKnownIn_nil scope inLoop)
      obtain ⟨st', exit, hbranch⟩ := Stmt.runsAll_of_endsWithin hwriter hnumbered (n - (k + 1))
        (if b then body else []) hknown' hm' hends'
      exact ⟨st', exit, .ifThen hc hbranch⟩
  | .ifElse c body otherwise span =>
    cases hc : c.truth st.values with
    | error f => exact ⟨_, _, .ifElseFails hc⟩
    | ok b =>
      obtain ⟨k, m', code', hreach, hm', -⟩ := leadsInto_ifElse hknown.1 hm hc
      obtain ⟨hle, hends'⟩ := hends.after hreach
      have hknown' := Stmt.allKnownIn_ite b hknown.2.1 hknown.2.2
      obtain ⟨st', exit, hbranch⟩ := Stmt.runsAll_of_endsWithin hwriter hnumbered (n - (k + 1))
        (if b then body else otherwise) hknown' hm' hends'
      exact ⟨st', exit, .ifElse hc hbranch⟩
  | .whileDo c body span =>
    cases hc : c.truth st.values with
    | error f => exact ⟨_, _, .whileFails hc⟩
    | ok b =>
      cases b with
      | false => exact ⟨_, _, .whileEnds hc⟩
      | true =>
        obtain ⟨k, m', code', hreach, hm', hstop⟩ := leadsInto_body hknown.1 hm hc
        obtain ⟨hle, hends'⟩ := hends.after hreach
        obtain ⟨st₁, round, hbody⟩ :=
          Stmt.runsAll_of_endsWithin hwriter hnumbered (n - (k + 1)) body hknown.2 hm' hends'
        have hfollow := hstop (hbody.follows hwriter hnumbered hknown.2 hm')
        cases hround : round.roundEnds with
        | true =>
          -- the next round starts with fewer steps left
          obtain ⟨j, m'', hreach', hm''⟩ := hm.again hfollow hround
          obtain ⟨hle', hends''⟩ := hends'.after hreach'
          obtain ⟨st', exit, hrest⟩ :=
            Stmt.runs_of_endsWithin hwriter hnumbered (n - (k + 1) - j) (.whileDo c body span)
              hknown hm'' hends''
          exact ⟨st', exit, .whileRepeats hc hbody hround hrest⟩
        | false =>
          -- the body has left the loop or failed, and no steps are needed any more
          cases round with
          | broke => exact ⟨_, _, .whileBreaks hc hbody⟩
          | failed f => exact ⟨_, _, .whileBodyFails hc hbody⟩
          | done => simp [Exit.roundEnds] at hround
          | continued => simp [Exit.roundEnds] at hround
  | .expression _ _ | .assign _ _ _ _ | .print _ _ | .breakLoop _ | .continueLoop _ =>
    exact Stmt.runs_of_noBlock _ st (by simp)
termination_by (n, sizeOf s)

theorem Stmt.runsAll_of_endsWithin (hwriter : writer.Accepts) (hnumbered : scope.Numbered)
    (n : Nat) (ss : List Stmt) {inLoop : Bool} (hknown : Stmt.AllKnownIn scope inLoop ss)
    {exits : LoopExits} {code : Code} {m : Machine σ} {st : State}
    (hm : Enters writer output scope whole exits code
      (Stmt.emitAll scope.register exits ss code) m st) (hends : EndsWithin writer whole n m) :
    ∃ st' exit, Stmt.RunsAll ss st st' exit := by
  match ss with
  | [] => exact ⟨_, _, .nil⟩
  | s :: rest =>
    obtain ⟨st₁, exit, hs⟩ := Stmt.runs_of_endsWithin hwriter hnumbered n s hknown.1 hm.first hends
    by_cases hexit : exit = .done
    · subst hexit
      obtain ⟨k, m', hreach, hnext, hmodels⟩ :=
        (hs.follows hwriter hnumbered hknown.1 hm.first).reaches_stop
      have hends' := (hends.after hreach).2.mono (Nat.sub_le n k)
      obtain ⟨st', exit, hrest⟩ :=
        Stmt.runsAll_of_endsWithin hwriter hnumbered n rest hknown.2 (hm.rest hnext hmodels) hends'
      exact ⟨st', exit, .cons hs hrest⟩
    · exact ⟨st₁, exit, .stop hs hexit⟩
termination_by (n, sizeOf ss)

end

end Kestrel
