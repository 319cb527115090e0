import Kestrel.Proofs.Bytecode.Names
import Kestrel.Proofs.Bytecode.Layout
import Kestrel.Proofs.Machine.Balance

/-!
# The heights of compiled code

If every jump is read as an instruction that merely goes on, the heights of the stack can be counted
along the code from its first instruction. For compiled code this count is right: a jump leads to a
place with the count of the jump itself, because blocks leave the stack as they found it.

## Main definitions

- `Code.finalHeight`, `Code.height` — the height that is counted along some code
- `Expr.need` — how much room an expression needs on the stack
- `Stmt.expressions` — the expressions that a statement evaluates
- `Code.FitsUpTo` — the beginning of a code respects the heights of the whole

## Main statements

- `Stmt.finalHeight_emit` — a statement inside a block leaves the stack as it is
- `Stmt.fitsUpTo_emit` — lowering a statement keeps the heights right
- `Program.balanced_of_compile` — compiled code is balanced, and all its runs stay inside it
-/

namespace Kestrel

open Machine

/-! ### Counting along the code -/

/-- The height of the stack behind some code that starts on an empty one, if no jump is taken. -/
def Code.finalHeight (code : Code) : Nat :=
  code.foldl (fun height instruction => instruction.heightAfter height) 0

/-- The height of the stack in front of the instruction at index `i`. -/
def Code.height (code : Code) (i : Nat) : Nat :=
  Code.finalHeight (code.take i)

@[simp] theorem Code.finalHeight_push (code : Code) (instruction : Instruction) :
    Code.finalHeight (code.push instruction) = instruction.heightAfter code.finalHeight := by
  simp [Code.finalHeight]

theorem Code.IsStartOf.height_size {code whole : Code} (h : code.IsStartOf whole) :
    whole.height code.size = code.finalHeight := by
  obtain ⟨rest, rfl⟩ := h
  simp [Code.height]

section Emission

variable (register : String → Register)

@[simp] theorem Expr.finalHeight_emit (e : Expr) (code : Code) :
    Code.finalHeight (e.emit register code) = code.finalHeight + 1 := by
  induction e generalizing code with
  | number | boolean | name => rw [Expr.emit, Code.finalHeight_push]; rfl
  | unary op operand span ih =>
    rw [Expr.emit, Code.finalHeight_push, ih]
    rfl
  | binary left op right span ihl ihr =>
    rw [Expr.emit, Code.finalHeight_push, ihr, ihl]
    rfl

theorem finalHeight_emitAssignment (name : String) (op : AssignOp) (value : Expr) (code : Code) :
    Code.finalHeight (emitAssignment register name op value code) = code.finalHeight := by
  unfold emitAssignment
  cases op.binaryOp? with
  | none =>
    rw [Code.finalHeight_push, Expr.finalHeight_emit]
    rfl
  | some binary =>
    rw [Code.finalHeight_push, Code.finalHeight_push, Expr.finalHeight_emit, Code.finalHeight_push]
    rfl

mutual

/-- A statement inside a block leaves the stack as it is. -/
@[simp] theorem Stmt.finalHeight_emit (exits : LoopExits) (s : Stmt) (code : Code) :
    Code.finalHeight (s.emit register exits code) = code.finalHeight := by
  cases s with
  | expression e span | print e span =>
    rw [Stmt.emit, Code.finalHeight_push, Expr.finalHeight_emit]
    rfl
  | assign name op value span => exact finalHeight_emitAssignment register name op value code
  | ifThen c body span =>
    simp only [Stmt.emit, Stmt.finalHeight_emitAll, Code.finalHeight_push, Expr.finalHeight_emit]
    rfl
  | ifElse c body otherwise span =>
    simp only [Stmt.emit, Stmt.finalHeight_emitAll, Code.finalHeight_push, Expr.finalHeight_emit]
    rfl
  | whileDo c body span =>
    simp only [Stmt.emit, Stmt.finalHeight_emitAll, Code.finalHeight_push, Expr.finalHeight_emit]
    rfl
  | breakLoop | continueLoop => rw [Stmt.emit, Code.finalHeight_push]; rfl

@[simp] theorem Stmt.finalHeight_emitAll (exits : LoopExits) (ss : List Stmt) (code : Code) :
    Code.finalHeight (Stmt.emitAll register exits ss code) = code.finalHeight := by
  cases ss with
  | nil => rfl
  | cons s rest => rw [Stmt.emitAll, Stmt.finalHeight_emitAll, Stmt.finalHeight_emit]

end

end Emission

/-! ### Room on the stack -/

/-- How many values an expression has on the stack when it has most of them there. -/
def Expr.need : Expr → Nat
  | .number _ _ | .boolean _ _ | .name _ _ => 1
  | .unary _ operand _ => operand.need
  | .binary left _ right _ => max left.need (right.need + 1)

theorem Expr.need_pos (e : Expr) : 0 < e.need := by
  induction e with
  | number | boolean | name => exact Nat.one_pos
  | unary op operand span ih => exact ih
  | binary left op right span ihl ihr => exact Nat.lt_of_lt_of_le ihl (Nat.le_max_left _ _)

/-- The room that an expression needs is used up somewhere in its code. -/
theorem Expr.exists_finalHeight_eq (register : String → Register) (e : Expr) (code : Code) :
    ∃ code' : Code, code'.IsStartOf (e.emit register code) ∧
      code'.finalHeight = code.finalHeight + e.need := by
  induction e generalizing code with
  | number | boolean | name =>
    exact ⟨_, .refl _, Expr.finalHeight_emit register _ code⟩
  | unary op operand span ih =>
    obtain ⟨code', hstarts, hheight⟩ := ih code
    exact ⟨code', hstarts.trans (.push _ _), hheight⟩
  | binary left op right span ihl ihr =>
    by_cases hle : left.need ≤ right.need + 1
    · obtain ⟨code', hstarts, hheight⟩ := ihr (left.emit register code)
      refine ⟨code', hstarts.trans (.push _ _), ?_⟩
      rw [hheight, Expr.finalHeight_emit, Expr.need, Nat.max_eq_right hle]
      omega
    · obtain ⟨code', hstarts, hheight⟩ := ihl code
      have hright := right.isStartOf_emit register (left.emit register code)
      refine ⟨code', (hstarts.trans hright).trans (.push _ _), ?_⟩
      rw [hheight, Expr.need, Nat.max_eq_left (by omega)]

/-- The most room that some expressions need. -/
def Expr.deepest (es : List Expr) : Nat :=
  es.foldr (fun e room => max e.need room) 0

theorem Expr.need_le_deepest {e : Expr} {es : List Expr} (h : e ∈ es) :
    e.need ≤ Expr.deepest es := by
  induction h with
  | head es => exact Nat.le_max_left _ _
  | tail e' _ ih => exact Nat.le_trans ih (Nat.le_max_right _ _)

/-- The expression whose value an assignment stores: an assignment that combines the old value with
the new one evaluates both. -/
def AssignOp.stored (name : String) (op : AssignOp) (value : Expr) (span : Span) : Expr :=
  match op.binaryOp? with
  | none => value
  | some binary => .binary (.name name span) binary value span

/-- The expression that is written in an assignment. -/
def AssignOp.written (_ : String) (_ : AssignOp) (value : Expr) (_ : Span) : Expr := value

section Expressions

variable (assigned : String → AssignOp → Expr → Span → Expr)

mutual

/-- The expressions of a statement and of the blocks in it, where `assigned` tells what counts as
the expression of an assignment. -/
def Stmt.expressions : Stmt → List Expr
  | .expression value _ => [value]
  | .assign name op value span => [assigned name op value span]
  | .print value _ => [value]
  | .ifThen condition body _ => condition :: Stmt.allExpressions body
  | .ifElse condition body otherwise _ =>
    condition :: (Stmt.allExpressions body ++ Stmt.allExpressions otherwise)
  | .whileDo condition body _ => condition :: Stmt.allExpressions body
  | .breakLoop _ => []
  | .continueLoop _ => []

/-- The expressions of the statements of a block. -/
def Stmt.allExpressions : List Stmt → List Expr
  | [] => []
  | s :: rest => s.expressions ++ Stmt.allExpressions rest

end

end Expressions

/-! ### Respecting the heights -/

/-- An instruction at index `i` of a code respects the counted heights, and does not end the run.
It may go on behind the last instruction. -/
structure Code.Respects (body : Code) (bound i : Nat) (instruction : Instruction) : Prop where
  pops_le : instruction.pops ≤ body.height i
  successor : ∀ j ∈ instruction.successors i,
    j ≤ body.size ∧ body.height j = instruction.heightAfter (body.height i)
  height_le : body.height i ≤ bound
  ne_halt : instruction ≠ .halt

/-- The instructions of the whole code that are in `code` already respect its heights. -/
def Code.FitsUpTo (body : Code) (bound : Nat) (code : Code) : Prop :=
  ∀ i (instruction : Instruction), i < code.size → body[i]? = some instruction →
    body.Respects bound i instruction

/-- A place of the code, its end included, has this height. -/
def Code.Joins (body : Code) (i height : Nat) : Prop :=
  i ≤ body.size ∧ body.height i = height

theorem Code.IsStartOf.joins {code body : Code} (h : code.IsStartOf body) :
    body.Joins code.size code.finalHeight :=
  ⟨h.size_le, h.height_size⟩

section Fitting

variable {body code : Code} {bound : Nat} {instruction : Instruction}

theorem Code.fitsUpTo_empty (body : Code) (bound : Nat) : body.FitsUpTo bound #[] :=
  fun _ _ hlt _ => absurd hlt (Nat.not_lt_zero _)

theorem Code.FitsUpTo.push (h : body.FitsUpTo bound code)
    (hstarts : Code.IsStartOf (Array.push code instruction) body)
    (hrespects : body.Respects bound code.size instruction) :
    body.FitsUpTo bound (Array.push code instruction) := by
  intro i other hlt hat
  rw [Array.size_push] at hlt
  by_cases hi : i < code.size
  · exact h i other hi hat
  · obtain rfl : i = code.size := by omega
    obtain rfl := Option.some.inj (hstarts.getElem?_size.symm.trans hat)
    exact hrespects

/-- An instruction with known places to go on is added. -/
theorem Code.FitsUpTo.push_of_joins (h : body.FitsUpTo bound code)
    (hstarts : Code.IsStartOf (Array.push code instruction) body)
    (hpops : instruction.pops ≤ code.finalHeight) (hle : code.finalHeight ≤ bound)
    (hjoins : ∀ j ∈ instruction.successors code.size,
      body.Joins j (instruction.heightAfter code.finalHeight))
    (hne : instruction ≠ .halt) : body.FitsUpTo bound (Array.push code instruction) := by
  have hheight := hstarts.of_push.height_size
  refine h.push hstarts ⟨?_, ?_, ?_, hne⟩
  · rwa [hheight]
  · rwa [hheight]
  · rwa [hheight]

theorem Code.FitsUpTo.push_next (h : body.FitsUpTo bound code)
    (hstarts : Code.IsStartOf (Array.push code instruction) body)
    (hsuccessors : instruction.successors code.size = [code.size + 1])
    (hpops : instruction.pops ≤ code.finalHeight) (hle : code.finalHeight ≤ bound) :
    body.FitsUpTo bound (Array.push code instruction) := by
  refine h.push_of_joins hstarts hpops hle ?_ ?_
  · intro j hj
    rw [hsuccessors, List.mem_singleton] at hj
    subst hj
    simpa using hstarts.joins
  · rintro rfl
    simp [Instruction.successors] at hsuccessors

theorem Code.FitsUpTo.push_jump {target : Nat} (h : body.FitsUpTo bound code)
    (hstarts : Code.IsStartOf (Array.push code (.jump target)) body)
    (hle : code.finalHeight ≤ bound) (htarget : body.Joins target code.finalHeight) :
    body.FitsUpTo bound (Array.push code (.jump target)) := by
  refine h.push_of_joins hstarts (Nat.zero_le _) hle ?_ (by simp)
  intro j hj
  obtain rfl := List.mem_singleton.1 hj
  exact htarget

end Fitting

section Lowering

variable {body : Code} {bound room : Nat} {scope : Scope} (register : String → Register)

/-- Lowering an expression keeps the heights right, if there is room for it. -/
theorem Expr.fitsUpTo_emit (e : Expr) {code : Code} (h : body.FitsUpTo bound code)
    (hstarts : Code.IsStartOf (e.emit register code) body)
    (hroom : code.finalHeight + e.need ≤ bound) :
    body.FitsUpTo bound (e.emit register code) := by
  induction e generalizing code with
  | number | boolean | name => exact h.push_next hstarts rfl (Nat.zero_le _) (by omega)
  | unary op operand span ih =>
    have hoperand := ih h hstarts.of_push hroom
    have hpos := operand.need_pos
    simp only [Expr.need] at hroom
    refine hoperand.push_next hstarts rfl ?_ ?_
    · simp [Instruction.pops]
    · rw [Expr.finalHeight_emit]
      omega
  | binary left op right span ihl ihr =>
    have hstartsRight : Code.IsStartOf (right.emit register (left.emit register code)) body :=
      hstarts.of_push
    have hpos := right.need_pos
    simp only [Expr.need] at hroom
    have hleft := ihl h ((right.isStartOf_emit register _).trans hstartsRight) (by omega)
    have hright := ihr hleft hstartsRight (by rw [Expr.finalHeight_emit]; omega)
    refine hright.push_next hstarts rfl ?_ ?_
    · simp [Instruction.pops]
    · simp only [Expr.finalHeight_emit]
      omega

/-- An expression is lowered and followed by an instruction that takes its value and goes on. -/
theorem Expr.fitsUpTo_taken (e : Expr) {code : Code} {instruction : Instruction}
    (h : body.FitsUpTo bound code)
    (hstarts : Code.IsStartOf (Array.push (e.emit register code) instruction) body)
    (hsuccessors : instruction.successors (e.emit register code).size =
      [(e.emit register code).size + 1])
    (hpops : instruction.pops = 1) (hroom : code.finalHeight + e.need ≤ bound) :
    body.FitsUpTo bound (Array.push (e.emit register code) instruction) := by
  have hpos := e.need_pos
  refine (e.fitsUpTo_emit register h hstarts.of_push hroom).push_next hstarts hsuccessors ?_ ?_
  · rw [hpops, Expr.finalHeight_emit]
    omega
  · rw [Expr.finalHeight_emit]
    omega

/-- A condition is lowered and followed by a jump to a place with the height in front of it. -/
theorem Expr.fitsUpTo_condition (c : Expr) {code : Code} {target : Nat}
    (h : body.FitsUpTo bound code)
    (hstarts : Code.IsStartOf (Array.push (c.emit register code) (.jumpIfFalse target)) body)
    (hroom : code.finalHeight + c.need ≤ bound) (htarget : body.Joins target code.finalHeight) :
    body.FitsUpTo bound (Array.push (c.emit register code) (.jumpIfFalse target)) := by
  have hpos := c.need_pos
  refine (c.fitsUpTo_emit register h hstarts.of_push hroom).push_of_joins hstarts ?_ ?_ ?_
    (by simp)
  · simp [Instruction.pops]
  · rw [Expr.finalHeight_emit]
    omega
  · intro j hj
    rw [Expr.finalHeight_emit, Instruction.heightAfter_jumpIfFalse]
    rcases List.mem_cons.1 hj with rfl | hj
    · simpa using hstarts.joins
    · obtain rfl := List.mem_singleton.1 hj
      exact htarget

theorem fitsUpTo_emitAssignment (name : String) (op : AssignOp) (value : Expr) (span : Span)
    {code : Code} (h : body.FitsUpTo bound code)
    (hstarts : Code.IsStartOf (emitAssignment register name op value code) body)
    (hroom : code.finalHeight + (op.stored name value span).need ≤ bound) :
    body.FitsUpTo bound (emitAssignment register name op value code) := by
  unfold emitAssignment AssignOp.stored at *
  cases hop : op.binaryOp? with
  | none =>
    simp only [hop] at hstarts hroom
    exact value.fitsUpTo_taken register h hstarts rfl rfl hroom
  | some binary =>
    simp only [hop] at hstarts hroom
    exact (Expr.binary (.name name span) binary value span).fitsUpTo_taken register h hstarts
      rfl rfl hroom

theorem Expr.finalHeight_condition (c : Expr) (code : Code) (target : Nat) :
    Code.finalHeight (Array.push (c.emit register code) (.jumpIfFalse target)) =
      code.finalHeight := by
  rw [Code.finalHeight_push, Expr.finalHeight_emit, Instruction.heightAfter_jumpIfFalse]

mutual

/-- Lowering a statement keeps the heights right, if there is room for its expressions and the
exits of its loop are places with the height of the statement. -/
theorem Stmt.fitsUpTo_emit {inLoop : Bool} {exits : LoopExits} (s : Stmt) {code : Code}
    (h : body.FitsUpTo bound code) (hknown : s.KnownIn scope inLoop)
    (hstarts : Code.IsStartOf (s.emit register exits code) body)
    (hexits : inLoop = true → body.Joins exits.start code.finalHeight ∧
      body.Joins exits.stop code.finalHeight)
    (hneed : ∀ e ∈ s.expressions AssignOp.stored, e.need ≤ room)
    (hroom : code.finalHeight + room ≤ bound) :
    body.FitsUpTo bound (s.emit register exits code) := by
  cases s with
  | expression e span | print e span =>
    have he := hneed e (List.mem_singleton.2 rfl)
    exact e.fitsUpTo_taken register h hstarts rfl rfl (by omega)
  | assign name op value span =>
    have he := hneed _ (List.mem_singleton.2 rfl)
    exact fitsUpTo_emitAssignment register name op value span h hstarts (by omega)
  | ifThen c block span =>
    have hc := hneed c List.mem_cons_self
    -- a false condition leads behind the block, which has left the stack as it was
    have hstop := hstarts.joins
    rw [Stmt.size_emit, Stmt.finalHeight_emit] at hstop
    have hcondition := c.fitsUpTo_condition register h
      ((Stmt.isStartOf_emitAll register exits block _).trans hstarts) (by omega)
      (by simpa [Stmt.size, Nat.add_assoc] using hstop)
    refine Stmt.fitsUpTo_emitAll block hcondition hknown.2 hstarts ?_
      (fun e he => hneed e (List.mem_cons_of_mem c he)) ?_
    · rwa [Expr.finalHeight_condition]
    · rwa [Expr.finalHeight_condition]
  | ifElse c block otherwise span =>
    have hc := hneed c List.mem_cons_self
    have hstop := hstarts.joins
    rw [Stmt.size_emit, Stmt.finalHeight_emit] at hstop
    -- a false condition leads to the other block, and the first block ends with a jump behind it
    have hjump := (Stmt.isStartOf_emitAll register exits otherwise _).trans hstarts
    have hmiddle := hjump.joins
    simp only [Array.size_push, Stmt.size_emitAll, Expr.size_emit, Code.finalHeight_push,
      Stmt.finalHeight_emitAll, Expr.finalHeight_emit] at hmiddle
    have hcondition := c.fitsUpTo_condition register h
      ((Stmt.isStartOf_emitAll register exits block _).trans hjump.of_push) (by omega)
      (by simpa using hmiddle)
    have hblock := Stmt.fitsUpTo_emitAll block hcondition hknown.2.1 hjump.of_push
      (by rwa [Expr.finalHeight_condition])
      (fun e he => hneed e (List.mem_cons_of_mem c (List.mem_append_left _ he)))
      (by rwa [Expr.finalHeight_condition])
    have hblockHeight : Code.finalHeight (Stmt.emitAll register exits block
        (Array.push (c.emit register code) (.jumpIfFalse
          ((c.emit register code).size + 1 + Stmt.sizes block + 1)))) = code.finalHeight := by
      simp
    have hleft := hblock.push_jump hjump (by rw [hblockHeight]; omega)
      (by simpa [Stmt.size, Nat.add_assoc] using hstop)
    refine Stmt.fitsUpTo_emitAll otherwise hleft hknown.2.2 hstarts ?_
      (fun e he => hneed e (List.mem_cons_of_mem c (List.mem_append_right _ he))) ?_
    · rwa [Code.finalHeight_push, hblockHeight, Instruction.heightAfter_jump]
    · rwa [Code.finalHeight_push, hblockHeight, Instruction.heightAfter_jump]
  | whileDo c block span =>
    have hc := hneed c List.mem_cons_self
    -- the two exits of the loop are its start and the place behind it
    have hstart := ((Stmt.isStartOf_emit register exits (.whileDo c block span) code).trans
      hstarts).joins
    have hexit : body.Joins ((c.emit register code).size + 1 + Stmt.sizes block + 1)
        code.finalHeight := by
      have hstop := hstarts.joins
      rw [Stmt.size_emit, Stmt.finalHeight_emit] at hstop
      simpa [Stmt.size, Nat.add_assoc] using hstop
    have hcondition := c.fitsUpTo_condition register h
      ((Stmt.isStartOf_emitAll register _ block _).trans hstarts.of_push) (by omega) hexit
    have hblock := Stmt.fitsUpTo_emitAll block hcondition hknown.2 hstarts.of_push
      (fun _ => by rw [Expr.finalHeight_condition]; exact ⟨hstart, hexit⟩)
      (fun e he => hneed e (List.mem_cons_of_mem c he)) (by rwa [Expr.finalHeight_condition])
    refine hblock.push_jump hstarts ?_ ?_
    · rw [Stmt.finalHeight_emitAll, Expr.finalHeight_condition]
      omega
    · rwa [Stmt.finalHeight_emitAll, Expr.finalHeight_condition]
  | breakLoop => exact h.push_jump hstarts (by omega) (hexits hknown).2
  | continueLoop => exact h.push_jump hstarts (by omega) (hexits hknown).1

theorem Stmt.fitsUpTo_emitAll {inLoop : Bool} {exits : LoopExits} (ss : List Stmt) {code : Code}
    (h : body.FitsUpTo bound code) (hknown : Stmt.AllKnownIn scope inLoop ss)
    (hstarts : Code.IsStartOf (Stmt.emitAll register exits ss code) body)
    (hexits : inLoop = true → body.Joins exits.start code.finalHeight ∧
      body.Joins exits.stop code.finalHeight)
    (hneed : ∀ e ∈ Stmt.allExpressions AssignOp.stored ss, e.need ≤ room)
    (hroom : code.finalHeight + room ≤ bound) :
    body.FitsUpTo bound (Stmt.emitAll register exits ss code) := by
  cases ss with
  | nil => exact h
  | cons s rest =>
    have hfirst := Stmt.fitsUpTo_emit s h hknown.1
      ((Stmt.isStartOf_emitAll register exits rest _).trans hstarts) hexits
      (fun e he => hneed e (List.mem_append_left _ he)) hroom
    refine Stmt.fitsUpTo_emitAll rest hfirst hknown.2 hstarts ?_
      (fun e he => hneed e (List.mem_append_right _ he)) ?_
    · rwa [Stmt.finalHeight_emit]
    · rwa [Stmt.finalHeight_emit]

end

/-- A statement at the top level that leaves its value. -/
def Stmt.leavesValue : Stmt → Bool
  | .expression _ _ => true
  | _ => false

/-- How many values a program leaves: one for each expression statement at the top level. -/
def Program.resultCount (program : Program) : Nat :=
  program.countP Stmt.leavesValue

theorem Stmt.finalHeight_emitTop (s : Stmt) (code : Code) :
    Code.finalHeight (s.emitTop register code) =
      code.finalHeight + if s.leavesValue then 1 else 0 := by
  cases s with
  | expression e span => exact e.finalHeight_emit register code
  | _ => exact Stmt.finalHeight_emit register default _ code

/-- A program leaves as many values as it has expression statements at the top level. -/
theorem Program.finalHeight_emit (program : Program) (code : Code) :
    Code.finalHeight (program.emit register code) = code.finalHeight + program.resultCount := by
  induction program generalizing code with
  | nil => rfl
  | cons s rest ih =>
    show Code.finalHeight (Program.emit register rest (s.emitTop register code)) = _
    rw [ih, Stmt.finalHeight_emitTop, Program.resultCount, Program.resultCount, List.countP_cons]
    omega

theorem Program.fitsUpTo_emit (program : Program) {code : Code} (h : body.FitsUpTo bound code)
    (hknown : Stmt.AllKnownIn scope false program)
    (hstarts : Code.IsStartOf (program.emit register code) body)
    (hneed : ∀ e ∈ Stmt.allExpressions AssignOp.stored program, e.need ≤ room)
    (hroom : code.finalHeight + program.resultCount + room ≤ bound) :
    body.FitsUpTo bound (program.emit register code) := by
  induction program generalizing code with
  | nil => exact h
  | cons s rest ih =>
    have hstarts' : Code.IsStartOf (s.emitTop register code) body :=
      (Program.isStartOf_emit register rest _).trans hstarts
    have hneed' : ∀ e ∈ s.expressions AssignOp.stored, e.need ≤ room := fun e he =>
      hneed e (List.mem_append_left _ he)
    rw [Program.resultCount, List.countP_cons, ← Program.resultCount] at hroom
    have hfirst : body.FitsUpTo bound (s.emitTop register code) := by
      -- only an expression is lowered in another way than inside a block
      by_cases htop : ∃ e span, s = .expression e span
      · obtain ⟨e, span, rfl⟩ := htop
        have he := hneed' e (List.mem_singleton.2 rfl)
        exact e.fitsUpTo_emit register h hstarts' (by omega)
      · have hne : ∀ e span, s ≠ .expression e span := fun e span heq => htop ⟨e, span, heq⟩
        rw [Stmt.emitTop_of_ne register hne] at hstarts' ⊢
        exact s.fitsUpTo_emit register h hknown.1 hstarts' (by simp) hneed' (by omega)
    refine ih hfirst hknown.2 hstarts (fun e he => hneed e (List.mem_append_right _ he)) ?_
    rw [Stmt.finalHeight_emitTop]
    omega

end Lowering

/-! ### Whole programs -/

/-- Code that respects its counted heights up to its end is balanced once it is closed by `halt`. -/
theorem Code.balanced_push_halt {body : Code} {bound : Nat} (h : body.FitsUpTo bound body)
    (hbound : body.finalHeight ≤ bound) :
    Code.Balanced (Array.push body .halt) body.height body.finalHeight bound := by
  have hlast : body.height body.size = body.finalHeight := (Code.IsStartOf.refl body).height_size
  -- what stands at an index is either the `halt` at the end or an instruction of the body
  have hcases : ∀ i (instruction : Instruction), (body.push .halt)[i]? = some instruction →
      (i = body.size ∧ instruction = .halt) ∨
        (i < body.size ∧ body.Respects bound i instruction) := by
    intro i instruction hat
    rw [Array.getElem?_push] at hat
    split at hat
    · next hi => exact .inl ⟨hi, (Option.some.inj hat).symm⟩
    · have hi := (Array.getElem?_eq_some_iff.1 hat).1
      exact .inr ⟨hi, h i instruction hi hat⟩
  constructor
  · show Code.finalHeight (body.take 0) = 0
    simp [Code.finalHeight]
  · intro i instruction hat
    rcases hcases i instruction hat with ⟨-, rfl⟩ | ⟨-, hrespects⟩
    · exact Nat.zero_le _
    · exact hrespects.pops_le
  · intro i instruction hat j hj
    rcases hcases i instruction hat with ⟨-, rfl⟩ | ⟨-, hrespects⟩
    · simp [Instruction.successors] at hj
    · obtain ⟨hle, hheight⟩ := hrespects.successor j hj
      exact ⟨by rw [Array.size_push]; omega, hheight⟩
  · refine ⟨body.size, by rw [Array.size_push], hlast, fun i => ⟨?_, ?_⟩⟩
    · intro hat
      rcases hcases i .halt hat with ⟨hi, -⟩ | ⟨-, hrespects⟩
      · exact hi
      · exact absurd rfl hrespects.ne_halt
    · rintro rfl
      exact Array.getElem?_push_size
  · intro i hi
    rw [Array.size_push] at hi
    by_cases hlt : i < body.size
    · exact (h i body[i] hlt (Array.getElem?_eq_getElem hlt)).height_le
    · obtain rfl : i = body.size := by omega
      rwa [hlast]

/-- Compiled code is balanced: it leaves a value for each expression statement at the top level and
needs no more room beside these than the deepest of the expressions that it evaluates. All its runs
stay inside the code and at its heights. -/
theorem Program.balanced_of_compile {program : Program} {code : Code}
    (hcompile : program.compile = .ok code) :
    ∃ height : Nat → Nat,
      code.Balanced height program.resultCount
        (program.resultCount + Expr.deepest (Stmt.allExpressions AssignOp.stored program)) ∧
      ∀ {σ : Type} (writer : Writer σ) (output : σ), code.StaysWithin height
        (program.resultCount + Expr.deepest (Stmt.allExpressions AssignOp.stored program))
        writer output := by
  obtain ⟨scope, hscope, rfl⟩ := Program.exists_scope_of_compile hcompile
  have hresults : Code.finalHeight (program.emit scope.register #[]) = program.resultCount := by
    rw [Program.finalHeight_emit]
    exact Nat.zero_add _
  have hfits : Code.FitsUpTo (program.emit scope.register #[])
      (program.resultCount + Expr.deepest (Stmt.allExpressions AssignOp.stored program))
      (program.emit scope.register #[]) := by
    refine program.fitsUpTo_emit scope.register (Code.fitsUpTo_empty _ _)
      (Program.known_of_scope hscope).2 (.refl _) (fun e he => Expr.need_le_deepest he) ?_
    show 0 + program.resultCount + _ ≤ _
    omega
  have hbalanced := Code.balanced_push_halt hfits (by omega)
  rw [hresults] at hbalanced
  exact ⟨_, hbalanced, fun writer output => hbalanced.staysWithin writer output⟩

section Increment

/-- A name is set and then increased. -/
def increment : Program :=
  let span : Span := ⟨0, 0⟩
  [.assign "x" .set (.number 1 span) span, .assign "x" .add (.number 1 span) span]

/-- Its code. -/
def incrementCode : Code :=
  #[.push (.number 1), .store .first, .load .first, .push (.number 1), .binary .add, .store .first,
    .halt]

theorem compile_increment : increment.compile = .ok incrementCode := by
  have hscope : increment.scope = .ok ⟨Std.HashMap.insert ∅ "x" .first⟩ := by
    simp [Program.scope, increment, Stmt.declareAll, Stmt.declare, checkAssignment, Expr.check,
      Scope.assign, Scope.assign?, Scope.read, Scope.register?, Scope.empty, AssignOp.binaryOp?,
      bind, Except.bind, registerCount, Register.first]
  have hx : Scope.register ⟨Std.HashMap.insert ∅ "x" .first⟩ "x" = .first := by
    simp [Scope.register, Scope.register?]
  rw [Program.compile, hscope]
  simp [Except.map, Program.lower, increment, incrementCode, Stmt.emitTop, Stmt.emit, Expr.emit,
    emitAssignment, AssignOp.binaryOp?, hx]

theorem balanced_increment :
    increment.compile = .ok incrementCode ∧ ∃ height : Nat → Nat,
      incrementCode.Balanced height 0 2 ∧
      incrementCode.StaysWithin height 2 Writer.keeping [] := by
  obtain ⟨height, hbalanced, hstays⟩ := Program.balanced_of_compile compile_increment
  exact ⟨compile_increment, height, hbalanced, hstays Writer.keeping []⟩

/-- The expressions as they are written do not tell how much room a program needs: the increment of
a name has its old value on the stack beside what is added. -/
theorem not_balanced_written : ¬ ∀ (program : Program) (code : Code), program.compile = .ok code →
    ∃ height : Nat → Nat, code.Balanced height program.resultCount
      (program.resultCount + Expr.deepest (Stmt.allExpressions AssignOp.written program)) := by
  intro h
  obtain ⟨height, hbalanced⟩ := h increment incrementCode compile_increment
  -- the heights of this code are forced, and the addition has two values in front of it
  have hnext : ∀ i (instruction : Instruction), incrementCode[i]? = some instruction →
      i + 1 ∈ instruction.successors i →
      height (i + 1) = instruction.heightAfter (height i) := fun i instruction hat hj =>
    (hbalanced.successor i instruction hat (i + 1) hj).2
  have h₀ : height 0 = 0 := hbalanced.height_zero
  have h₁ : height 1 = 1 := by
    rw [hnext 0 (.push (.number 1)) rfl (List.mem_singleton.2 rfl), h₀]
    rfl
  have h₂ : height 2 = 0 := by rw [hnext 1 (.store .first) rfl (List.mem_singleton.2 rfl), h₁]; rfl
  have h₃ : height 3 = 1 := by rw [hnext 2 (.load .first) rfl (List.mem_singleton.2 rfl), h₂]; rfl
  have h₄ : height 4 = 2 := by
    rw [hnext 3 (.push (.number 1)) rfl (List.mem_singleton.2 rfl), h₃]
    rfl
  have hle : height 4 ≤ 1 := hbalanced.height_le 4 (by simp [incrementCode])
  omega

end Increment

end Kestrel
