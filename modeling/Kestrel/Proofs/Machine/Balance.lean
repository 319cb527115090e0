import Kestrel.Proofs.Machine.Reaches

/-!
# Code with balanced heights

Each instruction takes a fixed number of operands and leaves a fixed number of results. Code is
balanced if one height of the stack can be given to each index in such a way that every instruction
finds its operands, whichever way the run came there. This file shows what balance is good for: a
run of balanced code never misses an operand and never leaves the code.

## Main definitions

- `Instruction.pops`, `Instruction.pushes` — operands and results of an instruction
- `Instruction.successors` — where a run may go on
- `Code.Balanced` — heights for all indices, which every instruction respects
- `Code.StaysWithin` — what all runs of a code on fresh machines do

## Main statements

- `step_keeps` — what a single step does to the height of the stack
- `Code.Balanced.staysWithin` — balanced code runs inside its heights
-/

namespace Kestrel

open Machine

namespace Instruction

/-- How many operands an instruction takes. -/
def pops : Instruction → Nat
  | .push _ | .load _ | .jump _ | .halt => 0
  | .pop | .store _ | .unary _ | .jumpIfFalse _ | .print => 1
  | .binary _ => 2

/-- How many results an instruction leaves. -/
def pushes : Instruction → Nat
  | .push _ | .load _ | .unary _ | .binary _ => 1
  | .pop | .store _ | .jump _ | .jumpIfFalse _ | .print | .halt => 0

/-- Where the run may go on after an instruction at index `i`. -/
def successors (i : Nat) : Instruction → List Nat
  | .halt => []
  | .jump target => [target]
  | .jumpIfFalse target => [i + 1, target]
  | _ => [i + 1]

/-- The height of the stack behind an instruction. -/
def heightAfter (instruction : Instruction) (height : Nat) : Nat :=
  height - instruction.pops + instruction.pushes

@[simp] theorem heightAfter_jump (target height : Nat) :
    (jump target).heightAfter height = height := rfl

@[simp] theorem heightAfter_jumpIfFalse (target height : Nat) :
    (jumpIfFalse target).heightAfter (height + 1) = height := rfl

end Instruction

/-- Each index has a height of the stack, and every instruction respects it: its operands are there,
and its successors are indices of the code with the height that it leaves. The code ends with its
only `halt`, where as many values are left as there are results, and no height is above `bound`. -/
structure Code.Balanced (code : Code) (height : Nat → Nat) (results bound : Nat) : Prop where
  height_zero : height 0 = 0
  pops_le : ∀ i (instruction : Instruction), code[i]? = some instruction →
    instruction.pops ≤ height i
  successor : ∀ i (instruction : Instruction), code[i]? = some instruction →
    ∀ j ∈ instruction.successors i,
      j < code.size ∧ height j = instruction.heightAfter (height i)
  halt : ∃ last, last + 1 = code.size ∧ height last = results ∧
    ∀ i, code[i]? = some .halt ↔ i = last
  height_le : ∀ i, i < code.size → height i ≤ bound

variable {σ : Type} {writer : Writer σ} {code : Code} {height : Nat → Nat} {results bound : Nat}

/-- The faults of code that is not balanced. -/
def Fault.Unbalanced : Fault → Prop
  | .stackUnderflow => True
  | .jumpOutOfBounds _ => True
  | _ => False

/-- What may become of a run at an instruction whose operands are there: it goes on at a successor
with the right height, halts as it is, or has a fault of another kind. -/
def Progress.Keeps (instruction : Instruction) (m : Machine σ) : Progress σ → Prop
  | .running m' => m'.next ∈ instruction.successors m.next ∧
      m'.stack.length = instruction.heightAfter m.stack.length
  | .halted m' => m' = m
  | .faulted fault m' => ¬ fault.Unbalanced ∧ m'.stack.length ≤ m.stack.length

/-- A single step of an instruction whose operands and successors are there. -/
theorem step_keeps (writer : Writer σ) {size : Nat} {instruction : Instruction} {m : Machine σ}
    (hpops : instruction.pops ≤ m.stack.length)
    (hsuccessors : ∀ j ∈ instruction.successors m.next, j ≤ size) :
    (step writer size instruction m).Keeps instruction m := by
  obtain ⟨next, stack, registers, output⟩ := m
  -- the cases are those of `step`; a stack that is too low is ruled out by `hpops`
  cases instruction with
  | push value => exact ⟨List.mem_singleton.2 rfl, rfl⟩
  | load register =>
    simp only [step]
    split
    · exact ⟨List.mem_singleton.2 rfl, rfl⟩
    · exact ⟨id, Nat.le_refl _⟩
  | pop | store =>
    cases stack with
    | nil => simp [Instruction.pops] at hpops
    | cons value stack => exact ⟨List.mem_singleton.2 rfl, rfl⟩
  | unary op =>
    cases stack with
    | nil => simp [Instruction.pops] at hpops
    | cons value stack =>
      simp only [step]
      split
      · exact ⟨List.mem_singleton.2 rfl, rfl⟩
      · exact ⟨id, Nat.le_succ _⟩
  | binary op =>
    match stack with
    | [] | [_] => simp [Instruction.pops] at hpops
    | right :: left :: stack =>
      simp only [step]
      split
      · exact ⟨List.mem_singleton.2 rfl, rfl⟩
      · exact ⟨id, Nat.le_add_right _ 2⟩
  | jump target =>
    have htarget : target ≤ size := hsuccessors target (List.mem_singleton.2 rfl)
    simp only [step, goTo, htarget, if_true]
    exact ⟨List.mem_singleton.2 rfl, rfl⟩
  | jumpIfFalse target =>
    have htarget : target ≤ size := hsuccessors target (by simp [Instruction.successors])
    match stack with
    | [] => simp [Instruction.pops] at hpops
    | .boolean true :: stack => exact ⟨by simp [Instruction.successors], rfl⟩
    | .boolean false :: stack =>
      simp only [step, goTo, htarget, if_true]
      exact ⟨by simp [Instruction.successors], rfl⟩
    | .number value :: stack => exact ⟨id, Nat.le_succ _⟩
  | print =>
    cases stack with
    | nil => simp [Instruction.pops] at hpops
    | cons value stack =>
      simp only [step]
      split
      · exact ⟨List.mem_singleton.2 rfl, rfl⟩
      · exact ⟨id, Nat.le_succ _⟩
  | halt => rfl

/-- A machine is inside the code, and its stack has the height of its next index. -/
structure Machine.Fits (code : Code) (height : Nat → Nat) (m : Machine σ) : Prop where
  next_lt : m.next < code.size
  height_eq : m.stack.length = height m.next

/-- What the runs of a code on fresh machines do: they stay inside the code and at the heights of
its indices, whatever the writer refuses, and end with no fault of unbalanced code. -/
structure Code.StaysWithin (code : Code) (height : Nat → Nat) (bound : Nat) (writer : Writer σ)
    (output : σ) : Prop where
  next_lt : ∀ k m, Reaches writer code k (.start output) m → m.next < code.size
  height_eq : ∀ k m, Reaches writer code k (.start output) m → m.stack.length = height m.next
  height_le : ∀ k m, Reaches writer code k (.start output) m → m.stack.length ≤ bound
  no_underflow : ∀ limit i,
    (interpret writer limit code output).1.outcome ≠ .error (.fault .stackUnderflow i)
  no_jumpOut : ∀ limit target i,
    (interpret writer limit code output).1.outcome ≠ .error (.fault (.jumpOutOfBounds target) i)
  stack_le : ∀ limit, (interpret writer limit code output).1.store.stack.length ≤ bound

namespace Code.Balanced

theorem step_keeps (h : code.Balanced height results bound) (writer : Writer σ) {m : Machine σ}
    (hm : m.Fits code height) {instruction : Instruction}
    (hat : code[m.next]? = some instruction) :
    (step writer code.size instruction m).Keeps instruction m := by
  refine Kestrel.step_keeps writer ?_ ?_
  · rw [hm.height_eq]
    exact h.pops_le m.next instruction hat
  · intro j hj
    exact Nat.le_of_lt (h.successor m.next instruction hat j hj).1

/-- A step leads from one machine that fits to another one. -/
theorem fits_step (h : code.Balanced height results bound) {m m' : Machine σ}
    (hm : m.Fits code height) {instruction : Instruction}
    (hat : code[m.next]? = some instruction)
    (hstep : step writer code.size instruction m = .running m') : m'.Fits code height := by
  have hkeeps := h.step_keeps writer hm hat
  rw [hstep] at hkeeps
  obtain ⟨hnext, hlength⟩ := hkeeps
  obtain ⟨hlt, hheight⟩ := h.successor m.next instruction hat m'.next hnext
  exact ⟨hlt, by rw [hlength, hheight, hm.height_eq]⟩

theorem fits_of_reaches (h : code.Balanced height results bound) {k : Nat} {m m' : Machine σ}
    (hm : m.Fits code height) (hreach : Reaches writer code k m m') : m'.Fits code height := by
  induction hreach with
  | refl => exact hm
  | step hat hstep _ ih => exact ih (h.fits_step hm hat hstep)

theorem fits_start (h : code.Balanced height results bound) (output : σ) :
    (start output).Fits code height := by
  obtain ⟨last, hlast, -⟩ := h.halt
  refine ⟨?_, h.height_zero.symm⟩
  show 0 < code.size
  omega

/-- A machine that fits stops at an instruction, with at most the stack that it had, and with no
fault of unbalanced code. -/
theorem of_stops (h : code.Balanced height results bound) {m m' : Machine σ}
    {ending : Option (Fault × Nat)} (hm : m.Fits code height)
    (hstop : Stops writer code m m' ending) :
    m'.stack.length ≤ m.stack.length ∧
      ∀ fault i, ending = some (fault, i) → ¬ fault.Unbalanced := by
  cases hstop with
  | behind hat =>
    -- a machine that fits is in front of an instruction
    have hnot := Array.getElem?_eq_none_iff.1 hat
    exact absurd hm.next_lt (by omega)
  | halts hat hstep =>
    have hkeeps := h.step_keeps writer hm hat
    rw [hstep] at hkeeps
    obtain rfl : m' = m := hkeeps
    exact ⟨Nat.le_refl _, by simp⟩
  | faults hat hstep =>
    have hkeeps := h.step_keeps writer hm hat
    rw [hstep] at hkeeps
    refine ⟨hkeeps.2, ?_⟩
    rintro fault i ⟨⟩
    exact hkeeps.1

theorem of_runFor (h : code.Balanced height results bound) (writer : Writer σ) (limit left : Nat)
    {m : Machine σ} (hm : m.Fits code height) :
    (runFor writer code limit left m).1.stack.length ≤ bound ∧
      ∀ fault i, (runFor writer code limit left m).2 = some (fault, i) → ¬ fault.Unbalanced := by
  have hbound : ∀ {m : Machine σ}, m.Fits code height → m.stack.length ≤ bound := fun hm =>
    hm.height_eq ▸ h.height_le _ hm.next_lt
  rcases runFor_cases writer code limit left m with
    ⟨k, m₁, m', ending, -, hreach, hstop, hrun⟩ | ⟨m', hreach, -, hrun⟩
  · have hm₁ := h.fits_of_reaches hm hreach
    obtain ⟨hle, hfault⟩ := h.of_stops hm₁ hstop
    rw [hrun]
    exact ⟨Nat.le_trans hle (hbound hm₁), hfault⟩
  · rw [hrun]
    refine ⟨hbound (h.fits_of_reaches hm hreach), ?_⟩
    rintro fault i ⟨⟩
    exact id

theorem outcome_ne (h : code.Balanced height results bound) (writer : Writer σ) (output : σ)
    (limit : Nat) (fault : Fault) (hfault : fault.Unbalanced) (i : Nat) :
    (interpret writer limit code output).1.outcome ≠ .error (.fault fault i) := by
  have hrun := (h.of_runFor writer limit limit (h.fits_start output)).2
  intro houtcome
  exact hrun fault i (runFor_of_outcome houtcome) hfault

/-- Runs of balanced code stay inside it and at its heights, and never miss an operand. -/
theorem staysWithin (h : code.Balanced height results bound) (writer : Writer σ) (output : σ) :
    code.StaysWithin height bound writer output where
  next_lt k m hreach := (h.fits_of_reaches (h.fits_start output) hreach).next_lt
  height_eq k m hreach := (h.fits_of_reaches (h.fits_start output) hreach).height_eq
  height_le k m hreach := by
    have hm := h.fits_of_reaches (h.fits_start output) hreach
    rw [hm.height_eq]
    exact h.height_le m.next hm.next_lt
  no_underflow limit i := h.outcome_ne writer output limit .stackUnderflow trivial i
  no_jumpOut limit target i :=
    h.outcome_ne writer output limit (.jumpOutOfBounds target) trivial i
  stack_le limit := by
    have hrun := (h.of_runFor writer limit limit (h.fits_start output)).1
    simp only [interpret]
    split <;> exact hrun

end Code.Balanced

end Kestrel
