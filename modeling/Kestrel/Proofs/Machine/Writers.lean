import Kestrel.Proofs.Machine.Reaches
import Kestrel.Proofs.Machine.Writing

/-!
# Runs with different writers

The machine never reads what it has written. As long as its writer refuses nothing, a run goes on in
the same way with any other writer that refuses nothing.

## Main definitions

- `Machine.withOutput` — a machine with another writer's state
- `Progress.Follows` — the same progress with another writer
- `Writer.Alike` — two writers answer alike as long as their states are related

## Main statements

- `step_withOutput` — only one instruction has to do with the writer
- `Machine.Reaches.output` — what every line keeps is kept by a run
- `step_follows` — what an instruction does does not depend on the writer
- `interpret_faults_of_accepts` — nor does a fault that is not the writer's
- `interpret_alike` — runs with writers that answer alike compute the same
- `Writer.Records.alike` — what was written before does not matter to a writer
-/

namespace Kestrel

variable {σ τ : Type}

/-- The machine with another writer's state. -/
def Machine.withOutput (m : Machine σ) (output : τ) : Machine τ :=
  ⟨m.next, m.stack, m.registers, output⟩

@[simp] theorem Machine.withOutput_output (m : Machine σ) : m.withOutput m.output = m := rfl

/-- Progress with another writer's state. -/
def Progress.withOutput (output : τ) : Progress σ → Progress τ
  | .running m => .running (m.withOutput output)
  | .halted m => .halted (m.withOutput output)
  | .faulted fault m => .faulted fault (m.withOutput output)

/-- The machine that progress leads to. -/
def Progress.machine : Progress σ → Machine σ
  | .running m => m
  | .halted m => m
  | .faulted _ m => m

/-- Progress with another writer is the same up to what is written, unless a line was refused. -/
inductive Progress.Follows : Progress σ → Progress τ → Prop
  | running (m : Machine σ) (output : τ) : Follows (.running m) (.running (m.withOutput output))
  | halted (m : Machine σ) (output : τ) : Follows (.halted m) (.halted (m.withOutput output))
  | faulted (fault : Fault) (m : Machine σ) (output : τ) :
      Follows (.faulted fault m) (.faulted fault (m.withOutput output))
  | refused (reason : String) (m : Machine σ) (progress : Progress τ) :
      Follows (.faulted (.outputRefused reason) m) progress

variable {writer : Writer σ} {writer' : Writer τ} {code : Code}

theorem Machine.goTo_withOutput (size target : Nat) (m : Machine σ) (output : τ) :
    (m.withOutput output).goTo size target = (m.goTo size target).withOutput output := by
  unfold Machine.goTo
  split <;> rfl

/-- Only `print` has to do with the writer. -/
theorem step_withOutput (writer : Writer σ) (writer' : Writer τ) (size : Nat)
    {instruction : Instruction} (h : instruction ≠ .print) (m : Machine σ) (output : τ) :
    step writer' size instruction (m.withOutput output) =
      (step writer size instruction m).withOutput output := by
  obtain ⟨next, stack, registers, written⟩ := m
  cases instruction with
  | push value => rfl
  | halt => rfl
  | print => exact absurd rfl h
  | pop | store => cases stack <;> rfl
  | load register =>
    simp only [step, Machine.withOutput]
    split <;> rfl
  | unary op =>
    cases stack with
    | nil => rfl
    | cons operand stack =>
      simp only [step, Machine.withOutput]
      split <;> rfl
  | binary op =>
    match stack with
    | [] | [_] => rfl
    | right :: left :: stack =>
      simp only [step, Machine.withOutput]
      split <;> rfl
  | jump target => exact Machine.goTo_withOutput size target _ output
  | jumpIfFalse target =>
    match stack with
    | [] | .number _ :: _ | .boolean true :: _ => rfl
    | .boolean false :: stack =>
      exact Machine.goTo_withOutput size target ⟨next, stack, registers, written⟩ output

/-- All other instructions leave what is written as it is. -/
theorem output_step (writer : Writer σ) (size : Nat) {instruction : Instruction}
    (h : instruction ≠ .print) (m : Machine σ) :
    (step writer size instruction m).machine.output = m.output := by
  have hsame := step_withOutput writer writer size h m m.output
  rw [Machine.withOutput_output] at hsame
  rw [hsame]
  cases step writer size instruction m <;> rfl

/-- An instruction at which a run stops has written nothing, unless a line was refused that leaves
something behind. -/
theorem output_of_not_running {size : Nat} {instruction : Instruction} {m : Machine σ}
    {progress : Progress σ} (hstep : step writer size instruction m = progress)
    (h : ∀ m', progress ≠ .running m')
    (hrefused : ∀ text reason, writer.line text m.output = .error reason →
      writer.refused text m.output = m.output) : progress.machine.output = m.output := by
  subst hstep
  by_cases hprint : instruction = .print
  · subst hprint
    obtain ⟨next, stack, registers, written⟩ := m
    cases stack with
    | nil => rfl
    | cons value stack =>
      simp only [step] at h ⊢
      split at h
      · exact absurd rfl (h _)
      · next reason hline => exact hrefused value.text reason hline
  · exact output_step writer size hprint m

theorem Machine.Stops.output_eq {m m' : Machine σ} {ending : Option (Fault × Nat)}
    (h : Machine.Stops writer code m m' ending)
    (hrefused : ∀ text reason, writer.line text m.output = .error reason →
      writer.refused text m.output = m.output) : m'.output = m.output := by
  cases h with
  | behind => rfl
  | halts _ hstep => exact output_of_not_running hstep (by simp) hrefused
  | faults _ hstep => exact output_of_not_running hstep (by simp) hrefused

/-- Where a run stops, a writer that refuses nothing has nothing more written. -/
theorem Writer.Accepts.output_of_stops (hwriter : writer.Accepts) {m m' : Machine σ}
    {ending : Option (Fault × Nat)} (h : Machine.Stops writer code m m' ending) :
    m'.output = m.output :=
  h.output_eq fun text reason hline => absurd hline (hwriter.line_ne_error text m.output reason)

/-- What the writer keeps with every line that it takes is kept by a step. -/
theorem output_of_step {R : σ → σ → Prop} (hrefl : ∀ output, R output output)
    (hline : ∀ text output output', writer.line text output = .ok output' → R output output')
    {size : Nat} {instruction : Instruction} {m m' : Machine σ}
    (hstep : step writer size instruction m = .running m') : R m.output m'.output := by
  by_cases hprint : instruction = .print
  · subst hprint
    obtain ⟨next, stack, registers, output⟩ := m
    cases stack with
    | nil => cases hstep
    | cons value stack =>
      simp only [step] at hstep
      split at hstep
      · next output' hok =>
        cases hstep
        exact hline value.text output output' hok
      · cases hstep
  · have houtput := output_step writer size hprint m
    rw [hstep] at houtput
    rw [show m'.output = m.output from houtput]
    exact hrefl m.output

/-- It is kept by a chain of steps. -/
theorem Machine.Reaches.output {R : σ → σ → Prop} (hrefl : ∀ output, R output output)
    (htrans : ∀ output₁ output₂ output₃, R output₁ output₂ → R output₂ output₃ →
      R output₁ output₃)
    (hline : ∀ text output output', writer.line text output = .ok output' → R output output')
    {k : Nat} {m m' : Machine σ} (h : Machine.Reaches writer code k m m') :
    R m.output m'.output := by
  induction h with
  | refl m => exact hrefl m.output
  | step _ hstep _ ih => exact htrans _ _ _ (output_of_step hrefl hline hstep) ih

theorem step_follows (writer : Writer σ) (hwriter : writer'.Accepts) (size : Nat)
    (instruction : Instruction) (m : Machine σ) (output : τ) :
    (step writer size instruction m).Follows
      (step writer' size instruction (m.withOutput output)) := by
  by_cases hprint : instruction = .print
  · subst hprint
    obtain ⟨next, stack, registers, written⟩ := m
    cases stack with
    | nil => exact .faulted _ _ output
    | cons value stack =>
      obtain ⟨output', hline⟩ := hwriter.line value.text output
      simp only [step, Machine.withOutput, hline]
      split
      · exact .running ⟨next + 1, stack, registers, _⟩ output'
      · exact .refused _ _ _
  · rw [step_withOutput writer writer' size hprint]
    cases step writer size instruction m with
    | running m' => exact .running m' output
    | halted m' => exact .halted m' output
    | faulted fault m' => exact .faulted fault m' output

/-- The rest of a run that fails, but not at a refused line, fails in the same way with a writer
that refuses nothing. -/
theorem runFor_faults_of_accepts (hwriter : writer'.Accepts) {limit left : Nat} {m : Machine σ}
    {fault : Fault} {i : Nat} (h : (runFor writer code limit left m).2 = some (fault, i))
    (hfault : ∀ reason, fault ≠ .outputRefused reason) (output : τ) :
    (runFor writer' code limit left (m.withOutput output)).2 = some (fault, i) := by
  induction left generalizing m output with
  | zero =>
    simp only [runFor, Machine.withOutput] at h ⊢
    split at h
    · cases h
    · exact h
  | succ left ih =>
    simp only [runFor, show (m.withOutput output).next = m.next from rfl] at h ⊢
    split at h
    · cases h
    · next instruction _ =>
      -- both machines take the same step
      have hfollows := step_follows writer hwriter code.size instruction m output
      generalize step writer code.size instruction m = progress at h hfollows
      generalize step writer' code.size instruction (m.withOutput output) = progress' at hfollows ⊢
      cases hfollows with
      | running m₁ output₁ => exact ih h output₁
      | halted m₁ output₁ => cases h
      | faulted fault' m₁ output₁ => exact h
      | refused reason m₁ progress' =>
        cases h
        exact absurd rfl (hfault reason)

/-- A run that fails, but not at a refused line, fails in the same way with a writer that refuses
nothing. -/
theorem interpret_faults_of_accepts (hwriter : writer'.Accepts) {limit : Nat} {output : σ}
    {fault : Fault} {i : Nat}
    (h : (interpret writer limit code output).1.outcome = .error (.fault fault i))
    (hfault : ∀ reason, fault ≠ .outputRefused reason) (output' : τ) :
    (interpret writer' limit code output').1.outcome = .error (.fault fault i) :=
  outcome_of_runFor (runFor_faults_of_accepts hwriter (runFor_of_outcome h) hfault output')

/-! ### Writers that answer alike -/

/-- The answers of two writers: both have taken something, and are in related states, or both have
refused it for the same reason. -/
inductive Writer.Answers (R : σ → τ → Prop) : Except String σ → Except String τ → Prop
  | ok {output : σ} {output' : τ} (h : R output output') : Answers R (.ok output) (.ok output')
  | error (reason : String) : Answers R (.error reason) (.error reason)

/-- In related states two writers answer alike, and are in related states also behind a line that
they refuse. -/
structure Writer.Alike (R : σ → τ → Prop) (writer : Writer σ) (writer' : Writer τ) : Prop where
  line : ∀ text output output', R output output' →
    Writer.Answers R (writer.line text output) (writer'.line text output')
  refused : ∀ text output output' reason, R output output' →
    writer.line text output = .error reason →
      R (writer.refused text output) (writer'.refused text output')
  flush : ∀ output output', R output output' →
    Writer.Answers R (writer.flush output) (writer'.flush output')

/-- Progress with another writer is the same up to what is written, and the writers are in related
states. -/
inductive Progress.Alike (R : σ → τ → Prop) : Progress σ → Progress τ → Prop
  | running {m : Machine σ} {output : τ} (h : R m.output output) :
      Alike R (.running m) (.running (m.withOutput output))
  | halted {m : Machine σ} {output : τ} (h : R m.output output) :
      Alike R (.halted m) (.halted (m.withOutput output))
  | faulted {fault : Fault} {m : Machine σ} {output : τ} (h : R m.output output) :
      Alike R (.faulted fault m) (.faulted fault (m.withOutput output))

variable {R : σ → τ → Prop}

theorem step_alike (hwriters : writer.Alike R writer') (size : Nat) (instruction : Instruction)
    {m : Machine σ} {output : τ} (h : R m.output output) :
    (step writer size instruction m).Alike R
      (step writer' size instruction (m.withOutput output)) := by
  by_cases hprint : instruction = .print
  · subst hprint
    obtain ⟨next, stack, registers, written⟩ := m
    cases stack with
    | nil => exact .faulted h
    | cons value stack =>
      have hanswers := hwriters.line value.text written output h
      have hrefused := hwriters.refused value.text written output
      simp only [step, Machine.withOutput]
      generalize writer.line value.text written = answer at hanswers hrefused ⊢
      generalize writer'.line value.text output = answer' at hanswers ⊢
      cases hanswers with
      | ok h' => exact .running (m := ⟨next + 1, stack, registers, _⟩) h'
      | error reason =>
        exact .faulted (m := ⟨next, stack, registers, _⟩) (hrefused reason h rfl)
  · have houtput := output_step writer size hprint m
    rw [step_withOutput writer writer' size hprint]
    cases hstep : step writer size instruction m with
    | running m' => exact .running (by rw [hstep] at houtput; rwa [← houtput] at h)
    | halted m' => exact .halted (by rw [hstep] at houtput; rwa [← houtput] at h)
    | faulted fault m' => exact .faulted (by rw [hstep] at houtput; rwa [← houtput] at h)

/-- Runs with writers that answer alike are the same up to what is written. -/
theorem runFor_alike (hwriters : writer.Alike R writer') (code : Code) (limit left : Nat)
    {m : Machine σ} {output : τ} (h : R m.output output) :
    ∃ output', R (runFor writer code limit left m).1.output output' ∧
      runFor writer' code limit left (m.withOutput output) =
        ((runFor writer code limit left m).1.withOutput output',
          (runFor writer code limit left m).2) := by
  induction left generalizing m output with
  | zero =>
    simp only [runFor, show (m.withOutput output).next = m.next from rfl]
    split
    · exact ⟨output, h, rfl⟩
    · exact ⟨output, h, rfl⟩
  | succ left ih =>
    simp only [runFor, show (m.withOutput output).next = m.next from rfl]
    split
    · exact ⟨output, h, rfl⟩
    · next instruction _ =>
      -- both machines take the same step
      have hstep := step_alike hwriters code.size instruction h
      generalize step writer code.size instruction m = progress at hstep ⊢
      generalize step writer' code.size instruction (m.withOutput output) = progress' at hstep ⊢
      cases hstep with
      | running h' => exact ih h'
      | halted h' => exact ⟨_, h', rfl⟩
      | faulted h' => exact ⟨_, h', rfl⟩

/-- With writers that answer alike, the same is computed, and it ends in the same way. -/
theorem interpret_alike (hwriters : writer.Alike R writer') (limit : Nat) (code : Code)
    {output : σ} {output' : τ} (h : R output output') :
    (interpret writer limit code output).1 = (interpret writer' limit code output').1 ∧
      R (interpret writer limit code output).2 (interpret writer' limit code output').2 := by
  have hstart : R (Machine.start output).output output' := h
  obtain ⟨written, hwritten, hrun⟩ := runFor_alike hwriters code limit limit hstart
  rw [show (Machine.start output).withOutput output' = .start output' from rfl] at hrun
  have hanswers := hwriters.flush _ _ hwritten
  simp only [interpret, hrun, show ∀ m : Machine σ, (m.withOutput written).output = written from
    fun _ => rfl]
  generalize writer.flush (runFor writer code limit limit (.start output)).1.output = answer
    at hanswers ⊢
  generalize writer'.flush written = answer' at hanswers ⊢
  cases hanswers with
  | ok h' => exact ⟨rfl, h'⟩
  | error reason => exact ⟨rfl, hwritten⟩

/-! ### Writers that start from different texts -/

/-- The same text was written behind two others. -/
def WrittenBehind (written : σ → String) (front : String) (written' : τ → String)
    (front' : String) (output : σ) (output' : τ) : Prop :=
  ∃ text, written output = front ++ text ∧ written' output' = front' ++ text

/-- What was written before does not matter to writers that refuse nothing. -/
theorem Writer.Records.alike {written : σ → String} {written' : τ → String}
    (hwriter : writer.Records written) (hwriter' : writer'.Records written')
    (front front' : String) :
    writer.Alike (WrittenBehind written front written' front') writer' where
  line text output output' h := by
    obtain ⟨before, hbefore, hbefore'⟩ := h
    obtain ⟨output₁, hline, hwritten⟩ := hwriter.line text output
    obtain ⟨output₁', hline', hwritten'⟩ := hwriter'.line text output'
    rw [hline, hline']
    refine .ok ⟨before ++ (text ++ "\n"), ?_, ?_⟩
    · rw [hwritten, hbefore, String.append_assoc]
    · rw [hwritten', hbefore', String.append_assoc]
  refused text output output' reason h hline :=
    absurd hline (hwriter.accepts.line_ne_error text output reason)
  flush output output' h := by
    obtain ⟨before, hbefore, hbefore'⟩ := h
    obtain ⟨output₁, hflush, hwritten⟩ := hwriter.flush output
    obtain ⟨output₁', hflush', hwritten'⟩ := hwriter'.flush output'
    rw [hflush, hflush']
    exact .ok ⟨before, hwritten.trans hbefore, hwritten'.trans hbefore'⟩

end Kestrel
