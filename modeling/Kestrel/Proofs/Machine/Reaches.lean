import Kestrel.Machine

/-!
# Runs of the machine, step by step

`runFor` computes the end of a run. This file describes a run as a chain of single steps, so that
facts about pieces of code can be put together, and says what `runFor` gives for such a chain.

## Main definitions

- `Machine.Reaches` — so many steps lead from one state to another
- `Machine.Stops` — a run goes no further than a state
- `Machine.EndsWithin` — a run stops after at most so many steps

## Main statements

- `runFor_of_reaches` — a chain of steps uses up one unit of the budget per step
- `runFor_of_stops`, `runFor_of_cut` — what ends a run at the end of such a chain
- `runFor_cases` — every run either stops within its budget or takes a step for each unit of it
- `runFor_of_outcome`, `outcome_of_runFor` — a fault is an outcome if and only if it ends the run
-/

namespace Kestrel

variable {σ : Type} (writer : Writer σ) (code : Code)

/-- From one state, so many steps lead to another one. -/
inductive Machine.Reaches : Nat → Machine σ → Machine σ → Prop
  | refl (m : Machine σ) : Reaches 0 m m
  | step {k : Nat} {m m₁ m₂ : Machine σ} {instruction : Instruction}
      (hat : code[m.next]? = some instruction)
      (hstep : Kestrel.step writer code.size instruction m = .running m₁)
      (hrest : Reaches k m₁ m₂) : Reaches (k + 1) m m₂

/-- A run that has come to the first state ends there. The second state is what is left of it, and
a fault comes with the index of its instruction. -/
inductive Machine.Stops : Machine σ → Machine σ → Option (Fault × Nat) → Prop
  | behind {m : Machine σ} (hat : code[m.next]? = none) : Stops m m none
  | halts {m m' : Machine σ} {instruction : Instruction}
      (hat : code[m.next]? = some instruction)
      (hstep : Kestrel.step writer code.size instruction m = .halted m') : Stops m m' none
  | faults {m m' : Machine σ} {instruction : Instruction} {fault : Fault}
      (hat : code[m.next]? = some instruction)
      (hstep : Kestrel.step writer code.size instruction m = .faulted fault m') :
      Stops m m' (some (fault, m.next))

/-- A run from this state stops after at most `n` steps. -/
def Machine.EndsWithin (n : Nat) (m : Machine σ) : Prop :=
  ∃ k m₁ m' ending, k ≤ n ∧ Machine.Reaches writer code k m m₁ ∧
    Machine.Stops writer code m₁ m' ending

variable {writer code}

namespace Machine

theorem Reaches.trans {j k : Nat} {m m₁ m₂ : Machine σ} (h : Reaches writer code j m m₁)
    (h' : Reaches writer code k m₁ m₂) : Reaches writer code (j + k) m m₂ := by
  induction h with
  | refl m => rwa [Nat.zero_add]
  | @step j m m' m₁ instruction hat hstep _ ih =>
    rw [Nat.add_right_comm]
    exact .step hat hstep (ih h')

theorem Reaches.single {m m' : Machine σ} {instruction : Instruction}
    (hat : code[m.next]? = some instruction)
    (hstep : Kestrel.step writer code.size instruction m = .running m') :
    Reaches writer code 1 m m' :=
  .step hat hstep (.refl m')

/-- A state at which a run stops is left by no step. -/
theorem Stops.eq_of_reaches {k : Nat} {m m' m₁ : Machine σ} {ending : Option (Fault × Nat)}
    (h : Stops writer code m m' ending) (hreach : Reaches writer code k m m₁) :
    k = 0 ∧ m₁ = m := by
  cases hreach with
  | refl => exact ⟨rfl, rfl⟩
  | step hat hstep _ =>
    cases h with
    | behind hnone => simp [hnone] at hat
    | halts hat' hstep' =>
      obtain rfl := Option.some.inj (hat.symm.trans hat')
      simp [hstep] at hstep'
    | faults hat' hstep' =>
      obtain rfl := Option.some.inj (hat.symm.trans hat')
      simp [hstep] at hstep'

/-- There is one chain of steps from a state: a shorter one is the beginning of a longer one. -/
theorem Reaches.sub {j k : Nat} {m m₁ m₂ : Machine σ} (h : Reaches writer code j m m₁)
    (h' : Reaches writer code k m m₂) (hle : j ≤ k) : Reaches writer code (k - j) m₁ m₂ := by
  induction h generalizing k with
  | refl m => exact h'
  | @step j m m' m₁ instruction hat hstep _ ih =>
    -- both chains take the same first step
    cases h' with
    | refl => omega
    | @step k _ m'' _ _ hat' hstep' hrest' =>
      obtain rfl := Option.some.inj (hat.symm.trans hat')
      obtain rfl : m' = m'' := by simpa [hstep] using hstep'
      rw [Nat.add_sub_add_right]
      exact ih hrest' (by omega)

/-- After some steps of a run that ends, the run still ends, with that many steps less. -/
theorem EndsWithin.after {n k : Nat} {m m₁ : Machine σ} (h : EndsWithin writer code n m)
    (hreach : Reaches writer code k m m₁) : k ≤ n ∧ EndsWithin writer code (n - k) m₁ := by
  obtain ⟨j, m₂, m', ending, hle, hreach₂, hstop⟩ := h
  have hkj : k ≤ j := by
    by_cases hlt : j < k
    · obtain ⟨hzero, -⟩ := hstop.eq_of_reaches (hreach₂.sub hreach (Nat.le_of_lt hlt))
      omega
    · omega
  exact ⟨by omega, j - k, m₂, m', ending, by omega, hreach.sub hreach₂ hkj, hstop⟩

theorem EndsWithin.mono {n n' : Nat} {m : Machine σ} (h : EndsWithin writer code n m)
    (hle : n ≤ n') : EndsWithin writer code n' m := by
  obtain ⟨k, m₁, m', ending, hk, hreach, hstop⟩ := h
  exact ⟨k, m₁, m', ending, Nat.le_trans hk hle, hreach, hstop⟩

end Machine

open Machine

/-- A chain of steps uses up one unit of the budget per step. -/
theorem runFor_of_reaches {k : Nat} {m m' : Machine σ} (h : Reaches writer code k m m')
    (limit left : Nat) :
    runFor writer code limit (k + left) m = runFor writer code limit left m' := by
  induction h with
  | refl m => rw [Nat.zero_add]
  | @step k m m₁ m₂ instruction hat hstep _ ih =>
    rw [Nat.add_right_comm]
    simp only [runFor, hat, hstep]
    exact ih

/-- Where a run stops, any budget that is left gives the same end. -/
theorem runFor_of_stops {m m' : Machine σ} {ending : Option (Fault × Nat)}
    (h : Stops writer code m m' ending) (limit : Nat) {left : Nat} (hleft : 0 < left) :
    runFor writer code limit left m = (m', ending) := by
  obtain ⟨left, rfl⟩ := Nat.exists_eq_succ_of_ne_zero (Nat.ne_of_gt hleft)
  cases h with
  | behind hat => simp only [runFor, hat]
  | halts hat hstep => simp only [runFor, hat, hstep]
  | faults hat hstep => simp only [runFor, hat, hstep]

/-- A budget that is used up in front of an instruction cuts the run there. -/
theorem runFor_of_cut {b : Nat} {m m' : Machine σ} (h : Reaches writer code b m m')
    (hinside : m'.next < code.size) (limit : Nat) :
    runFor writer code limit b m = (m', some (.stepLimit limit, m'.next)) := by
  have hrun := runFor_of_reaches h limit 0
  rw [Nat.add_zero] at hrun
  rw [hrun]
  simp only [runFor, Array.getElem?_eq_getElem hinside]

/-- Every run either stops within its budget, or takes a step for each unit of it and is then
ended in front of another instruction. -/
theorem runFor_cases (writer : Writer σ) (code : Code) (limit left : Nat) (m : Machine σ) :
    (∃ k m₁ m' ending, k ≤ left ∧ Reaches writer code k m m₁ ∧ Stops writer code m₁ m' ending ∧
      runFor writer code limit left m = (m', ending)) ∨
    (∃ m', Reaches writer code left m m' ∧ m'.next < code.size ∧
      runFor writer code limit left m = (m', some (.stepLimit limit, m'.next))) := by
  induction left generalizing m with
  | zero =>
    -- the budget is used up, and only a machine behind the code may stop now
    cases hat : code[m.next]? with
    | none => exact .inl ⟨0, m, m, none, Nat.le_refl _, .refl m, .behind hat, by simp [runFor, hat]⟩
    | some instruction =>
      have hlt := (Array.getElem?_eq_some_iff.1 hat).1
      exact .inr ⟨m, .refl m, hlt, by simp [runFor, hat]⟩
  | succ left ih =>
    cases hat : code[m.next]? with
    | none =>
      exact .inl ⟨0, m, m, none, Nat.zero_le _, .refl m, .behind hat, by simp [runFor, hat]⟩
    | some instruction =>
      cases hstep : step writer code.size instruction m with
      | running m₁ =>
        have hrun : runFor writer code limit (left + 1) m = runFor writer code limit left m₁ := by
          simp only [runFor, hat, hstep]
        rw [hrun]
        rcases ih m₁ with ⟨k, m₂, m', ending, hle, hreach, hstop, heq⟩ | ⟨m', hreach, hlt, heq⟩
        · exact .inl ⟨k + 1, m₂, m', ending, by omega, .step hat hstep hreach, hstop, heq⟩
        · exact .inr ⟨m', .step hat hstep hreach, hlt, heq⟩
      | halted m' =>
        exact .inl ⟨0, m, m', none, Nat.zero_le _, .refl m, .halts hat hstep,
          by simp only [runFor, hat, hstep]⟩
      | faulted fault m' =>
        exact .inl ⟨0, m, m', _, Nat.zero_le _, .refl m, .faults hat hstep,
          by simp only [runFor, hat, hstep]⟩

/-- What was computed does not depend on the flush. -/
theorem interpret_store (writer : Writer σ) (limit : Nat) (code : Code) (output : σ) :
    (interpret writer limit code output).1.store =
      (runFor writer code limit limit (.start output)).1.store := by
  simp only [interpret]
  split <;> rfl

/-- An outcome that is a fault comes from the run and not from the flush. -/
theorem ending_of_outcomeOf {ending : Option (Fault × Nat)} {reason : Option String}
    {fault : Fault} {i : Nat} (h : outcomeOf ending reason = .error (.fault fault i)) :
    ending = some (fault, i) := by
  rcases ending with - | ⟨fault', i'⟩
  · cases reason with
    | none => cases h
    | some reason => cases h
  · cases h
    rfl

theorem runFor_of_outcome {limit : Nat} {output : σ} {fault : Fault} {i : Nat}
    (h : (interpret writer limit code output).1.outcome = .error (.fault fault i)) :
    (runFor writer code limit limit (.start output)).2 = some (fault, i) := by
  simp only [interpret] at h
  split at h
  · exact ending_of_outcomeOf h
  · exact ending_of_outcomeOf h

theorem outcome_of_runFor {limit : Nat} {output : σ} {fault : Fault} {i : Nat}
    (h : (runFor writer code limit limit (.start output)).2 = some (fault, i)) :
    (interpret writer limit code output).1.outcome = .error (.fault fault i) := by
  simp only [interpret, h]
  split <;> rfl

/-- A fault ends a run whatever the flush does. -/
theorem interpret_of_fault {limit : Nat} {output : σ} {m : Machine σ} {fault : Fault} {i : Nat}
    (hrun : runFor writer code limit limit (.start output) = (m, some (fault, i))) :
    (interpret writer limit code output).1 = ⟨m.store, .error (.fault fault i)⟩ := by
  simp only [interpret, hrun]
  split <;> rfl

end Kestrel
