import Mathlib.Data.ENat.Lattice
import Kestrel.Proofs.Machine.Writers

/-!
# Budgets of steps

A run that nothing limits either ends after a number of instructions or goes on for ever. A budget
of at least that number changes nothing, and a smaller one cuts the run behind as many instructions
as it has.

## Main definitions

- `Machine.EndsAfter`, `Machine.Endless` — what becomes of a run that nothing limits
- `Machine.instructionCount` — how many instructions such a run executes
- `Code.CutExactly` — what every budget makes of the runs of some code

## Main statements

- `Machine.instructionCount_eq_top_iff` — only an endless run has no number of instructions
- `Machine.exists_cut` — a run comes behind every number of instructions that is less than its own
- `Code.cutExactly` — budgets cut runs exactly
-/

namespace Kestrel

variable {σ : Type}

section Counting

variable (writer : Writer σ) (code : Code)

/-- A run that nothing limits ends after so many instructions. The instruction at which it stops
counts, and to arrive behind the last instruction costs nothing. -/
def Machine.EndsAfter (n : ℕ) (m m' : Machine σ) (ending : Option (Fault × Nat)) : Prop :=
  ∃ k m₁, Machine.Reaches writer code k m m₁ ∧ Machine.Stops writer code m₁ m' ending ∧
    n = if m₁.next < code.size then k + 1 else k

/-- A run that nothing limits goes on for ever. -/
def Machine.Endless (m : Machine σ) : Prop :=
  ∀ k, ∃ m', Machine.Reaches writer code k m m'

/-- How many instructions a run executes if nothing limits it. -/
noncomputable def Machine.instructionCount (m : Machine σ) : ℕ∞ :=
  ⨅ (n : ℕ) (_ : ∃ m' ending, m.EndsAfter writer code n m' ending), (n : ℕ∞)

end Counting

variable {writer : Writer σ} {code : Code}

namespace Machine

theorem Stops.unique {m m₁ m₂ : Machine σ} {ending₁ ending₂ : Option (Fault × Nat)}
    (h₁ : Stops writer code m m₁ ending₁) (h₂ : Stops writer code m m₂ ending₂) :
    m₁ = m₂ ∧ ending₁ = ending₂ := by
  have h := (runFor_of_stops h₁ 0 Nat.one_pos).symm.trans (runFor_of_stops h₂ 0 Nat.one_pos)
  exact Prod.mk.inj h

theorem EndsAfter.unique {n₁ n₂ : ℕ} {m m₁ m₂ : Machine σ} {ending₁ ending₂ : Option (Fault × Nat)}
    (h₁ : EndsAfter writer code n₁ m m₁ ending₁) (h₂ : EndsAfter writer code n₂ m m₂ ending₂) :
    n₁ = n₂ ∧ m₁ = m₂ ∧ ending₁ = ending₂ := by
  obtain ⟨k₁, last₁, hreach₁, hstop₁, rfl⟩ := h₁
  obtain ⟨k₂, last₂, hreach₂, hstop₂, rfl⟩ := h₂
  -- the run that stops first is the beginning of the other one, and cannot be left
  have hlast : k₁ = k₂ ∧ last₁ = last₂ := by
    rcases Nat.le_total k₁ k₂ with hle | hle
    · obtain ⟨hzero, rfl⟩ := hstop₁.eq_of_reaches (hreach₁.sub hreach₂ hle)
      exact ⟨by omega, rfl⟩
    · obtain ⟨hzero, rfl⟩ := hstop₂.eq_of_reaches (hreach₂.sub hreach₁ hle)
      exact ⟨by omega, rfl⟩
  obtain ⟨rfl, rfl⟩ := hlast
  exact ⟨rfl, hstop₁.unique hstop₂⟩

theorem instructionCount_eq {n : ℕ} {m m' : Machine σ} {ending : Option (Fault × Nat)}
    (h : EndsAfter writer code n m m' ending) : m.instructionCount writer code = n := by
  refine le_antisymm (iInf₂_le n ⟨m', ending, h⟩) (le_iInf₂ ?_)
  rintro n' ⟨m'', ending', h'⟩
  rw [(h.unique h').1]

theorem instructionCount_eq_top_of_not {m : Machine σ}
    (h : ∀ n m' ending, ¬ EndsAfter writer code n m m' ending) :
    m.instructionCount writer code = ⊤ := by
  simp [instructionCount, h]

/-- A run comes behind every number of instructions that is less than its own, and is then in front
of another one. -/
theorem exists_cut {b : ℕ} {m : Machine σ} (h : (b : ℕ∞) < m.instructionCount writer code) :
    ∃ m', Reaches writer code b m m' ∧ m'.next < code.size := by
  rcases runFor_cases writer code 0 b m with
    ⟨k, m₁, m', ending, hle, hreach, hstop, -⟩ | ⟨m', hreach, hlt, -⟩
  · -- the run stops by then, but only if the next instruction is the one that stops it
    rw [instructionCount_eq ⟨k, m₁, hreach, hstop, rfl⟩] at h
    have hlt : b < if m₁.next < code.size then k + 1 else k := by exact_mod_cast h
    split at hlt
    · next hinside =>
      obtain rfl : k = b := by omega
      exact ⟨m₁, hreach, hinside⟩
    · omega
  · exact ⟨m', hreach, hlt⟩

theorem Endless.not_endsAfter {n : ℕ} {m m' : Machine σ} {ending : Option (Fault × Nat)}
    (h : Endless writer code m) : ¬ EndsAfter writer code n m m' ending := by
  rintro ⟨k, m₁, hreach, hstop, -⟩
  obtain ⟨m₂, hreach₂⟩ := h (k + 1)
  obtain ⟨hzero, -⟩ := hstop.eq_of_reaches (hreach.sub hreach₂ (Nat.le_succ k))
  omega

theorem instructionCount_eq_top_iff {m : Machine σ} :
    m.instructionCount writer code = ⊤ ↔ Endless writer code m := by
  constructor
  · intro htop k
    obtain ⟨m', hreach, -⟩ := exists_cut (b := k) (htop ▸ ENat.natCast_lt_top k)
    exact ⟨m', hreach⟩
  · exact fun h => instructionCount_eq_top_of_not fun _ _ _ => h.not_endsAfter

end Machine

open Machine

/-! ### Runs with a budget -/

/-- A budget that is enough for a run does not matter. -/
theorem runFor_of_endsAfter {n : ℕ} {m m' : Machine σ} {ending : Option (Fault × Nat)}
    (h : EndsAfter writer code n m m' ending) (limit : Nat) {left : Nat} (hle : n ≤ left) :
    runFor writer code limit left m = (m', ending) := by
  obtain ⟨k, m₁, hreach, hstop, rfl⟩ := h
  by_cases hinside : m₁.next < code.size
  · rw [if_pos hinside] at hle
    obtain ⟨rest, rfl⟩ := Nat.exists_eq_add_of_le (Nat.le_of_succ_le hle)
    rw [runFor_of_reaches hreach]
    exact runFor_of_stops hstop limit (by omega)
  · rw [if_neg hinside] at hle
    obtain ⟨rest, rfl⟩ := Nat.exists_eq_add_of_le hle
    rw [runFor_of_reaches hreach]
    have hat : code[m₁.next]? = none := Array.getElem?_eq_none_iff.2 (Nat.le_of_not_lt hinside)
    cases hstop with
    | behind => cases rest <;> simp only [runFor, hat]
    | halts hat' => simp [hat] at hat'
    | faults hat' => simp [hat] at hat'

theorem interpret_of_runFor {limit : Nat} {output output' : σ} {m : Machine σ}
    {ending : Option (Fault × Nat)}
    (hrun : runFor writer code limit limit (.start output) = (m, ending))
    (hflush : writer.flush m.output = .ok output') :
    interpret writer limit code output = (⟨m.store, outcomeOf ending none⟩, output') := by
  simp only [interpret, hrun, hflush]

/-! ### What is written on the way -/

/-- The text that is written only grows. -/
theorem Writer.Records.written_of_reaches {written : σ → String} (hwriter : writer.Records written)
    {k : Nat} {m m' : Machine σ} (h : Reaches writer code k m m') :
    ∃ text, written m'.output = written m.output ++ text := by
  refine Reaches.output
    (R := fun output output' => ∃ text, written output' = written output ++ text) ?_ ?_ ?_ h
  · exact fun output => ⟨"", String.append_empty.symm⟩
  · rintro output₁ output₂ output₃ ⟨first, hfirst⟩ ⟨rest, hrest⟩
    exact ⟨first ++ rest, by rw [hrest, hfirst, String.append_assoc]⟩
  · intro text output output' hline
    obtain ⟨taken, hok, hwritten⟩ := hwriter.line text output
    obtain rfl : taken = output' := by simpa [hline] using hok.symm
    exact ⟨text ++ "\n", hwritten⟩

/-! ### Budgets cut exactly -/

/-- What budgets make of the runs of some code on fresh machines, whose writer refuses nothing and
writes the text `written`. -/
structure Code.CutExactly (writer : Writer σ) (written : σ → String) (code : Code) (output : σ) :
    Prop where
  /-- Infinitely many instructions are executed by a run without an end. -/
  count_eq_top_iff : (start output).instructionCount writer code = ⊤ ↔
    (start output).Endless writer code
  /-- Every other run ends after as many instructions as it executes. -/
  count_eq_iff : ∀ n : ℕ, (start output).instructionCount writer code = n ↔
    ∃ m ending, (start output).EndsAfter writer code n m ending
  /-- Under a budget that is enough, a run ends as it does if nothing limits it. -/
  enough : ∀ n m ending, (start output).EndsAfter writer code n m ending →
    ∃ output', writer.flush m.output = .ok output' ∧ written output' = written m.output ∧
      ∀ limit : ℕ, (start output).instructionCount writer code ≤ limit →
        interpret writer limit code output = (⟨m.store, outcomeOf ending none⟩, output')
  /-- Under every other budget, it fails in front of the instruction that is too much, with what it
  has computed and written until then. -/
  cut : ∀ limit : ℕ, limit < (start output).instructionCount writer code →
    ∃ m output', Reaches writer code limit (start output) m ∧ m.next < code.size ∧
      writer.flush m.output = .ok output' ∧ written output' = written m.output ∧
      interpret writer limit code output =
        (⟨m.store, .error (.fault (.stepLimit limit) m.next)⟩, output')
  /-- A run that is not cut is the same under every larger budget. -/
  stable : ∀ limit limit', limit ≤ limit' →
    (∀ i, (interpret writer limit code output).1.outcome ≠ .error (.fault (.stepLimit limit) i)) →
    interpret writer limit' code output = interpret writer limit code output
  /-- What is written under a budget is the beginning of what is written under a larger one. -/
  written_append : ∀ limit limit', limit ≤ limit' → ∃ text,
    written (interpret writer limit' code output).2 =
      written (interpret writer limit code output).2 ++ text

section Cutting

variable {written : σ → String}

theorem Machine.exists_endsAfter {m : Machine σ} (h : m.instructionCount writer code ≠ ⊤) :
    ∃ n m' ending, EndsAfter writer code n m m' ending := by
  by_contra hnone
  push Not at hnone
  exact h (instructionCount_eq_top_of_not hnone)

theorem interpret_of_enough (hwriter : writer.Records written) {n : ℕ} {output : σ} {m : Machine σ}
    {ending : Option (Fault × Nat)} (h : (start output).EndsAfter writer code n m ending) :
    ∃ output', writer.flush m.output = .ok output' ∧ written output' = written m.output ∧
      ∀ limit : ℕ, (start output).instructionCount writer code ≤ limit →
        interpret writer limit code output = (⟨m.store, outcomeOf ending none⟩, output') := by
  obtain ⟨output', hflush, hwritten⟩ := hwriter.flush m.output
  refine ⟨output', hflush, hwritten, fun limit hle => ?_⟩
  rw [instructionCount_eq h] at hle
  exact interpret_of_runFor (runFor_of_endsAfter h limit (by exact_mod_cast hle)) hflush

theorem interpret_of_cut (hwriter : writer.Records written) {limit : ℕ} {output : σ}
    (h : limit < (start output).instructionCount writer code) :
    ∃ m output', Reaches writer code limit (start output) m ∧ m.next < code.size ∧
      writer.flush m.output = .ok output' ∧ written output' = written m.output ∧
      interpret writer limit code output =
        (⟨m.store, .error (.fault (.stepLimit limit) m.next)⟩, output') := by
  obtain ⟨m, hreach, hinside⟩ := exists_cut h
  obtain ⟨output', hflush, hwritten⟩ := hwriter.flush m.output
  exact ⟨m, output', hreach, hinside, hflush, hwritten,
    interpret_of_runFor (runFor_of_cut hreach hinside limit) hflush⟩

/-- Budgets that are enough all show the same. -/
theorem interpret_eq_of_enough (hwriter : writer.Records written) {limit limit' : ℕ} {output : σ}
    (h : (start output).instructionCount writer code ≤ limit) (hle : limit ≤ limit') :
    interpret writer limit' code output = interpret writer limit code output := by
  have hfinite : (start output).instructionCount writer code ≠ ⊤ :=
    ne_top_of_le_ne_top (ENat.natCast_ne_top limit) h
  obtain ⟨n, m, ending, hends⟩ := exists_endsAfter hfinite
  obtain ⟨output', -, -, henough⟩ := interpret_of_enough hwriter hends
  rw [henough limit h, henough limit' (h.trans (by exact_mod_cast hle))]

/-- Until it is cut, a run has written the beginning of what it writes afterwards. -/
theorem Machine.EndsAfter.written_append (hwriter : writer.Records written) {n b : ℕ}
    {m m' m₁ : Machine σ} {ending : Option (Fault × Nat)}
    (h : EndsAfter writer code n m m' ending) (hlt : b < n) (hreach : Reaches writer code b m m₁) :
    ∃ text, written m'.output = written m₁.output ++ text := by
  obtain ⟨k, last, hlast, hstop, rfl⟩ := h
  have hle : b ≤ k := by split at hlt <;> omega
  rw [hwriter.accepts.output_of_stops hstop]
  exact hwriter.written_of_reaches (hreach.sub hlast hle)

theorem interpret_written_append (hwriter : writer.Records written) {limit limit' : ℕ}
    (hle : limit ≤ limit') (code : Code) (output : σ) : ∃ text,
    written (interpret writer limit' code output).2 =
      written (interpret writer limit code output).2 ++ text := by
  rcases le_or_gt ((start output).instructionCount writer code) (limit : ℕ∞) with h | h
  · exact ⟨"", by rw [interpret_eq_of_enough hwriter h hle, String.append_empty]⟩
  · obtain ⟨m, output₁, hreach, -, -, hwritten, hcut⟩ := interpret_of_cut hwriter h
    rcases le_or_gt ((start output).instructionCount writer code) (limit' : ℕ∞) with h' | h'
    · -- the larger budget shows how the run ends
      have hfinite := ne_top_of_le_ne_top (ENat.natCast_ne_top limit') h'
      obtain ⟨n, m', ending, hends⟩ := exists_endsAfter hfinite
      obtain ⟨output₂, -, hwritten', henough⟩ := interpret_of_enough hwriter hends
      rw [instructionCount_eq hends] at h
      rw [hcut, henough limit' h', hwritten, hwritten']
      exact hends.written_append hwriter (by exact_mod_cast h) hreach
    · obtain ⟨m', output₂, hreach', -, -, hwritten', hcut'⟩ := interpret_of_cut hwriter h'
      rw [hcut, hcut', hwritten, hwritten']
      exact hwriter.written_of_reaches (hreach.sub hreach' hle)

/-- Budgets cut the runs of any code exactly. -/
theorem Code.cutExactly (hwriter : writer.Records written) (code : Code) (output : σ) :
    code.CutExactly writer written output where
  count_eq_top_iff := instructionCount_eq_top_iff
  count_eq_iff n := by
    constructor
    · intro hcount
      obtain ⟨n', m, ending, hends⟩ := exists_endsAfter (hcount ▸ ENat.natCast_ne_top n)
      obtain rfl : n' = n := by exact_mod_cast (instructionCount_eq hends).symm.trans hcount
      exact ⟨m, ending, hends⟩
    · rintro ⟨m, ending, hends⟩
      exact instructionCount_eq hends
  enough _ _ _ hends := interpret_of_enough hwriter hends
  cut _ hlt := interpret_of_cut hwriter hlt
  stable limit limit' hle huncut := by
    refine interpret_eq_of_enough hwriter (not_lt.1 fun hlt => ?_) hle
    obtain ⟨m, output', -, -, -, -, hcut⟩ := interpret_of_cut hwriter hlt
    exact huncut m.next (by rw [hcut])
  written_append _ _ hle := interpret_written_append hwriter hle code output

/-- A run goes on for ever if it can take a step in every state that it may come to. -/
theorem Machine.endless_of_steps {P : Machine σ → Prop}
    (hstep : ∀ m, P m → ∃ m', Reaches writer code 1 m m' ∧ P m') {m : Machine σ} (h : P m) :
    Endless writer code m := by
  have hreaches : ∀ k, ∃ m', Reaches writer code k m m' ∧ P m' := by
    intro k
    induction k with
    | zero => exact ⟨m, .refl m, h⟩
    | succ k ih =>
      obtain ⟨m₁, hreach, h₁⟩ := ih
      obtain ⟨m₂, hlast, h₂⟩ := hstep m₁ h₁
      exact ⟨m₂, hreach.trans hlast, h₂⟩
  intro k
  obtain ⟨m', hreach, -⟩ := hreaches k
  exact ⟨m', hreach⟩

/-- A loop that prints without end. -/
def printing : Code := #[.push (.boolean true), .print, .jump 0]

theorem endless_printing (output : List String) :
    (start output).Endless Writer.keeping printing := by
  -- there is a value to be printed in front of `print`
  let P (m : Machine (List String)) : Prop :=
    m.next = 0 ∨ (m.next = 1 ∧ ∃ rest, m.stack = .boolean true :: rest) ∨ m.next = 2
  refine endless_of_steps (P := P) ?_ (.inl rfl)
  rintro ⟨next, stack, registers, output⟩ (hnext | ⟨hnext, rest, hstack⟩ | hnext)
  · obtain rfl : next = 0 := hnext
    exact ⟨⟨1, .boolean true :: stack, registers, output⟩, .single rfl rfl,
      .inr (.inl ⟨rfl, stack, rfl⟩)⟩
  · obtain rfl : next = 1 := hnext
    obtain rfl : stack = .boolean true :: rest := hstack
    exact ⟨⟨2, rest, registers, "true" :: output⟩, .single rfl rfl, .inr (.inr rfl)⟩
  · obtain rfl : next = 2 := hnext
    exact ⟨⟨0, stack, registers, output⟩, .single rfl rfl, .inl rfl⟩

/-- Budgets cut the loop exactly. Nothing else ends it: under ten instructions, it has printed three
lines and has come to the next `print`. -/
theorem cutExactly_printing : Writer.keeping.Records Writer.keptText ∧
    Code.CutExactly Writer.keeping Writer.keptText printing [] ∧
    (start []).instructionCount Writer.keeping printing = ⊤ ∧
    interpret Writer.keeping 10 printing [] =
      (⟨⟨[.boolean true], ∅⟩, .error (.fault (.stepLimit 10) 1)⟩, ["true", "true", "true"]) := by
  have hcut := Code.cutExactly Writer.records_keeping printing []
  exact ⟨Writer.records_keeping, hcut, hcut.count_eq_top_iff.2 (endless_printing []), rfl⟩

end Cutting

end Kestrel
