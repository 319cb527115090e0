import Kestrel.Proofs.Machine.Budget

/-!
# Writers that refuse

A writer with room for some lines only cuts a run off cleanly: until the first line that it refuses,
the run is the same as with a writer that refuses nothing, and then it fails at the instruction that
would have written this line. A flush comes behind everything else, so its refusal changes nothing
and is reported only if nothing else went wrong.

## Main definitions

- `Writer.unflushed` — a writer that is never flushed in earnest
- `Code.FlushRefused` — what becomes of a run whose flush is refused
- `Code.Truncates` — a run whose writer has room for some lines only, and one without refusals
- `Writer.SameLines` — two writers were given the same lines

## Main statements

- `step_sameLines`, `Machine.Reaches.sameLines` — a step and a chain of steps with the two writers
- `Machine.EndsAfter.sameLines` — runs with the two writers end alike, or a line is refused
- `Code.truncates` — a refusal of lines or of the flush does nothing else to a run
-/

namespace Kestrel

open Machine

variable {σ τ : Type} {writer : Writer σ} {writer' : Writer τ} {code : Code}

/-! ### Flushes that are refused -/

/-- The writer with a flush that does nothing. -/
def Writer.unflushed (writer : Writer σ) : Writer σ :=
  { writer with flush := .ok }

/-- A flush that is refused for this reason behind a run of some code changes nothing that was
computed or written, and it is the outcome if and only if the run itself succeeded. -/
structure Code.FlushRefused (writer : Writer σ) (code : Code) (limit : Nat) (output : σ)
    (reason : String) : Prop where
  output_eq :
    (interpret writer limit code output).2 = (interpret writer.unflushed limit code output).2
  store_eq : (interpret writer limit code output).1.store =
    (interpret writer.unflushed limit code output).1.store
  outcome_iff : (interpret writer limit code output).1.outcome = .error (.flushRefused reason) ↔
    (interpret writer.unflushed limit code output).1.outcome = .ok ()
  outcome_of_error : ∀ e, (interpret writer.unflushed limit code output).1.outcome = .error e →
    (interpret writer limit code output).1.outcome = .error e

theorem runFor_unflushed (writer : Writer σ) (code : Code) (limit left : Nat) (m : Machine σ) :
    runFor writer.unflushed code limit left m = runFor writer code limit left m := by
  have hstep : ∀ instruction m, step writer.unflushed code.size instruction m =
      step writer code.size instruction m := fun _ _ => rfl
  induction left generalizing m with
  | zero => rfl
  | succ left ih => simp only [runFor, hstep, ih]

theorem interpret_unflushed (writer : Writer σ) (limit : Nat) (code : Code) (output : σ) :
    interpret writer.unflushed limit code output =
      (⟨(runFor writer code limit limit (start output)).1.store,
        outcomeOf (runFor writer code limit limit (start output)).2 none⟩,
        (runFor writer code limit limit (start output)).1.output) := by
  simp only [interpret, runFor_unflushed]
  rfl

theorem Code.flushRefused {limit : Nat} {output : σ} {reason : String}
    (h : writer.flush (interpret writer.unflushed limit code output).2 = .error reason) :
    code.FlushRefused writer limit output reason := by
  rw [interpret_unflushed] at h
  have hrun : interpret writer limit code output =
      (⟨(runFor writer code limit limit (start output)).1.store,
        outcomeOf (runFor writer code limit limit (start output)).2 (some reason)⟩,
        (runFor writer code limit limit (start output)).1.output) := by
    simp only [interpret, h]
  constructor
  · rw [hrun, interpret_unflushed]
  · rw [hrun, interpret_unflushed]
  · rw [hrun, interpret_unflushed]
    rcases (runFor writer code limit limit (start output)).2 with - | ⟨fault, i⟩
    · simp [outcomeOf]
    · simp [outcomeOf]
  · intro e he
    rw [interpret_unflushed] at he
    rw [hrun]
    rcases hending : (runFor writer code limit limit (start output)).2 with - | ⟨fault, i⟩
    · simp [outcomeOf, hending] at he
    · simpa [outcomeOf, hending] using he

/-! ### Lines that are refused -/

section Lines

variable (lines : σ → List String) (room : σ → Nat) (lines' : τ → List String)

/-- Two writers were given the same lines from their starts on, and the first one has taken away
from its room for them. -/
structure Writer.SameLines (start : σ) (start' : τ) (printed : List String) (output : σ)
    (output' : τ) : Prop where
  lines_eq : lines output = lines start ++ printed
  lines_eq' : lines' output' = lines' start' ++ printed
  room_eq : room output + printed.length = room start

/-- How the runs of some code with two writers compare. The first writer has room for some lines
only, the second one refuses nothing and prints the lines `printed`. -/
structure Code.Truncates (writer : Writer σ) (writer' : Writer τ) (code : Code) (limit : Nat)
    (output : σ) (output' : τ) (printed : List String) : Prop where
  lines_eq : lines' (interpret writer' limit code output').2 = lines' output' ++ printed
  /-- If there is room for all lines, nothing is different. -/
  fits : printed.length ≤ room output →
    (interpret writer limit code output).1.store = (interpret writer' limit code output').1.store ∧
    lines (interpret writer limit code output).2 = lines output ++ printed ∧
    ∀ flushed, writer.flush (interpret writer.unflushed limit code output).2 = .ok flushed →
      (interpret writer limit code output).1.outcome =
        (interpret writer' limit code output').1.outcome
  /-- Otherwise the run fails when the first line comes for which there is no room. Until then it is
  the run without refusals, and only the value to be printed is off the stack. -/
  cut : room output < printed.length → ∃ k m value stack reason,
    k < limit ∧ Reaches writer' code k (start output') m ∧ code[m.next]? = some .print ∧
    m.stack = value :: stack ∧ printed[room output]? = some value.text ∧
    lines' m.output = lines' output' ++ printed.take (room output) ∧
    writer.line value.text (interpret writer.unflushed limit code output).2 = .error reason ∧
    (interpret writer limit code output).1 =
      ⟨⟨stack, m.registers⟩, .error (.fault (.outputRefused reason) m.next)⟩ ∧
    lines (interpret writer limit code output).2 = lines output ++ printed.take (room output)

/-- A machine is in front of a line for which there is no room. The second machine is what is left
when the line is refused. -/
inductive Machine.Refused (writer : Writer σ) (code : Code) (m : Machine σ) :
    Machine σ → Option (Fault × Nat) → Prop
  | intro {value : Value} {stack : List Value} {reason : String} (hroom : room m.output = 0)
      (hat : code[m.next]? = some .print) (hstack : m.stack = value :: stack)
      (hline : writer.line value.text m.output = .error reason) :
      Refused writer code m { m with stack, output := writer.refused value.text m.output }
        (some (.outputRefused reason, m.next))

end Lines

variable {lines : σ → List String} {room : σ → Nat} {lines' : τ → List String}

/-- A step that the first machine takes is taken by the second one too. -/
theorem step_sameLines (hwriter : writer.FillsUp lines room) (hwriter' : writer'.Lists lines')
    {size : Nat} {instruction : Instruction} {m m₁ : Machine σ} {output' start' : τ} {start : σ}
    {printed : List String}
    (h : Writer.SameLines lines room lines' start start' printed m.output output')
    (hstep : step writer size instruction m = .running m₁) :
    ∃ printed₁ output₁,
      step writer' size instruction (m.withOutput output') = .running (m₁.withOutput output₁) ∧
      Writer.SameLines lines room lines' start start' printed₁ m₁.output output₁ := by
  by_cases hprint : instruction = .print
  · subst hprint
    obtain ⟨next, stack, registers, output⟩ := m
    cases stack with
    | nil => cases hstep
    | cons value stack =>
      cases hroom : room output with
      | zero =>
        obtain ⟨reason, hrefused, -⟩ := hwriter.refuses value.text output hroom
        simp only [step, hrefused] at hstep
        cases hstep
      | succ left =>
        obtain ⟨taken, hok, hlines, hleft⟩ := hwriter.line value.text output left hroom
        obtain ⟨taken', hok', hlines'⟩ := hwriter'.line value.text output'
        simp only [step, hok] at hstep
        cases hstep
        refine ⟨printed ++ [value.text], taken', by simp only [step, Machine.withOutput, hok'], ?_⟩
        constructor
        · rw [hlines, h.lines_eq, List.append_assoc]
        · rw [hlines', h.lines_eq', List.append_assoc]
        · have hsum := h.room_eq
          simp only [hroom] at hsum
          simp only [hleft, List.length_append, List.length_singleton]
          omega
  · have houtput := output_step writer size hprint m
    rw [hstep] at houtput
    refine ⟨printed, output', ?_, ?_⟩
    · rw [step_withOutput writer writer' size hprint, hstep]
      rfl
    · rwa [show m₁.output = m.output from houtput]

/-- And so are the steps of a chain. -/
theorem Machine.Reaches.sameLines (hwriter : writer.FillsUp lines room)
    (hwriter' : writer'.Lists lines') {start : σ} {start' : τ} {k : Nat} {m m₁ : Machine σ}
    (hreach : Reaches writer code k m m₁) {printed : List String} {output' : τ}
    (h : Writer.SameLines lines room lines' start start' printed m.output output') :
    ∃ printed₁ output₁, Reaches writer' code k (m.withOutput output') (m₁.withOutput output₁) ∧
      Writer.SameLines lines room lines' start start' printed₁ m₁.output output₁ := by
  induction hreach generalizing printed output' with
  | refl m => exact ⟨printed, output', .refl _, h⟩
  | step hat hstep _ ih =>
    obtain ⟨printed₁, output₁, hstep', h₁⟩ := step_sameLines hwriter hwriter' h hstep
    obtain ⟨printed₂, output₂, hrest, h₂⟩ := ih h₁
    exact ⟨printed₂, output₂, .step hat hstep' hrest, h₂⟩

/-- Where the first machine stops, the second one stops too and nothing is written, or a line is
refused. -/
theorem Machine.Stops.or_refused (hwriter : writer.FillsUp lines room)
    {m m' : Machine σ} {ending : Option (Fault × Nat)} (h : Stops writer code m m' ending)
    (writer' : Writer τ) (output' : τ) :
    (Stops writer' code (m.withOutput output') (m'.withOutput output') ending ∧
      m'.output = m.output) ∨ m.Refused room writer code m' ending := by
  cases h with
  | behind hat => exact .inl ⟨.behind hat, rfl⟩
  | @halts _ instruction hat hstep =>
    have hprint : instruction ≠ .print := by
      rintro rfl
      simp only [step] at hstep
      split at hstep
      · split at hstep <;> cases hstep
      · cases hstep
    have houtput := output_step writer code.size hprint m
    rw [hstep] at houtput
    refine .inl ⟨.halts (m := m.withOutput output') hat ?_, houtput⟩
    rw [step_withOutput writer writer' code.size hprint, hstep]
    rfl
  | @faults _ instruction fault hat hstep =>
    by_cases hprint : instruction = .print
    · subst hprint
      obtain ⟨next, stack, registers, output⟩ := m
      cases stack with
      | nil =>
        cases hstep
        exact .inl ⟨.faults hat rfl, rfl⟩
      | cons value stack =>
        -- only a writer without room refuses a line
        cases hroom : room output with
        | zero =>
          simp only [step] at hstep
          split at hstep
          · cases hstep
          · next hline =>
            cases hstep
            exact .inr (.intro hroom hat rfl hline)
        | succ left =>
          obtain ⟨taken, hok, -, -⟩ := hwriter.line value.text output left hroom
          simp only [step, hok] at hstep
          cases hstep
    · have houtput := output_step writer code.size hprint m
      rw [hstep] at houtput
      refine .inl ⟨.faults (m := m.withOutput output') hat ?_, houtput⟩
      rw [step_withOutput writer writer' code.size hprint, hstep]
      rfl

/-- A run of the first machine ends like that of the second one, or at a line that is refused. -/
theorem Machine.EndsAfter.sameLines (hwriter : writer.FillsUp lines room)
    (hwriter' : writer'.Lists lines') {start : σ} {start' : τ} {n : ℕ} {m m' : Machine σ}
    {ending : Option (Fault × Nat)} (hends : EndsAfter writer code n m m' ending)
    {printed : List String} {output' : τ}
    (h : Writer.SameLines lines room lines' start start' printed m.output output') :
    (∃ printed₁ output₁,
      EndsAfter writer' code n (m.withOutput output') (m'.withOutput output₁) ending ∧
      Writer.SameLines lines room lines' start start' printed₁ m'.output output₁) ∨
    (∃ k, ∃ m₁ : Machine σ, ∃ printed₁ output₁, n = k + 1 ∧
      Reaches writer' code k (m.withOutput output') (m₁.withOutput output₁) ∧
      Writer.SameLines lines room lines' start start' printed₁ m₁.output output₁ ∧
      m₁.Refused room writer code m' ending) := by
  obtain ⟨k, m₁, hreach, hstop, hn⟩ := hends
  obtain ⟨printed₁, output₁, hreach', h₁⟩ := hreach.sameLines hwriter hwriter' h
  rcases hstop.or_refused hwriter writer' output₁ with ⟨hstop', houtput⟩ | hrefused
  · refine .inl ⟨printed₁, output₁, ⟨k, m₁.withOutput output₁, hreach', hstop', hn⟩, ?_⟩
    rwa [houtput]
  · have hinside : m₁.next < code.size := by
      cases hrefused with
      | intro _ hat _ _ => exact (Array.getElem?_eq_some_iff.1 hat).1
    rw [if_pos hinside] at hn
    exact .inr ⟨k, m₁, printed₁, output₁, hn, hreach', h₁, hrefused⟩

/-- A run only adds lines. -/
theorem Writer.Lists.isPrefix_runFor (hwriter : writer.Lists lines) (code : Code)
    (limit left : Nat) (m : Machine σ) :
    lines m.output <+: lines (runFor writer code limit left m).1.output := by
  have hreaches : ∀ {k : Nat} {m' : Machine σ}, Reaches writer code k m m' →
      lines m.output <+: lines m'.output := by
    intro k m' h
    refine Reaches.output (R := fun output output' => lines output <+: lines output') ?_ ?_ ?_ h
    · exact fun output => List.prefix_rfl
    · exact fun _ _ _ h₁ h₂ => h₁.trans h₂
    · intro text output output' hline
      obtain ⟨taken, hok, hlines⟩ := hwriter.line text output
      obtain rfl : taken = output' := by simpa [hline] using hok.symm
      exact ⟨[text], hlines.symm⟩
  rcases runFor_cases writer code limit left m with
    ⟨k, m₁, m', ending, -, hreach, hstop, hrun⟩ | ⟨m', hreach, -, hrun⟩
  · rw [hrun, hwriter.accepts.output_of_stops hstop]
    exact hreaches hreach
  · rw [hrun]
    exact hreaches hreach

section Comparing

variable {limit : Nat} {output : σ} {output' : τ} {printed : List String}

theorem Writer.sameLines_start (lines : σ → List String) (room : σ → Nat)
    (lines' : τ → List String) (output : σ) (output' : τ) :
    Writer.SameLines lines room lines' output output' [] output output' :=
  ⟨(List.append_nil _).symm, (List.append_nil _).symm, rfl⟩

/-- Runs that end alike are not told apart. -/
theorem Code.Truncates.of_same (hwriter : writer.FillsUp lines room)
    (hwriter' : writer'.Lists lines') {m : Machine σ} {ending : Option (Fault × Nat)} {output₁ : τ}
    (hrun : runFor writer code limit limit (start output) = (m, ending))
    (hrun' : runFor writer' code limit limit (start output') = (m.withOutput output₁, ending))
    (h : Writer.SameLines lines room lines' output output' printed m.output output₁) :
    code.Truncates lines room lines' writer writer' limit output output' printed where
  lines_eq := by
    rw [hwriter'.flushKeeps.written_interpret, hrun']
    exact h.lines_eq'
  fits _ := by
    refine ⟨?_, ?_, ?_⟩
    · rw [interpret_store, interpret_store, hrun, hrun']
      rfl
    · rw [hwriter.flushKeeps.written_interpret, hrun]
      exact h.lines_eq
    · intro flushed hflush
      rw [interpret_unflushed, hrun] at hflush
      obtain ⟨flushed', hflush', -⟩ := hwriter'.flush output₁
      rw [interpret_of_runFor hrun hflush, interpret_of_runFor hrun' hflush']
  cut hlt := by
    have hle := h.room_eq
    omega

/-- A run whose writer refuses a line is cut there. -/
theorem Code.Truncates.of_refused (hwriter : writer.FillsUp lines room)
    (hwriter' : writer'.Lists lines') {k : Nat} {m m' : Machine σ}
    {ending : Option (Fault × Nat)} {output₁ : τ} (hlt : k < limit)
    (hreach : Reaches writer' code k (start output') (m.withOutput output₁))
    (h : Writer.SameLines lines room lines' output output' printed m.output output₁)
    (hrefused : m.Refused room writer code m' ending)
    (hrun : runFor writer code limit limit (start output) = (m', ending)) :
    ∃ all, code.Truncates lines room lines' writer writer' limit output output' all := by
  obtain @⟨value, stack, reason, hroom, hat, hstack, hline⟩ := hrefused
  obtain ⟨next, stack', registers, written⟩ := m
  obtain rfl : stack' = value :: stack := hstack
  -- the other writer takes the line, and what comes then is written behind it
  obtain ⟨output₂, hok, hlines⟩ := hwriter'.line value.text output₁
  have hstep : step writer' code.size .print
      (Machine.withOutput ⟨next, value :: stack, registers, written⟩ output₁) =
      .running ⟨next + 1, stack, registers, output₂⟩ := by
    simp only [step, Machine.withOutput, hok]
  have hreach₂ := hreach.trans (.single hat hstep)
  obtain ⟨left, rfl⟩ := Nat.exists_eq_add_of_le (Nat.succ_le_of_lt hlt)
  obtain ⟨rest, hrest⟩ := hwriter'.isPrefix_runFor code (k + 1 + left) left
    ⟨next + 1, stack, registers, output₂⟩
  have hlength : room output = printed.length := by
    have hsum := h.room_eq
    simp only at hroom hsum
    omega
  -- the first writer has nothing of it, and would refuse it again
  obtain ⟨reason', hline', hagain, hkept⟩ := hwriter.refuses value.text written hroom
  obtain rfl : reason = reason' := Except.error.inj (hline.symm.trans hline')
  refine ⟨printed ++ value.text :: rest, ?_, fun hle => ?_, fun _ => ?_⟩
  · rw [hwriter'.flushKeeps.written_interpret, runFor_of_reaches hreach₂, ← hrest]
    simp only [hlines, h.lines_eq', List.append_assoc, List.singleton_append]
  · simp only [List.length_append, List.length_cons] at hle
    omega
  · refine ⟨k, _, value, stack, reason, hlt, hreach, hat, rfl, ?_, ?_, ?_, ?_, ?_⟩
    · rw [hlength, List.getElem?_append_right (Nat.le_refl _), Nat.sub_self]
      rfl
    · rw [hlength, List.take_left]
      exact h.lines_eq'
    · rw [interpret_unflushed, hrun]
      exact hagain
    · exact interpret_of_fault hrun
    · rw [hwriter.flushKeeps.written_interpret, hrun, hlength, List.take_left]
      exact hkept.trans h.lines_eq

/-- A writer with room for some lines only truncates every run cleanly, and a refused flush changes
nothing but the outcome of a run that succeeded. -/
theorem Code.truncates (hwriter : writer.FillsUp lines room) (hwriter' : writer'.Lists lines')
    (code : Code) (limit : Nat) (output : σ) (output' : τ) :
    (∃ printed, code.Truncates lines room lines' writer writer' limit output output' printed) ∧
    ∀ (ρ : Type) (other : Writer ρ) (begun : ρ) (reason : String),
      other.flush (interpret other.unflushed limit code begun).2 = .error reason →
        code.FlushRefused other limit begun reason := by
  refine ⟨?_, fun ρ other begun reason h => Code.flushRefused h⟩
  have hstart := Writer.sameLines_start lines room lines' output output'
  rcases le_or_gt ((start output).instructionCount writer code) (limit : ℕ∞) with hle | hgt
  · -- the limit is enough for the first run
    have hfinite := ne_top_of_le_ne_top (ENat.natCast_ne_top limit) hle
    obtain ⟨n, m, ending, hends⟩ := exists_endsAfter hfinite
    rw [instructionCount_eq hends] at hle
    have hn : n ≤ limit := by exact_mod_cast hle
    have hrun := runFor_of_endsAfter hends limit hn
    rcases hends.sameLines hwriter hwriter' hstart with
      ⟨printed, output₁, hends', h⟩ | ⟨k, m₁, printed, output₁, rfl, hreach, h, hrefused⟩
    · exact ⟨printed, .of_same hwriter hwriter' hrun (runFor_of_endsAfter hends' limit hn) h⟩
    · exact Code.Truncates.of_refused hwriter hwriter' hn hreach h hrefused hrun
  · -- the limit cuts both runs at the same place
    obtain ⟨m, hreach, hinside⟩ := exists_cut hgt
    obtain ⟨printed, output₁, hreach', h⟩ := hreach.sameLines hwriter hwriter' hstart
    exact ⟨printed, .of_same hwriter hwriter' (runFor_of_cut hreach hinside limit)
      (runFor_of_cut hreach' hinside limit) h⟩

/-- A loop that prints without end is truncated when there is no room for a third line. With a
writer that refuses nothing, it prints seven lines until its budget is used up. -/
theorem truncates_printing :
    (Writer.keepingUpTo 2).FillsUp List.reverse (2 - ·.length) ∧
    Writer.keeping.Lists List.reverse ∧
    Code.Truncates List.reverse (2 - ·.length) List.reverse (Writer.keepingUpTo 2) Writer.keeping
      printing 20 [] [] (List.replicate 7 "true") ∧
    interpret (Writer.keepingUpTo 2) 20 printing [] =
      (⟨⟨[], ∅⟩, .error (.fault (.outputRefused "full") 1)⟩, ["true", "true"]) ∧
    ∀ (ρ : Type) (other : Writer ρ) (begun : ρ) (reason : String),
      other.flush (interpret other.unflushed 20 printing begun).2 = .error reason →
        printing.FlushRefused other 20 begun reason := by
  obtain ⟨⟨printed, htruncates⟩, hflush⟩ := Code.truncates (Writer.fillsUp_keepingUpTo 2)
    Writer.lists_keeping printing 20 [] []
  obtain rfl : List.replicate 7 "true" = printed := htruncates.lines_eq
  exact ⟨Writer.fillsUp_keepingUpTo 2, Writer.lists_keeping, htruncates, rfl, hflush⟩

end Comparing

end Kestrel
