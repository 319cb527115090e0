import Kestrel.Proofs.Bytecode.Correctness
import Kestrel.Proofs.Bytecode.Objections
import Kestrel.Proofs.Machine.Writers
import Kestrel.Proofs.Program.SafeReads

/-!
# Reads of unset registers

A program is accepted if every read comes after an assignment in the order of the text. The
assignment may still have been left out when the read is done, and then the machine finds the
register unset. This file says which reads can come to that.

## Main statements

- `Program.runs_failed_of_outcome` — a fault of the machine is a fault of the program
- `Program.reads_outside_of_outcome` — a register that is found unset is read outside the block of
  the first assignment
- `Program.unsetRegister_only_outside` — no run finds a register unset if all reads are inside
-/

namespace Kestrel

/-- Without objections, every read comes after an assignment. -/
theorem ReadsSafely.of_unobjected {name : String} {sites : List Site} (h : Unobjected sites)
    (hinside : ReadsInside name sites) : ReadsSafely name sites where
  assigned before site after heq span hread := by
    obtain ⟨block, act⟩ := site
    obtain rfl : act = .read name span := hread
    by_cases hnew : name ∈ assignedNames before
    · exact hnew
    · exact absurd (.undefinedVariable hnew) (h before _ after heq _ _)
  inside := hinside

/-- A run starts in front of all sites, where nothing is assigned. -/
theorem Arrives.start (name : String) (program : Program) :
    Arrives name program.walk [] [] 0 .initial program.walk where
  split := ⟨[], by simp⟩
  unvisited := .nil [] 0
  set := by
    rintro ⟨first, hfirst, -⟩
    cases hfirst

namespace Program

variable {σ : Type} {writer : Writer σ} {program : Program} {scope : Scope} {code : Code}

/-- A fault of the machine that is neither the limit's nor the writer's is one of the program. -/
theorem runs_failed_of_outcome (hscope : program.scope = .ok scope) {limit : Nat} {output : σ}
    {fault : Fault} {i : Nat}
    (h : (interpret writer limit (program.lower scope.register) output).1.outcome =
      .error (.fault fault i))
    (hlimit : fault ≠ .stepLimit limit) (hrefused : ∀ reason, fault ≠ .outputRefused reason) :
    ∃ st cause, program.Runs .initial st (.failed cause) ∧
      cause.onMachine scope.register = fault := by
  obtain ⟨hnumbered, hknown⟩ := Program.known_of_scope hscope
  -- the fault is the same with the writer that keeps all lines
  have hkeeping := interpret_faults_of_accepts Writer.accepts_keeping h hrefused []
  have hnot : ¬ (interpret Writer.keeping limit (program.lower scope.register)
      []).1.LimitReached limit := by
    rintro ⟨j, hj⟩
    rw [hkeeping] at hj
    cases hj
    exact hlimit rfl
  obtain ⟨k, m₁, m', ending, hk, hreach, hstop, -⟩ := endsWithin_of_not_limitReached hnot
  obtain ⟨st, exit, hruns⟩ := Program.runs_of_endsWithin Writer.accepts_keeping hnumbered hknown
    (Program.enters_start Writer.keeping scope program []) ⟨k, m₁, m', ending, hk, hreach, hstop⟩
  obtain ⟨enough, hshows⟩ :=
    Program.shows_of_runs Writer.accepts_keeping [] hnumbered hknown hruns
  have hend := hshows _ (Nat.le_max_right limit (enough + 1))
  rw [interpret_eq_of_le hnot (Nat.le_max_left limit (enough + 1))] at hend
  rcases hend.exit_eq with rfl | ⟨cause, rfl⟩
  · rw [hend.ok rfl] at hkeeping
    cases hkeeping
  · obtain ⟨j, hj⟩ := hend.failed cause rfl
    rw [hkeeping] at hj
    cases hj
    exact ⟨st, cause, hruns, rfl⟩

/-- A register that a run finds unset is that of a name with a read outside the block of its first
assignment, and that block is not the top level. -/
theorem reads_outside_of_outcome (hcompile : program.compile = .ok code) {limit : Nat} {output : σ}
    {r : Register} {i : Nat}
    (h : (interpret writer limit code output).1.outcome = .error (.fault (.unsetRegister r) i)) :
    ∃ scope name, program.scope = .ok scope ∧ scope.register? name = some r ∧
      ∃ read ∈ program.walk, ∃ span first, read.act = .read name span ∧
        firstAssignment? name program.walk = some first ∧ first.block ≠ [] ∧
        ¬ first.block <+: read.block := by
  rcases program.compile_cases with
    ⟨scope, hscope, hlower, hknows, hnone⟩ | ⟨e, herror, -⟩
  · rw [hcompile] at hlower
    cases hlower
    obtain ⟨st, cause, hruns, hcause⟩ := runs_failed_of_outcome hscope h nofun nofun
    cases cause with
    | operator | conditionNotBoolean => cases hcause
    | unset name =>
      have hinside : ¬ ReadsInside name program.walk := by
        intro hinside
        exact hruns.ne_unset (.of_unobjected hnone hinside) (.start name program) rfl
      simp only [ReadsInside, not_forall] at hinside
      obtain ⟨read, hmem, span, hread, first, hfirst, hnot⟩ := hinside
      have hname : name ∈ assignedNames program.walk :=
        firstAssignment?_isSome_iff.1 (Option.isSome_of_eq_some hfirst)
      refine ⟨scope, name, hscope, ?_, read, hmem, span, first, hread, hfirst, ?_, hnot⟩
      · rw [Scope.register_of_isSome ((hknows.isSome_iff name).2 hname)]
        cases hcause
        rfl
      · intro hblock
        rw [hblock] at hnot
        exact hnot List.nil_prefix
  · rw [hcompile] at herror
    cases herror

/-- A run of compiled code never finds a register unset if each name is read only inside the block
of its first assignment. So what is found unset is read outside a block that is not the top level
and that its first assignment stands in. -/
theorem unsetRegister_only_outside (hcompile : program.compile = .ok code) :
    ((∀ name, ReadsInside name program.walk) →
      ∀ {σ : Type} (writer : Writer σ) (limit : Nat) (output : σ) (r : Register) (i : Nat),
        (interpret writer limit code output).1.outcome ≠
          .error (.fault (.unsetRegister r) i)) ∧
    (∀ {σ : Type} (writer : Writer σ) (limit : Nat) (output : σ) (r : Register) (i : Nat),
      (interpret writer limit code output).1.outcome = .error (.fault (.unsetRegister r) i) →
      ∃ scope name, program.scope = .ok scope ∧ scope.register? name = some r ∧
        ∃ read ∈ program.walk, ∃ span first, read.act = .read name span ∧
          firstAssignment? name program.walk = some first ∧ first.block ≠ [] ∧
          ¬ first.block <+: read.block) := by
  constructor
  · intro hinside σ writer limit output r i h
    obtain ⟨scope, name, -, -, read, hmem, span, first, hread, hfirst, -, hnot⟩ :=
      reads_outside_of_outcome hcompile h
    exact hnot (hinside name read hmem span hread first hfirst)
  · intro σ writer limit output r i h
    exact reads_outside_of_outcome hcompile h

end Program

/-! ### A name that only a loop assigns -/

section Countdown

/-- A name is assigned first in the body of a loop, and read there and in a block inside it. -/
def countdown : Program :=
  let span : Span := ⟨0, 0⟩
  let n : Expr := .name "n" span
  let m : Expr := .name "m" span
  [.assign "n" .set (.number 2 span) span,
    .whileDo (.binary n .gt (.number 0 span) span)
      [.assign "m" .set n span,
        .ifElse (.binary m .gt (.number 1 span) span) [.print m span] [.print n span] span,
        .assign "n" .sub (.number 1 span) span]
      span]

theorem readsInside_countdown : ∀ name, ReadsInside name countdown.walk :=
  forall_readsInside_iff.2 (by decide)

theorem compile_countdown : ∃ code, countdown.compile = .ok code := by
  simp [Program.compile, Except.map, Program.scope, countdown, Stmt.declareAll, Stmt.declare,
    checkAssignment, Expr.check, Scope.assign, Scope.assign?, Scope.read, Scope.register?,
    Scope.empty, AssignOp.binaryOp?, bind, Except.bind, pure, Except.pure, registerCount,
    Std.HashMap.size_insert]

/-- What holds of accepted programs holds of this one, and its reads are all inside. -/
theorem no_unsetRegister_countdown : ∃ code, countdown.compile = .ok code ∧
    (∀ name, ReadsInside name countdown.walk) ∧
    ∀ (limit : Nat) (r : Register) (i : Nat),
      (interpret Writer.keeping limit code []).1.outcome ≠
        .error (.fault (.unsetRegister r) i) := by
  obtain ⟨code, hcompile⟩ := compile_countdown
  refine ⟨code, hcompile, readsInside_countdown, fun limit r i => ?_⟩
  exact (Program.unsetRegister_only_outside hcompile).1 readsInside_countdown Writer.keeping limit
    [] r i

end Countdown

end Kestrel
