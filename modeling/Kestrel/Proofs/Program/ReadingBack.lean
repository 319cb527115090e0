import Kestrel.Proofs.Program.Heights
import Kestrel.Proofs.Program.Summaries
import Kestrel.Proofs.Program.ViablePrefixes

/-!
# Summaries of expressions read back

The summary of an expression, read as a program, is one statement with this expression again. All
its operators stand in parentheses, so no order of operators matters; but parentheses open levels,
and a summary may need more of them than are allowed, even if the expression itself did not.

## Main statements

- `Expr.derives_printed` — two levels for each step of the height are enough
- `Stmt.DerivesAll.unique` — lexemes write one program at most, whatever the limit on levels is
- `Program.tooDeep_of_derivable` — what could be read fails for want of levels only
- `Program.reads_summary` — the summary of an expression is read as this expression
-/

namespace Kestrel

open Kestrel.Parser

/-! ### Fully parenthesized expressions -/

section Climb

variable {n : Nat} {us : List Lexeme} {e : Expr}

/-- What stands for an operand stands at every level. -/
theorem Expr.Derives.level_of_primary (h : Expr.Derives n .primary us e) (l : OperatorLevel) :
    Expr.Derives n l.below us e ∧ Expr.Derives n (.level l) us e := by
  have hunary : Expr.Derives n .unary us e := .plain (.base h)
  have hlevel := OperatorLevel.all_of_below (P := fun r => Expr.Derives n r us e) hunary
    fun _ => .tighter
  refine ⟨?_, hlevel l⟩
  cases l with
  | product => exact hunary
  | sum | comparison | equality | conjunction | disjunction => exact hlevel _

theorem Expr.Derives.whole_of_level {l : OperatorLevel} (h : Expr.Derives n (.level l) us e) :
    Expr.Derives (n + 1) .whole us e := by
  refine .whole ?_
  cases l with
  | product => exact .tighter (.tighter (.tighter (.tighter (.tighter h))))
  | sum => exact .tighter (.tighter (.tighter (.tighter h)))
  | comparison => exact .tighter (.tighter (.tighter h))
  | equality => exact .tighter (.tighter h)
  | conjunction => exact .tighter h
  | disjunction => exact h

end Climb

/-- Two levels for each step of the height are enough for a summary. -/
theorem Expr.derives_printed {n : Nat} {e : Expr} (h : 2 * e.height ≤ n) :
    Expr.Derives n .primary e.printed e.bare := by
  induction e generalizing n with
  | number value => exact .number value
  | boolean value =>
    cases value with
    | false => exact .falseWord
    | true => exact .trueWord
  | name text => exact .name text
  | unary op operand span ih =>
    rw [Expr.height] at h
    obtain ⟨k, rfl⟩ : ∃ k, n = k + 2 := ⟨n - 2, by omega⟩
    have hoperand : Expr.Derives (k + 1) .operand operand.printed operand.bare :=
      .operand (.plain (.base (ih (by omega))))
    exact .parens (.whole_of_level (l := .product) (.tighter (.sign op hoperand)))
  | binary left op right span ihl ihr =>
    rw [Expr.height] at h
    obtain ⟨k, rfl⟩ : ∃ k, n = k + 2 := ⟨n - 2, by omega⟩
    have hleft : Expr.Derives (k + 1) .primary left.printed left.bare := ihl (by omega)
    have hright : Expr.Derives k .primary right.printed right.bare := ihr (by omega)
    refine .parens ?_
    cases hlevel : op.level? with
    | some l =>
      exact .whole_of_level (.binary hlevel (hleft.level_of_primary l).2
        ((hright.mono (Nat.le_succ k)).level_of_primary l).1)
    | none =>
      obtain rfl : op = .pow := by cases op <;> first | rfl | cases hlevel
      exact .whole_of_level (l := .product)
        (.tighter (.plain (.power hleft (.operand (.plain (.base hright))))))

/-! ### Reading what could be read -/

/-- Lexemes write one program at most, whatever the limit on levels is. -/
theorem Stmt.DerivesAll.unique {n m : Nat} {us : List Lexeme} {program program' : List Stmt}
    (h : Stmt.DerivesAll n us program) (h' : Stmt.DerivesAll m us program') :
    program = program' := by
  have hlexemes : lexemes (us.map (⟨·, .blank⟩)) = us := by simp [lexemes, Function.comp_def]
  obtain ⟨read, rfl, hread⟩ := (h.mono (Nat.le_max_left n m)).exists_written hlexemes
  obtain ⟨read', rfl, hread'⟩ := (h'.mono (Nat.le_max_right n m)).exists_written hlexemes
  have heq := (hread.read_program []).symm.trans (hread'.read_program [])
  exact congrArg Stmt.allBare (Except.ok.inj heq)

/-- What some program is written by is read, unless a level more would have to be open than are
allowed. -/
theorem Program.tooDeep_of_derivable {ts : List Token} {e : SyntaxError}
    (h : Program.ofTokens ts = .error e) (hderivable : Derivable (lexemes ts)) :
    e.message = "program is nested too deeply" := by
  simp only [Program.ofTokens] at h
  split at h
  · cases h
  · next failure hrun =>
    cases h
    obtain ⟨reason, rest⟩ := failure
    cases reason with
    | tooDeep => cases rest <;> rfl
    | expected what =>
      obtain ⟨before, rfl, -, hnot⟩ := statementsFrom_error_viable hrun
      exact absurd hderivable (hnot rest rfl)

/-! ### Summaries -/

/-- The summary of an expression, read as a program, is one statement with this expression. -/
def Expr.ReadsBack (e : Expr) : Prop :=
  ∃ read span, Program.ofTokens (tokenize e.summary) = .ok [.expression read span] ∧
    read.bare = e.bare

theorem Expr.lexemes_summary {e : Expr} (h : (Node.expr e).IsPrintable)
    (hfinite : (Node.expr e).IsFinite) : lexemes (tokenize e.summary) = e.printed := by
  have hprints := (Expr.prints h).lexemesOf_eq
  rw [Expr.shown_eq_self h hfinite] at hprints
  rw [← hprints, ← @String.ofList_toList e.summary, tokenize_ofList, String.toList_ofList]
  rfl

theorem Expr.derivesAll_printed {n : Nat} {e : Expr} (h : 2 * e.height + 1 ≤ n) :
    Stmt.DerivesAll n e.printed [.expression e.bare .blank] := by
  obtain ⟨k, rfl⟩ : ∃ k, n = k + 1 := ⟨n - 1, by omega⟩
  exact .last (.expression (Expr.derives_printed (by omega)).whole_of_primary)

/-- What is read from the summary is the expression again. -/
theorem Expr.readsBack_of_ofTokens {e : Expr} (h : lexemes (tokenize e.summary) = e.printed)
    {program : Program} (hread : Program.ofTokens (tokenize e.summary) = .ok program) :
    e.ReadsBack := by
  have hbare : program.bare = [.expression e.bare .blank] := by
    have hderives := Program.derives_of_ofTokens hread
    rw [h] at hderives
    exact Stmt.DerivesAll.unique hderives (Expr.derivesAll_printed (Nat.le_refl _))
  rw [Program.bare, Stmt.allBare_eq_map, List.map_eq_singleton_iff] at hbare
  obtain ⟨s, rfl, hs⟩ := hbare
  cases s with
  | expression read span => exact ⟨read, span, hread, (Stmt.expression.inj hs).1⟩
  | _ => simp [Stmt.bare] at hs

/-- The summary of an expression of some program, in which all numbers are finite, is read as one
statement with this expression, unless a level more would have to be open for it than are allowed.
Up to the height 31 there are enough levels. -/
theorem Program.reads_summary {source : String} {program : Program}
    (h : Program.ofTokens (tokenize source) = .ok program) {e : Expr}
    (he : program.Contains (.expr e)) (hfinite : (Node.expr e).IsFinite) :
    (e.ReadsBack ∨ ∃ error, Program.ofTokens (tokenize e.summary) = .error error ∧
      error.message = "program is nested too deeply") ∧
    (e.height ≤ 31 → e.ReadsBack) := by
  have hlexemes := Expr.lexemes_summary (Program.isPrintable_of_ofTokens h he) hfinite
  constructor
  · cases hread : Program.ofTokens (tokenize e.summary) with
    | ok program' => exact .inl (Expr.readsBack_of_ofTokens hlexemes hread)
    | error error =>
      refine .inr ⟨error, rfl, Program.tooDeep_of_derivable hread ?_⟩
      rw [hlexemes]
      exact ⟨_, _, Expr.derivesAll_printed (Nat.le_refl _)⟩
  · intro hheight
    have hderives : Program.Derives (lexemes (tokenize e.summary)) [.expression e.bare .blank] := by
      rw [hlexemes]
      exact Expr.derivesAll_printed (by simp only [maxDepth]; omega)
    obtain ⟨read, hread, -⟩ := Program.ofTokens_of_derives hderives
    exact Expr.readsBack_of_ofTokens hlexemes hread

/-- A power binds tighter than a minus, and its summary says so. -/
theorem reads_summary_power : ∃ program e,
    Program.ofTokens (tokenize "print(-x ^ 2)") = .ok program ∧ program.Contains (.expr e) ∧
      (Node.expr e).IsFinite ∧ e.summary = "(-(x ^ 2))" ∧ e.height = 2 ∧ e.ReadsBack := by
  have htokens : tokenize "print(-x ^ 2)" = [⟨.keyword .printKw, ⟨0, 5⟩⟩,
      ⟨.symbol .leftParen, ⟨5, 6⟩⟩, ⟨.symbol .minus, ⟨6, 7⟩⟩, ⟨.name "x", ⟨7, 8⟩⟩,
      ⟨.symbol .caret, ⟨9, 10⟩⟩, ⟨.number 2, ⟨11, 12⟩⟩, ⟨.symbol .rightParen, ⟨12, 13⟩⟩] := by
    decide +kernel
  let e : Expr :=
    .unary .neg (.binary (.name "x" ⟨7, 8⟩) .pow (.number 2 ⟨11, 12⟩) ⟨7, 12⟩) ⟨6, 12⟩
  have hparse : Program.ofTokens (tokenize "print(-x ^ 2)") = .ok [.print e ⟨0, 13⟩] := by
    rw [htokens]
    with_unfolding_all rfl
  have hcontains : Program.Contains [.print e ⟨0, 13⟩] (.expr e) :=
    ⟨_, List.mem_singleton_self _, .under List.mem_cons_self (.self _)⟩
  have hfinite : (Node.expr e).IsFinite := by
    have hx : (Node.expr (.name "x" ⟨7, 8⟩)).IsFinite := .of_children nofun nofun
    have htwo : (Node.expr (.number 2 ⟨11, 12⟩)).IsFinite :=
      .of_children (by rintro _ _ ⟨⟩; decide +kernel) nofun
    show (Node.expr (.unary .neg (.binary _ _ _ _) _)).IsFinite
    refine .of_children nofun (List.forall_mem_singleton.2 (.of_children nofun ?_))
    exact List.forall_mem_cons.2 ⟨hx, List.forall_mem_singleton.2 htwo⟩
  have hreads := Program.reads_summary hparse hcontains hfinite
  exact ⟨_, e, hparse, hcontains, hfinite, by decide +kernel, rfl, hreads.2 (by decide)⟩

end Kestrel
