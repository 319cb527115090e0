import Kestrel.Proofs.Program.Lookahead

/-!
# Mistakes are found where they are made

When tokens are not accepted, and not for want of a free level, what comes before the place of the
error can still become a program, and with the token at this place it cannot any more.

## Main definitions

- `Derivable` — the lexemes write a program, however many levels it opens
- `Viable` — some program begins with the lexemes
- `Parser.FailsViably` — what a parser has read when it fails can be completed

## Main statements

- `Expr.Derives.mono`, `Stmt.DerivesAll.mono` — with more levels free, as much is derived
- `Rank.failsViably`, `Stmt.failsViably` — all parsers fail where a completion still exists
- `Program.error_at_first_wrong_token` — errors are placed at the first token that cannot be right
-/

namespace Kestrel

open Kestrel.Parser

variable {α β : Type}

/-! ### More free levels -/

theorem Expr.Derives.mono {n m : Nat} {r : Rank} {us : List Lexeme} {e : Expr}
    (h : Expr.Derives n r us e) (hle : n ≤ m) : Expr.Derives m r us e := by
  induction h generalizing m with
  | number value => exact .number value
  | trueWord => exact .trueWord
  | falseWord => exact .falseWord
  | name text => exact .name text
  | parens h ih => exact .parens (ih hle)
  | base h ih => exact .base (ih hle)
  | power hbase hexponent ihl ihr => exact .power (ihl hle) (ihr hle)
  | plain h ih => exact .plain (ih hle)
  | sign op h ih => exact .sign op (ih hle)
  | operand h ih =>
    obtain ⟨m, rfl⟩ := Nat.exists_eq_succ_of_ne_zero (Nat.ne_zero_of_lt hle)
    exact .operand (ih (Nat.le_of_succ_le_succ hle))
  | tighter h ih => exact .tighter (ih hle)
  | binary hop hleft hright ihl ihr => exact .binary hop (ihl hle) (ihr hle)
  | whole h ih =>
    obtain ⟨m, rfl⟩ := Nat.exists_eq_succ_of_ne_zero (Nat.ne_zero_of_lt hle)
    exact .whole (ih (Nat.le_of_succ_le_succ hle))

mutual

theorem Stmt.Derives.mono {n m : Nat} {us : List Lexeme} {s : Stmt} (h : Stmt.Derives n us s)
    (hle : n ≤ m) : Stmt.Derives m us s := by
  match h with
  | .expression he => exact .expression (he.mono hle)
  | .assign name op he => exact .assign name op (he.mono hle)
  | .print he => exact .print (he.mono hle)
  | .conditional hif => exact .conditional (hif.mono hle)
  | .whileDo hc hbody => exact .whileDo (hc.mono hle) (hbody.mono hle)
  | .breakLoop => exact .breakLoop
  | .continueLoop => exact .continueLoop
termination_by structural h

theorem Stmt.DerivesIf.mono {n m : Nat} {us : List Lexeme} {s : Stmt} (h : Stmt.DerivesIf n us s)
    (hle : n ≤ m) : Stmt.DerivesIf m us s := by
  match h with
  | .ifThen hc hbody => exact .ifThen (hc.mono hle) (hbody.mono hle)
  | .ifElse newlines hc hbody helse =>
    exact .ifElse newlines (hc.mono hle) (hbody.mono hle) (helse.mono hle)
termination_by structural h

theorem Stmt.DerivesElse.mono {n m : Nat} {us : List Lexeme} {ss : List Stmt}
    (h : Stmt.DerivesElse n us ss) (hle : n ≤ m) : Stmt.DerivesElse m us ss := by
  match h with
  | .elseIf hif =>
    obtain ⟨m, rfl⟩ := Nat.exists_eq_succ_of_ne_zero (Nat.ne_zero_of_lt hle)
    exact .elseIf (hif.mono (Nat.le_of_succ_le_succ hle))
  | .block hblock => exact .block (hblock.mono hle)
termination_by structural h

theorem Stmt.DerivesBlock.mono {n m : Nat} {us : List Lexeme} {ss : List Stmt}
    (h : Stmt.DerivesBlock n us ss) (hle : n ≤ m) : Stmt.DerivesBlock m us ss := by
  match h with
  | .braces hall =>
    obtain ⟨m, rfl⟩ := Nat.exists_eq_succ_of_ne_zero (Nat.ne_zero_of_lt hle)
    exact .braces (hall.mono (Nat.le_of_succ_le_succ hle))
termination_by structural h

/-- With more levels free, as much is derived. -/
theorem Stmt.DerivesAll.mono {n m : Nat} {us : List Lexeme} {ss : List Stmt}
    (h : Stmt.DerivesAll n us ss) (hle : n ≤ m) : Stmt.DerivesAll m us ss := by
  match h with
  | .nil => exact .nil
  | .skip hsep hall => exact .skip hsep (hall.mono hle)
  | .last hs => exact .last (hs.mono hle)
  | .cons hs hsep hall => exact .cons (hs.mono hle) hsep (hall.mono hle)
termination_by structural h

end

/-- Separators in front of statements do not matter. -/
theorem Stmt.DerivesAll.of_separators {n : Nat} {us : List Lexeme} {ss : List Stmt}
    (h : Stmt.DerivesAll n us ss) {seps : List Token}
    (hseps : ∀ t ∈ seps, t.lexeme.isSeparator = true) :
    Stmt.DerivesAll n (lexemes seps ++ us) ss := by
  induction seps with
  | nil => exact h
  | cons t seps ih =>
    obtain ⟨ht, hseps'⟩ := List.forall_mem_cons.1 hseps
    exact .skip ht (ih hseps')

/-- The lexemes write a program, however many levels it opens. -/
def Derivable (us : List Lexeme) : Prop := ∃ n program, Stmt.DerivesAll n us program

/-- Some program begins with the lexemes. -/
def Viable (us : List Lexeme) : Prop := ∃ more, Derivable (us ++ more)

/-! ### Runs that fail -/

theorem Parser.of_run_bind_error {p : Parser α} {f : α → Parser β} {ts : List Token}
    {failure : Failure} (h : (p >>= f).run ts = .error failure) :
    p.run ts = .error failure ∨
      ∃ a between, p.run ts = .ok (a, between) ∧ (f a).run between = .error failure := by
  rw [run_bind] at h
  split at h
  · next hp =>
    cases h
    exact .inl hp
  · next a between hp => exact .inr ⟨a, between, hp, h⟩

theorem Parser.of_run_choose_error {f : Token → Option (Parser α)} {otherwise : Parser α}
    {ts : List Token} {failure : Failure} (h : (choose f otherwise).run ts = .error failure) :
    (∃ t ts' p, ts = t :: ts' ∧ f t = some p ∧ p.run ts' = .error failure) ∨
      otherwise.run ts = .error failure := by
  cases ts with
  | nil => exact .inr h
  | cons t ts =>
    rw [run_choose_cons] at h
    split at h
    · next p hp => exact .inl ⟨t, ts, p, rfl, hp, h⟩
    · exact .inr h

theorem Parser.of_run_expect_error {sign : Symbol} {what : Expectation} {ts : List Token}
    {failure : Failure} (h : (expect sign what).run ts = .error failure) :
    failure.rest = ts := by
  rcases of_run_choose_error h with ⟨t, ts', p, rfl, hp, hrun⟩ | hfail
  · split at hp
    · cases hp
      cases hrun
    · cases hp
  · cases hfail
    rfl

theorem of_run_elseBranch_error {branch : Parser α} {ts : List Token} {failure : Failure}
    (h : (elseBranch branch).run ts = .error failure) :
    ∃ after, takeElse? ts = some after ∧ branch.run after = .error failure := by
  cases htake : takeElse? ts with
  | none =>
    rw [run_elseBranch_of_none htake] at h
    cases h
  | some after =>
    simp only [elseBranch, htake] at h
    split at h
    · next failure' hbranch =>
      cases h
      exact ⟨after, rfl, hbranch⟩
    · cases h

/-! ### Expressions can be completed -/

/-- Where the parser misses something, what it has read can be completed to something of the
language `L`. -/
def Parser.FailsViably (p : Parser α) (L : List Lexeme → Prop) : Prop :=
  ∀ ts what rest, p.run ts = .error ⟨.expected what, rest⟩ →
    ∃ front more, ts = front ++ rest ∧ L (lexemes front ++ more)

/-- What the parser of a rank has read when it fails can be completed, with the levels that were
free. -/
def Rank.FailsViably (n : Nat) (r : Rank) : Prop :=
  (r.parser n).FailsViably fun us => ∃ e, Expr.Derives n r us e

theorem chainFrom_failsViably {n : Nat} {l : OperatorLevel} (hnext : l.below.FailsViably n)
    {left : Expr} {ts rest : List Token} {what : Expectation} {us : List Lexeme}
    (hleft : Expr.Derives n (.level l) us left.bare)
    (h : chainFrom l.op? (l.below.parser n) left ts = .error ⟨.expected what, rest⟩) :
    ∃ front more e, ts = front ++ rest ∧
      Expr.Derives n (.level l) (us ++ (lexemes front ++ more)) e := by
  fun_induction chainFrom l.op? (l.below.parser n) left ts generalizing us with
  | case1 => cases h
  | case2 => cases h
  | case3 left t ts' op hop failure hrun =>
    cases h
    obtain ⟨hlexeme, hlevel⟩ := OperatorLevel.op?_eq_some.1 hop
    obtain ⟨front, more, rfl, e, he⟩ := hnext _ _ _ hrun
    refine ⟨t :: front, more, .binary left.bare op e .blank, rfl, ?_⟩
    simpa [hlexeme] using Expr.Derives.binary hlevel hleft he
  | case4 left t ts' op hop right ts'' hright hle ih =>
    obtain ⟨hlexeme, hlevel⟩ := OperatorLevel.op?_eq_some.1 hop
    obtain ⟨front₁, rfl, hderives⟩ := Rank.derives_of_run hright
    -- the joined operands are the left operand of the rest of the chain
    obtain ⟨front₂, more, e, rfl, hwhole⟩ := ih (.binary hlevel hleft hderives) h
    refine ⟨t :: (front₁ ++ front₂), more, e, by simp, ?_⟩
    simpa [hlexeme] using hwhole

theorem OperatorLevel.failsViably {n : Nat} {l : OperatorLevel} (hnext : l.below.FailsViably n) :
    (Rank.level l).FailsViably n := by
  intro ts what rest h
  rw [OperatorLevel.parser_eq] at h
  rcases of_run_bind_error h with hfirst | ⟨first, between, hfirst, hchain⟩
  · obtain ⟨front, more, rfl, e, he⟩ := hnext _ _ _ hfirst
    exact ⟨front, more, rfl, e, .tighter he⟩
  · obtain ⟨front₁, rfl, hderives⟩ := Rank.derives_of_run hfirst
    obtain ⟨front₂, more, e, rfl, he⟩ := chainFrom_failsViably hnext (.tighter hderives) hchain
    exact ⟨front₁ ++ front₂, more, by simp, e, by simpa using he⟩

theorem primary_failsViably {n : Nat} (hwhole : Rank.whole.FailsViably n) :
    Rank.primary.FailsViably n := by
  intro ts what rest h
  rcases of_run_choose_error h with ⟨t, ts', p, rfl, hp, hrun⟩ | hfail
  · split at hp
    · cases hp; cases hrun
    · cases hp; cases hrun
    · cases hp; cases hrun
    · cases hp; cases hrun
    · next ht =>
      cases hp
      rcases of_run_bind_error hrun with hinside | ⟨e, between, hinside, hclose⟩
      · obtain ⟨front, more, rfl, e, he⟩ := hwhole _ _ _ hinside
        refine ⟨t :: front, more ++ [.symbol .rightParen], rfl, e, ?_⟩
        simpa [ht] using Expr.Derives.parens he
      · rcases of_run_bind_error hclose with hmissing | ⟨span, after, hclose, hdone⟩
        · obtain rfl : rest = between := of_run_expect_error hmissing
          obtain ⟨front, rfl, he⟩ := written_of_run_expression hinside
          refine ⟨t :: front, [.symbol .rightParen], rfl, e.bare, ?_⟩
          simpa [ht] using Expr.Derives.parens he.derives
        · cases hdone
    · cases hp
  · cases hfail
    exact ⟨[], [.keyword .trueKw], rfl, _, .trueWord⟩

theorem power_failsViably {n : Nat} (hprimary : Rank.primary.FailsViably n)
    (hoperand : Rank.operand.FailsViably n) : Rank.power.FailsViably n := by
  intro ts what rest h
  rcases of_run_bind_error h with hbase | ⟨b, between, hbase, hchoose⟩
  · obtain ⟨front, more, rfl, e, he⟩ := hprimary _ _ _ hbase
    exact ⟨front, more, rfl, e, .base he⟩
  · obtain ⟨front₁, rfl, hb⟩ := Rank.derives_of_run (r := .primary) hbase
    rcases of_run_choose_error hchoose with ⟨t, between', p, rfl, hp, hrun⟩ | hdone
    · split at hp
      · next ht =>
        cases hp
        rcases of_run_bind_error hrun with hexponent | ⟨x, after, -, hdone⟩
        · obtain ⟨front₂, more, rfl, x, hx⟩ := hoperand _ _ _ hexponent
          refine ⟨front₁ ++ t :: front₂, more, by simp, .binary b.bare .pow x .blank, ?_⟩
          simpa [ht, BinaryOp.lexeme] using Expr.Derives.power hb hx
        · cases hdone
      · cases hp
    · cases hdone

theorem unary_failsViably {n : Nat} (hpower : Rank.power.FailsViably n)
    (hoperand : Rank.operand.FailsViably n) : Rank.unary.FailsViably n := by
  intro ts what rest h
  rcases of_run_choose_error h with ⟨t, ts', p, rfl, hp, hrun⟩ | hplain
  · obtain ⟨op, hop, rfl⟩ := Option.map_eq_some_iff.1 hp
    rcases of_run_bind_error hrun with hx | ⟨x, after, -, hdone⟩
    · obtain ⟨front, more, rfl, e, he⟩ := hoperand _ _ _ hx
      refine ⟨t :: front, more, rfl, .unary op e .blank, ?_⟩
      simpa [UnaryOp.ofLexeme?_eq_some.1 hop] using Expr.Derives.sign op he
    · cases hdone
  · obtain ⟨front, more, rfl, e, he⟩ := hpower _ _ _ hplain
    exact ⟨front, more, rfl, e, .plain he⟩

/-- All ranks fail viably if the two that open a level do. -/
theorem Rank.failsViably_of_opening {n : Nat} (hoperand : Rank.operand.FailsViably n)
    (hwhole : Rank.whole.FailsViably n) (r : Rank) : r.FailsViably n := by
  have hprimary := primary_failsViably hwhole
  have hpower := power_failsViably hprimary hoperand
  have hunary := unary_failsViably hpower hoperand
  have hlevel : ∀ l : OperatorLevel, (Rank.level l).FailsViably n :=
    OperatorLevel.all_of_below hunary fun _ => OperatorLevel.failsViably
  cases r with
  | level l => exact hlevel l
  | _ => assumption

/-- What the parser of an expression has read when it fails can be completed. -/
theorem Rank.failsViably (n : Nat) (r : Rank) : r.FailsViably n := by
  induction n generalizing r with
  | zero =>
    -- the ranks that open a level fail for want of one
    refine Rank.failsViably_of_opening ?_ ?_ r
    · intro ts what rest h
      cases h
    · intro ts what rest h
      cases h
  | succ n ih =>
    refine Rank.failsViably_of_opening ?_ ?_ r
    · intro ts what rest h
      obtain ⟨front, more, rfl, e, he⟩ := ih .unary ts what rest h
      exact ⟨front, more, rfl, e, .operand he⟩
    · intro ts what rest h
      obtain ⟨front, more, rfl, e, he⟩ := ih (.level .disjunction) ts what rest h
      exact ⟨front, more, rfl, e, .whole he⟩

theorem run_expression_failsViably (n : Nat) :
    (deeper n).expression.FailsViably fun us => ∃ e, Expr.Derives (n + 1) .whole us e := by
  intro ts what rest h
  obtain ⟨front, more, rfl, e, he⟩ := Rank.failsViably n .whole ts what rest h
  exact ⟨front, more, rfl, e, he.mono (Nat.le_succ n)⟩

/-! ### Statements can be completed

A parser that has `n` levels free can read the word `while` or `print` even if there is none. What
it has read is completed with one level more. -/

section Statements

variable {n : Nat}

theorem derives_true (n : Nat) :
    Expr.Derives (n + 1) .whole [.keyword .trueKw] (.boolean true .blank) :=
  .whole_of_primary .trueWord

theorem derives_braces (n : Nat) :
    Stmt.DerivesBlock (n + 1) [.symbol .leftBrace, .symbol .rightBrace] [] :=
  .braces .nil

/-- What the parser of blocks has read when it fails can be completed. -/
def Stmt.BlockFailsViably (n : Nat) : Prop :=
  (block (deeper n)).FailsViably fun us => ∃ ss, Stmt.DerivesBlock (n + 1) us ss

/-- What was read after an `if` when something is missing there can be completed. -/
def Stmt.IfFailsViably (n : Nat) : Prop :=
  ∀ start, (conditionalAfter (deeper n) start).FailsViably fun us =>
    ∃ s, Stmt.DerivesIf (n + 1) us s

/-- What was read after an `else` when something is missing there can be completed. -/
def Stmt.ElseFailsViably (n : Nat) : Prop :=
  (alternative (deeper n)).FailsViably fun us => ∃ ss, Stmt.DerivesElse (n + 1) us ss

/-- What the parser of statements has read when it fails can be completed. -/
def Stmt.FailsViably (n : Nat) : Prop :=
  (statement (deeper n)).FailsViably fun us => ∃ s, Stmt.Derives (n + 1) us s

/-- Where a condition and a block belong together, something is missing in one of them, and they can
be completed, or it is missing behind both. -/
theorem of_run_guarded_error (hblock : Stmt.BlockFailsViably n)
    {f : Expr → List Stmt × Span → Parser α} {ts rest : List Token} {what : Expectation}
    (h : ((deeper n).expression >>= fun c => block (deeper n) >>= f c).run ts =
      .error ⟨.expected what, rest⟩) :
    (∃ front more us vs c body, ts = front ++ rest ∧ lexemes front ++ more = us ++ vs ∧
      Expr.Derives (n + 1) .whole us c ∧ Stmt.DerivesBlock (n + 1) vs body) ∨
    ∃ front₁ front₂ between c r, ts = front₁ ++ (front₂ ++ between) ∧
      Expr.Derives n .whole (lexemes front₁) c.bare ∧
      Stmt.DerivesBlock n (lexemes front₂) (Stmt.allBare r.1) ∧
      (f c r).run between = .error ⟨.expected what, rest⟩ := by
  rcases of_run_bind_error h with hc | ⟨c, between, hc, h₁⟩
  · obtain ⟨front, more, rfl, c, hcondition⟩ := run_expression_failsViably n _ _ _ hc
    refine .inl ⟨front, more ++ [.symbol .leftBrace, .symbol .rightBrace], _, _, c, [], rfl, ?_,
      hcondition, derives_braces n⟩
    rw [List.append_assoc]
  · obtain ⟨front₁, rfl, hcondition⟩ := written_of_run_expression hc
    rcases of_run_bind_error h₁ with hbody | ⟨r, after, hbody, h₂⟩
    · obtain ⟨front₂, more, rfl, body, hderives⟩ := hblock _ _ _ hbody
      refine .inl ⟨front₁ ++ front₂, more, lexemes front₁, lexemes front₂ ++ more, c.bare, body,
        by simp, by simp, hcondition.derives.mono (Nat.le_succ n), hderives⟩
    · obtain ⟨front₂, rfl, hwritten⟩ := Stmt.blockSound n _ _ _ hbody
      exact .inr ⟨front₁, front₂, after, c, r, rfl, hcondition.derives, hwritten.derives, h₂⟩

theorem Stmt.ifFailsViably (hblock : Stmt.BlockFailsViably n) (helse : Stmt.ElseFailsViably n) :
    Stmt.IfFailsViably n := by
  intro start ts what rest h
  rcases of_run_guarded_error hblock h with
    ⟨front, more, us, vs, c, body, rfl, heq, hc, hbody⟩ |
    ⟨front₁, front₂, between, c, ⟨body, last⟩, rfl, hc, hbody, h₁⟩
  · refine ⟨front, more, rfl, .ifThen c body .blank, ?_⟩
    rw [heq]
    exact .ifThen hc hbody
  · rcases of_run_bind_error h₁ with hbranch | ⟨found, after, -, hdone⟩
    · obtain ⟨after, htake, halternative⟩ := of_run_elseBranch_error hbranch
      obtain ⟨newlines, t, rfl, ht, hnewlines⟩ := of_takeElse? htake
      obtain ⟨front₃, more, rfl, otherwise, helse'⟩ := helse _ _ _ halternative
      refine ⟨front₁ ++ (front₂ ++ (newlines ++ t :: front₃)), more, by simp,
        .ifElse c.bare (Stmt.allBare body) otherwise .blank, ?_⟩
      have hif := Stmt.DerivesIf.ifElse newlines.length (hc.mono (Nat.le_succ n))
        (hbody.mono (Nat.le_succ n)) helse'
      rw [← map_lexeme_newlines hnewlines, ← ht] at hif
      simpa using hif
    · cases found <;> cases hdone

theorem assignmentOrExpression_failsViably (n : Nat) :
    (assignmentOrExpression (deeper n)).FailsViably fun us => ∃ s, Stmt.Derives (n + 1) us s := by
  intro ts what rest h
  cases hahead : assignmentAhead? ts with
  | some found =>
    obtain ⟨name, span, op⟩ := found
    obtain ⟨t, ts', rfl, ht⟩ := of_assignmentAhead? hahead
    rw [run_assignmentOrExpression_of_some hahead] at h
    rcases of_run_bind_error h with hvalue | ⟨e, between, -, hdone⟩
    · obtain ⟨front, more, hts, e, he⟩ := run_expression_failsViably n _ _ _ hvalue
      obtain rfl : ts' = front ++ rest := hts
      refine ⟨⟨.name name, span⟩ :: t :: front, more, rfl, .assign name op e .blank, ?_⟩
      simpa [ht] using Stmt.Derives.assign name op he
    · cases hdone
  | none =>
    rw [run_assignmentOrExpression_of_none hahead] at h
    rcases of_run_bind_error h with hvalue | ⟨e, between, -, hdone⟩
    · obtain ⟨front, more, rfl, e, he⟩ := run_expression_failsViably n _ _ _ hvalue
      exact ⟨front, more, rfl, _, .expression he⟩
    · cases hdone

theorem printAfter_failsViably (n : Nat) (start : Span) :
    (printAfter (deeper n) start).FailsViably fun us =>
      ∃ s, Stmt.Derives (n + 1) (.keyword .printKw :: us) s := by
  intro ts what rest h
  rcases of_run_bind_error h with hmissing | ⟨span, between, hopen, h₁⟩
  · obtain rfl : rest = ts := of_run_expect_error hmissing
    exact ⟨[], [.symbol .leftParen, .keyword .trueKw, .symbol .rightParen], rfl, _,
      .print (derives_true n)⟩
  · obtain ⟨t, rfl, ht⟩ := run_expect_eq_ok hopen
    rcases of_run_bind_error h₁ with hvalue | ⟨e, after, he, h₂⟩
    · obtain ⟨front, more, rfl, e, he⟩ := run_expression_failsViably n _ _ _ hvalue
      refine ⟨t :: front, more ++ [.symbol .rightParen], rfl, .print e .blank, ?_⟩
      simpa [ht] using Stmt.Derives.print he
    · obtain ⟨front, rfl, hwritten⟩ := written_of_run_expression he
      rcases of_run_bind_error h₂ with hmissing | ⟨span', after', -, hdone⟩
      · obtain rfl : rest = after := of_run_expect_error hmissing
        refine ⟨t :: front, [.symbol .rightParen], rfl, .print e.bare .blank, ?_⟩
        simpa [ht] using Stmt.Derives.print (hwritten.derives.mono (Nat.le_succ n))
      · cases hdone

theorem Stmt.failsViably_of_blocks (hblock : Stmt.BlockFailsViably n) (hif : Stmt.IfFailsViably n) :
    Stmt.FailsViably n := by
  intro ts what rest h
  rcases of_run_choose_error h with ⟨t, ts', p, rfl, hp, hrun⟩ | hother
  · split at hp
    · next ht =>
      cases hp
      obtain ⟨front, more, rfl, s, hs⟩ := printAfter_failsViably n _ _ _ _ hrun
      exact ⟨t :: front, more, rfl, s, by simpa [ht] using hs⟩
    · next ht =>
      cases hp
      rcases of_run_bind_error hrun with hcond | ⟨r, between, -, hdone⟩
      · obtain ⟨front, more, rfl, s, hs⟩ := hif _ _ _ _ hcond
        exact ⟨t :: front, more, rfl, s, by simpa [ht] using .conditional hs⟩
      · cases hdone
    · next ht =>
      cases hp
      rcases of_run_guarded_error hblock hrun with
        ⟨front, more, us, vs, c, body, rfl, heq, hc, hbody⟩ | ⟨_, _, between, c, r, -, -, -, hdone⟩
      · refine ⟨t :: front, more, rfl, .whileDo c body .blank, ?_⟩
        simpa [ht, heq] using Stmt.Derives.whileDo hc hbody
      · cases hdone
    · cases hp
      cases hrun
    · cases hp
      cases hrun
    · cases hp
  · exact assignmentOrExpression_failsViably n _ _ _ hother

/-- What comes after a statement, a separator and further ones can be completed to statements. -/
theorem derivesAll_cons_of_viable {item : Parser Stmt}
    (hitem : item.SoundFor (Stmt.Written n)) {ts rest : List Token} {s : Stmt}
    {t : Token} (hrun : item.run ts = .ok (s, t :: rest)) (hsep : t.lexeme.isSeparator = true)
    {front rest' : List Token} {more : List Lexeme} {ss : List Stmt}
    (hrest : rest.dropWhile (·.lexeme.isSeparator) = front ++ rest')
    (hall : Stmt.DerivesAll (n + 1) (lexemes front ++ more) ss) :
    ∃ front, ts = front ++ rest' ∧
      Stmt.DerivesAll (n + 1) (lexemes front ++ more) (s.bare :: ss) := by
  obtain ⟨front₁, rfl, hs⟩ := hitem _ _ _ hrun
  obtain ⟨seps, hseps, hallSeps⟩ := exists_separators rest
  refine ⟨front₁ ++ t :: (seps ++ front), by rw [hseps, hrest]; simp, ?_⟩
  simpa using
    Stmt.DerivesAll.cons (hs.derives.mono (Nat.le_succ n)) hsep (hall.of_separators hallSeps)

theorem bodyFrom_failsViably {item : Parser Stmt}
    (hsound : item.SoundFor (Stmt.Written n))
    (hitem : item.FailsViably fun us => ∃ s, Stmt.Derives (n + 1) us s) {before : List Stmt}
    {ts rest : List Token} {what : Expectation}
    (h : bodyFrom item before ts = .error ⟨.expected what, rest⟩) :
    ∃ front more ss, ts = front ++ rest ∧ Stmt.DerivesAll (n + 1) (lexemes front ++ more) ss := by
  fun_induction bodyFrom item before ts with
  | case1 =>
    cases h
    exact ⟨[], [], [], rfl, .nil⟩
  | case2 => cases h
  | case3 before t ts ht failure hrun =>
    cases h
    obtain ⟨front, more, hts, s, hs⟩ := hitem _ _ _ hrun
    exact ⟨front, more, [s], hts, .last hs⟩
  | case4 before t ts ht s hrun =>
    cases h
    obtain ⟨front, hts, hs⟩ := hsound _ _ _ hrun
    exact ⟨front, [], [s.bare], hts, by simpa using .last (hs.derives.mono (Nat.le_succ n))⟩
  | case5 => cases h
  | case6 before t ts ht s t' rest' hrun ht' hsep hle ih =>
    obtain ⟨front, more, ss, hrest, hall⟩ := ih h
    obtain ⟨front', hts, hall'⟩ := derivesAll_cons_of_viable hsound hrun hsep hrest hall
    exact ⟨front', more, _, hts, hall'⟩
  | case7 before t ts ht s t' rest' hrun ht' hsep =>
    cases h
    obtain ⟨front, hts, hs⟩ := hsound _ _ _ hrun
    exact ⟨front, [], [s.bare], hts, by simpa using .last (hs.derives.mono (Nat.le_succ n))⟩

theorem statementsFrom_failsViably {item : Parser Stmt}
    (hsound : item.SoundFor (Stmt.Written n))
    (hitem : item.FailsViably fun us => ∃ s, Stmt.Derives (n + 1) us s) {before : List Stmt}
    {ts rest : List Token} {what : Expectation}
    (h : statementsFrom item before ts = .error ⟨.expected what, rest⟩) :
    ∃ front more ss, ts = front ++ rest ∧ Stmt.DerivesAll (n + 1) (lexemes front ++ more) ss := by
  fun_induction statementsFrom item before ts with
  | case1 => cases h
  | case2 before t ts failure hrun =>
    cases h
    obtain ⟨front, more, hts, s, hs⟩ := hitem _ _ _ hrun
    exact ⟨front, more, [s], hts, .last hs⟩
  | case3 => cases h
  | case4 before t ts s t' rest' hrun hsep hle ih =>
    obtain ⟨front, more, ss, hrest, hall⟩ := ih h
    obtain ⟨front', hts, hall'⟩ := derivesAll_cons_of_viable hsound hrun hsep hrest hall
    exact ⟨front', more, _, hts, hall'⟩
  | case5 before t ts s t' rest' hrun hsep =>
    cases h
    obtain ⟨front, hts, hs⟩ := hsound _ _ _ hrun
    exact ⟨front, [], [s.bare], hts, by simpa using .last (hs.derives.mono (Nat.le_succ n))⟩

theorem Stmt.elseFailsViably (hblock : Stmt.BlockFailsViably n)
    (hconditional : (deeper n).conditional.FailsViably fun us =>
      ∃ ss, Stmt.DerivesElse (n + 1) us ss) : Stmt.ElseFailsViably n := by
  intro ts what rest h
  rw [alternative, run_look] at h
  split at h
  · rcases of_run_bind_error h with hcond | ⟨r, between, -, hdone⟩
    · exact hconditional _ _ _ hcond
    · cases hdone
  · obtain ⟨front, more, rfl, ss, hderives⟩ := hblock _ _ _ h
    exact ⟨front, more, rfl, ss, .block hderives⟩

theorem Stmt.blockFailsViably
    (hbody : (deeper n).body.FailsViably fun us => ∃ ss, Stmt.DerivesAll n us ss) :
    Stmt.BlockFailsViably n := by
  intro ts what rest h
  rcases of_run_bind_error h with hmissing | ⟨span, between, hopen, hrun⟩
  · obtain rfl : rest = ts := of_run_expect_error hmissing
    exact ⟨[], _, rfl, [], derives_braces n⟩
  · obtain ⟨t, rfl, ht⟩ := run_expect_eq_ok hopen
    obtain ⟨front, more, rfl, ss, hall⟩ := hbody _ _ _ hrun
    refine ⟨t :: front, more ++ [.symbol .rightBrace], rfl, ss, ?_⟩
    simpa [ht] using Stmt.DerivesBlock.braces hall

/-- What the parsers of statements have read when they fail can be completed. -/
theorem Stmt.failsViably (n : Nat) : Stmt.FailsViably n ∧ Stmt.IfFailsViably n := by
  induction n with
  | zero =>
    -- blocks and a further `if` fail for want of a level
    have hblock : Stmt.BlockFailsViably 0 := Stmt.blockFailsViably fun ts what rest h => by cases h
    have hif : Stmt.IfFailsViably 0 :=
      Stmt.ifFailsViably hblock (Stmt.elseFailsViably hblock fun ts what rest h => by cases h)
    exact ⟨Stmt.failsViably_of_blocks hblock hif, hif⟩
  | succ n ih =>
    have hblock : Stmt.BlockFailsViably (n + 1) := by
      refine Stmt.blockFailsViably fun ts what rest h => ?_
      obtain ⟨seps, hseps, hallSeps⟩ := exists_separators ts
      obtain ⟨front, more, ss, hrest, hall⟩ := bodyFrom_failsViably (Stmt.sound n).1 ih.1 h
      refine ⟨seps ++ front, more, by rw [List.append_assoc, ← hrest, ← hseps], ss, ?_⟩
      simpa using hall.of_separators hallSeps
    have hif : Stmt.IfFailsViably (n + 1) := by
      refine Stmt.ifFailsViably hblock (Stmt.elseFailsViably hblock fun ts what rest h => ?_)
      rcases of_run_choose_error h with ⟨t, ts', p, rfl, hp, hrun⟩ | hfail
      · split at hp
        · next ht =>
          cases hp
          obtain ⟨front, more, rfl, s, hs⟩ := ih.2 _ _ _ _ hrun
          exact ⟨t :: front, more, rfl, [s], by simpa [ht] using .elseIf hs⟩
        · cases hp
      · cases hfail
        exact ⟨[], _, rfl, [], .block (derives_braces (n + 1))⟩
    exact ⟨Stmt.failsViably_of_blocks hblock hif, hif⟩

end Statements

/-! ### Programs -/

/-- Where something is missing, what comes before is viable, and no program begins with it and the
token that comes next, or is it when none comes. -/
theorem statementsFrom_error_viable {n : Nat} {ts rest : List Token} {what : Expectation}
    (h : statementsFrom (statement (deeper n)) [] (ts.dropWhile (·.lexeme.isSeparator)) =
      .error ⟨.expected what, rest⟩) :
    ∃ before, ts = before ++ rest ∧ Viable (lexemes before) ∧
      ∀ rest', SameNext rest rest' → ¬ Derivable (lexemes (before ++ rest')) := by
  obtain ⟨seps, hseps, hallSeps⟩ := exists_separators ts
  have hnot := not_separator_head_dropWhile ts
  generalize ts.dropWhile (·.lexeme.isSeparator) = start at h hseps hnot
  subst hseps
  obtain ⟨front, more, ss, rfl, hall⟩ :=
    statementsFrom_failsViably (Stmt.sound n).1 (Stmt.failsViably n).1 h
  refine ⟨seps ++ front, (List.append_assoc _ _ _).symm, ⟨more, n + 1, ss, ?_⟩, ?_⟩
  · simpa using hall.of_separators hallSeps
  · rintro rest' hrest' ⟨m, program, hprogram⟩
    -- with enough levels free, the program would be read, but it fails at the same place
    have hle : n ≤ max n m := Nat.le_max_left n m
    have hsettles := statement_settles (deeper_settles hle) (takes_name _)
    obtain ⟨front', hfront', hfails⟩ := statementsFrom_settled hsettles h
    obtain rfl := List.append_cancel_right hfront'
    obtain ⟨read, -, hread⟩ := (hprogram.mono (Nat.le_max_right n m)).read_program [] rfl
    have hstart : SameNext (front ++ rest) (front ++ rest') := hrest'.append front
    rw [List.append_assoc, dropWhile_separators_append hallSeps (by rwa [hstart]),
      hfails rest' hrest'] at hread
    cases hread

/-- Unless a level more would have to be open than are allowed, an error is placed at the first
token that cannot be right: what comes before is the beginning of some program, and of none with
this token. If there is no such token, then it is placed at the end, and more would have to
follow. -/
theorem Program.error_at_first_wrong_token {ts : List Token} {e : SyntaxError}
    (h : Program.ofTokens ts = .error e) (hdeep : e.message ≠ "program is nested too deeply") :
    (∃ before t after, ts = before ++ t :: after ∧ e.span = t.span ∧
      Viable (lexemes before) ∧ ¬ Viable (lexemes (before ++ [t]))) ∨
    (e.span = endSpan ts ∧ Viable (lexemes ts) ∧ ¬ Derivable (lexemes ts)) := by
  simp only [Program.ofTokens] at h
  split at h
  · cases h
  · next failure hrun =>
    cases h
    match failure with
    | ⟨.tooDeep, []⟩ | ⟨.tooDeep, t :: rest⟩ => exact absurd rfl hdeep
    | ⟨.expected what, []⟩ =>
      obtain ⟨before, rfl, hviable, hnot⟩ := statementsFrom_error_viable hrun
      simp only [List.append_nil] at *
      exact .inr ⟨rfl, hviable, by simpa using hnot [] rfl⟩
    | ⟨.expected what, t :: after⟩ =>
      obtain ⟨before, rfl, hviable, hnot⟩ := statementsFrom_error_viable hrun
      refine .inl ⟨before, t, after, rfl, Failure.span_toError_cons _ _ _ _, hviable, ?_⟩
      rintro ⟨more, n, program, hprogram⟩
      refine hnot (t :: more.map fun u => ⟨u, .blank⟩) rfl ⟨n, program, ?_⟩
      simpa [lexemes, Function.comp_def] using hprogram

/-- After `x =` an expression has to follow, and no parenthesis can close there. -/
theorem viable_assignment_of_error :
    let e : SyntaxError := .expected .expression (some (.symbol .rightParen)) ⟨4, 5⟩
    Program.ofTokens [⟨.name "x", ⟨0, 1⟩⟩, ⟨.symbol .assign, ⟨2, 3⟩⟩,
        ⟨.symbol .rightParen, ⟨4, 5⟩⟩, ⟨.newline, ⟨5, 6⟩⟩] = .error e ∧
      e.message ≠ "program is nested too deeply" ∧ Viable [.name "x", .symbol .assign] ∧
      ¬ Viable [.name "x", .symbol .assign, .symbol .rightParen] := by
  intro e
  have herror : Program.ofTokens [⟨.name "x", ⟨0, 1⟩⟩, ⟨.symbol .assign, ⟨2, 3⟩⟩,
      ⟨.symbol .rightParen, ⟨4, 5⟩⟩, ⟨.newline, ⟨5, 6⟩⟩] = .error e := by
    with_unfolding_all rfl
  have hdeep : e.message ≠ "program is nested too deeply" := by decide
  refine ⟨herror, hdeep, ?_⟩
  rcases Program.error_at_first_wrong_token herror hdeep with
    ⟨before, t, after, hts, hspan, hviable, hnot⟩ | ⟨hspan, -, -⟩
  · -- the token is the one with the span of the error
    match before, t, after, hts with
    | [], _, _, rfl => cases hspan
    | [_], _, _, rfl => cases hspan
    | [_, _], _, _, rfl => exact ⟨hviable, hnot⟩
    | [_, _, _], _, _, rfl => cases hspan
    | _ :: _ :: _ :: _ :: before, _, _, hts => simp at hts
  · cases hspan

end Kestrel
