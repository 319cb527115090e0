import Kestrel.Proofs.Program.Written

/-!
# Reading expressions

The parsers of expressions read what some tokens write, with all its spans, and nothing else, and
leave the tokens behind it.

## Main definitions

- `Rank.parser` — the parser of each rank of expressions
- `BinaryOp.tightness`, `Rank.bound` — which operators a rank of expressions may go on with
- `EndsOperand` — the tokens ahead do not go on with an operator

## Main statements

- `Expr.Written.reads` — what tokens write is read, whatever comes behind them
- `Rank.sound` — what is read is written
-/

namespace Kestrel

open Kestrel.Parser

variable {α β : Type}

/-! ### Runs of parsers -/

theorem Parser.run_bind_eq_ok {p : Parser α} {f : α → Parser β} {ts rest : List Token} {b : β} :
    (p >>= f).run ts = .ok (b, rest) ↔
      ∃ a between, p.run ts = .ok (a, between) ∧ (f a).run between = .ok (b, rest) := by
  rw [run_bind]
  constructor
  · intro h
    split at h
    · cases h
    · next a between hp => exact ⟨a, between, hp, h⟩
  · rintro ⟨a, between, hp, hf⟩
    rw [hp]
    exact hf

theorem Parser.run_bind_of_ok {p : Parser α} {f : α → Parser β} {ts between : List Token} {a : α}
    (h : p.run ts = .ok (a, between)) : (p >>= f).run ts = (f a).run between := by
  rw [run_bind, h]

/-- What the parser reads is in the relation `D` to its result. -/
def Parser.SoundFor (p : Parser α) (D : List Token → α → Prop) : Prop :=
  ∀ ts a rest, p.run ts = .ok (a, rest) → ∃ front, ts = front ++ rest ∧ D front a

theorem Parser.of_run_choose {f : Token → Option (Parser α)} {otherwise : Parser α}
    {ts rest : List Token} {a : α} (h : (choose f otherwise).run ts = .ok (a, rest)) :
    (∃ t ts' p, ts = t :: ts' ∧ f t = some p ∧ p.run ts' = .ok (a, rest)) ∨
      otherwise.run ts = .ok (a, rest) := by
  cases ts with
  | nil => exact .inr h
  | cons t ts' =>
    rw [run_choose_cons] at h
    split at h
    · next p hp => exact .inl ⟨t, ts', p, rfl, hp, h⟩
    · exact .inr h

theorem Parser.run_expect_cons {sign : Symbol} {what : Expectation} {t : Token}
    (h : t.lexeme = .symbol sign) (rest : List Token) :
    (expect sign what).run (t :: rest) = .ok (t.span, rest) := by
  simp [expect, run_choose_cons, h]

theorem Parser.run_expect_eq_ok {sign : Symbol} {what : Expectation} {ts rest : List Token}
    {span : Span} (h : (expect sign what).run ts = .ok (span, rest)) :
    ∃ t, ts = t :: rest ∧ t.lexeme = .symbol sign ∧ t.span = span := by
  cases ts with
  | nil => cases h
  | cons t ts' =>
    by_cases ht : t.lexeme = .symbol sign
    · rw [run_expect_cons ht] at h
      cases h
      exact ⟨t, rfl, ht, rfl⟩
    · simp [expect, run_choose_cons, ht] at h

/-! ### The parser of each rank -/

/-- Reads the operators of a level. -/
def OperatorLevel.op? : OperatorLevel → Lexeme → Option BinaryOp
  | .product => BinaryOp.multiplicative?
  | .sum => BinaryOp.additive?
  | .comparison => BinaryOp.comparison?
  | .equality => BinaryOp.equality?
  | .conjunction => BinaryOp.conjunction?
  | .disjunction => BinaryOp.disjunction?

/-- How many levels are tighter. -/
def OperatorLevel.index : OperatorLevel → Nat
  | .product => 0
  | .sum => 1
  | .comparison => 2
  | .equality => 3
  | .conjunction => 4
  | .disjunction => 5

/-- The parser of a rank, when `n` levels are free. -/
def Rank.parser (n : Nat) : Rank → Parser Expr
  | .primary => Kestrel.primary (deeper n)
  | .power => Kestrel.power (deeper n)
  | .unary => Kestrel.unary (deeper n)
  | .operand => (deeper n).operand
  | .level l =>
    (binaryLevels.take (l.index + 1)).foldl (fun next op? => chain op? next)
      (Kestrel.unary (deeper n))
  | .whole => (deeper n).expression

theorem OperatorLevel.parser_eq (n : Nat) (l : OperatorLevel) :
    (Rank.level l).parser n = chain l.op? (l.below.parser n) := by
  cases l <;> rfl

theorem OperatorLevel.op?_eq_some {l : OperatorLevel} {s : Lexeme} {op : BinaryOp} :
    l.op? s = some op ↔ s = op.lexeme ∧ op.level? = some l := by
  constructor
  · intro h
    cases l <;>
      simp only [OperatorLevel.op?, BinaryOp.multiplicative?, BinaryOp.additive?,
        BinaryOp.comparison?, BinaryOp.equality?, BinaryOp.conjunction?,
        BinaryOp.disjunction?] at h <;>
      split at h <;> cases h <;> exact ⟨rfl, rfl⟩
  · rintro ⟨rfl, hop⟩
    cases op <;> cases hop <;> rfl

theorem BinaryOp.lexeme_injective {op op' : BinaryOp} (h : op.lexeme = op'.lexeme) : op = op' := by
  cases op <;> cases op' <;> first | rfl | simp [BinaryOp.lexeme] at h

/-- What holds of unary expressions and is handed on from level to level holds of all levels. -/
theorem OperatorLevel.all_of_below {P : Rank → Prop} (hunary : P .unary)
    (hlevel : ∀ l : OperatorLevel, P l.below → P (.level l)) (l : OperatorLevel) :
    P (.level l) := by
  have hproduct := hlevel .product hunary
  have hsum := hlevel .sum hproduct
  have hcomparison := hlevel .comparison hsum
  have hequality := hlevel .equality hcomparison
  have hconjunction := hlevel .conjunction hequality
  have hdisjunction := hlevel .disjunction hconjunction
  cases l <;> assumption

theorem UnaryOp.ofLexeme?_eq_some {u : Lexeme} {op : UnaryOp} :
    UnaryOp.ofLexeme? u = some op ↔ u = op.lexeme := by
  constructor
  · intro h
    unfold UnaryOp.ofLexeme? at h
    split at h <;> cases h <;> rfl
  · rintro rfl
    cases op <;> rfl

/-! ### Operators ahead -/

/-- How loosely an operator binds. -/
def BinaryOp.tightness (op : BinaryOp) : Nat :=
  match op.level? with
  | none => 0
  | some l => l.index + 1

/-- A rank of expressions may go on with the operators that bind tighter than this. -/
def Rank.bound : Rank → Nat
  | .primary => 0
  | .power | .unary | .operand => 1
  | .level l => l.index + 2
  | .whole => 7

/-- The tokens do not start with an operator that binds tighter than `bound`. -/
def EndsOperand (bound : Nat) (ts : List Token) : Prop :=
  ∀ t rest, ts = t :: rest → ∀ op : BinaryOp, t.lexeme = op.lexeme → bound ≤ op.tightness

theorem EndsOperand.mono {bound bound' : Nat} {ts : List Token} (h : EndsOperand bound ts)
    (hle : bound' ≤ bound) : EndsOperand bound' ts :=
  fun t rest hts op hop => Nat.le_trans hle (h t rest hts op hop)

theorem endsOperand_zero (ts : List Token) : EndsOperand 0 ts := fun _ _ _ _ _ => Nat.zero_le _

theorem endsOperand_cons_of_not {t : Token} (h : ∀ op : BinaryOp, t.lexeme ≠ op.lexeme)
    (bound : Nat) (rest : List Token) : EndsOperand bound (t :: rest) := by
  rintro t' rest' hts op hop
  cases hts
  exact absurd hop (h op)

theorem endsOperand_cons_of_op {t : Token} {op : BinaryOp} (h : t.lexeme = op.lexeme) {bound : Nat}
    (hle : bound ≤ op.tightness) (rest : List Token) : EndsOperand bound (t :: rest) := by
  rintro t' rest' hts op' hop'
  cases hts
  obtain rfl := BinaryOp.lexeme_injective (h.symm.trans hop')
  exact hle

theorem OperatorLevel.bound_below (l : OperatorLevel) : l.below.bound = l.index + 1 := by
  cases l <;> rfl

theorem BinaryOp.tightness_of_level? {op : BinaryOp} {l : OperatorLevel} (h : op.level? = some l) :
    op.tightness = l.index + 1 := by
  simp only [tightness, h]

/-! ### Chains of operators -/

theorem chainFrom_nil (op? : Lexeme → Option BinaryOp) (next : Parser Expr) (left : Expr) :
    chainFrom op? next left [] = .ok (left, []) := by
  rw [chainFrom]

theorem chainFrom_of_none {op? : Lexeme → Option BinaryOp} {t : Token} (h : op? t.lexeme = none)
    (next : Parser Expr) (left : Expr) (rest : List Token) :
    chainFrom op? next left (t :: rest) = .ok (left, t :: rest) := by
  rw [chainFrom]
  split
  · rfl
  · next op hop => simp [h] at hop

theorem chainFrom_of_ok {op? : Lexeme → Option BinaryOp} {next : Parser Expr} {t : Token}
    {op : BinaryOp} {right : Expr} {rest rest' : List Token} (hop : op? t.lexeme = some op)
    (hnext : next.run rest = .ok (right, rest')) (left : Expr) :
    chainFrom op? next left (t :: rest) = chainFrom op? next (left.join op right) rest' := by
  rw [chainFrom]
  split
  · next hnone => simp [hop] at hnone
  · next op' hop' =>
    obtain rfl := Option.some.inj (hop.symm.trans hop')
    split
    · next failure herror => simp [hnext] at herror
    · next right' rest₁ hok =>
      obtain ⟨rfl, rfl⟩ : right = right' ∧ rest' = rest₁ := by simpa [hnext] using hok
      rfl

/-- A level goes on with its own operators only. -/
theorem chainFrom_of_ends {l : OperatorLevel} {ts : List Token} (h : EndsOperand (l.index + 2) ts)
    (next : Parser Expr) (left : Expr) : chainFrom l.op? next left ts = .ok (left, ts) := by
  cases ts with
  | nil => exact chainFrom_nil _ next left
  | cons t rest =>
    cases hop : l.op? t.lexeme with
    | none => exact chainFrom_of_none hop next left rest
    | some op =>
      obtain ⟨hlexeme, hlevel⟩ := OperatorLevel.op?_eq_some.1 hop
      have hle := h t rest rfl op hlexeme
      rw [BinaryOp.tightness_of_level? hlevel] at hle
      omega

theorem run_chain_of_ok {op? : Lexeme → Option BinaryOp} {next : Parser Expr}
    {ts between : List Token} {first : Expr} (h : next.run ts = .ok (first, between)) :
    (chain op? next).run ts = chainFrom op? next first between :=
  run_bind_of_ok h

/-! ### Powers and unary operators -/

theorem run_power_of_ends {inner : Deeper} {ts rest : List Token} {b : Expr}
    (h : (primary inner).run ts = .ok (b, rest)) (hrest : EndsOperand 1 rest) :
    (power inner).run ts = .ok (b, rest) := by
  rw [power, run_bind_of_ok h]
  cases rest with
  | nil => rfl
  | cons t rest =>
    have ht : t.lexeme ≠ .symbol .caret := fun ht =>
      absurd (hrest t rest rfl .pow ht) (by decide)
    simp [run_choose_cons, ht]

theorem run_power_of_caret {inner : Deeper} {ts rest rest' : List Token} {t : Token} {b x : Expr}
    (h : (primary inner).run ts = .ok (b, t :: rest)) (ht : t.lexeme = .symbol .caret)
    (hx : inner.operand.run rest = .ok (x, rest')) :
    (power inner).run ts = .ok (b.join .pow x, rest') := by
  rw [power, run_bind_of_ok h]
  simp [run_choose_cons, ht, run_bind_of_ok hx]

theorem run_unary_of_none {inner : Deeper} {t : Token} (h : UnaryOp.ofLexeme? t.lexeme = none)
    (rest : List Token) : (unary inner).run (t :: rest) = (power inner).run (t :: rest) := by
  rw [unary, run_choose_cons, h]
  rfl

theorem run_unary_of_some {inner : Deeper} {t : Token} {op : UnaryOp} {x : Expr}
    {rest rest' : List Token} (h : UnaryOp.ofLexeme? t.lexeme = some op)
    (hx : inner.operand.run rest = .ok (x, rest')) :
    (unary inner).run (t :: rest) = .ok (.unary op x (t.span.merge x.span), rest') := by
  rw [unary, run_choose_cons, h]
  exact run_bind_of_ok hx

/-! ### Derived expressions are read -/

/-- What is left to do when an expression of a rank is read up to `rest`: the loop of a level looks
for further operators, the other ranks are done. -/
def Rank.goOn (n : Nat) (e : Expr) (rest : List Token) : Rank → Except Failure (Expr × List Token)
  | .level l => chainFrom l.op? (l.below.parser n) e rest
  | _ => .ok (e, rest)

/-- The bound that the tokens behind an expression have to respect until its rank goes on. -/
def Rank.ahead : Rank → Nat
  | .level l => l.index + 1
  | r => r.bound

theorem Rank.ahead_le_bound (r : Rank) : r.ahead ≤ r.bound := by
  cases r with
  | level l => exact Nat.le_succ _
  | _ => exact Nat.le_refl _

theorem Rank.goOn_of_ends {r : Rank} {rest : List Token} (h : EndsOperand r.bound rest) (n : Nat)
    (e : Expr) : r.goOn n e rest = .ok (e, rest) := by
  cases r with
  | level l => exact chainFrom_of_ends h _ e
  | _ => rfl

/-- The parser of a rank reads the tokens `ts` as the tree `e`, whatever comes behind them. -/
def Rank.Reads (n : Nat) (r : Rank) (ts : List Token) (e : Expr) : Prop :=
  ∀ rest, EndsOperand r.ahead rest → (r.parser n).run (ts ++ rest) = r.goOn n e rest

theorem Rank.Reads.run {n : Nat} {r : Rank} {ts : List Token} {e : Expr} (h : r.Reads n ts e)
    {rest : List Token} (hrest : EndsOperand r.bound rest) :
    (r.parser n).run (ts ++ rest) = .ok (e, rest) :=
  (h rest (hrest.mono r.ahead_le_bound)).trans (Rank.goOn_of_ends hrest n e)

/-- The first lexeme of a primary expression, and so of a power, is no unary operator. -/
theorem Expr.Written.ofLexeme?_head {n : Nat} {r : Rank} {ts : List Token} {e : Expr}
    (h : Expr.Written n r ts e) (hr : r = .primary ∨ r = .power) :
    ∃ t ts', ts = t :: ts' ∧ UnaryOp.ofLexeme? t.lexeme = none := by
  induction h with
  | number | trueWord | falseWord | name | parens => exact ⟨_, _, rfl, rfl⟩
  | base h ih => exact ih (.inl rfl)
  | power span hbase hexponent ihl ihr =>
    obtain ⟨t, ts', rfl, ht⟩ := ihl (.inl rfl)
    exact ⟨t, _, rfl, ht⟩
  | plain | sign | operand | tighter | binary | whole => simp at hr

/-- What tokens write is read. -/
theorem Expr.Written.reads {n : Nat} {r : Rank} {ts : List Token} {e : Expr}
    (h : Expr.Written n r ts e) : r.Reads n ts e := by
  induction h with
  | number | trueWord | falseWord | name =>
    intro rest _
    rfl
  | @parens n ts e left right h ih =>
    intro rest _
    have hends : EndsOperand Rank.whole.bound (⟨.symbol .rightParen, right⟩ :: rest) :=
      endsOperand_cons_of_not (fun op => by cases op <;> nofun) _ rest
    have hrun : (deeper n).expression.run (ts ++ ⟨.symbol .rightParen, right⟩ :: rest) =
        .ok (e, ⟨.symbol .rightParen, right⟩ :: rest) := ih.run hends
    have hclose : (expect .rightParen .closingParen).run (⟨.symbol .rightParen, right⟩ :: rest) =
        .ok (right, rest) := run_expect_cons rfl rest
    simp [Rank.parser, primary, run_choose_cons, Rank.goOn, run_bind_of_ok hrun,
      run_bind_of_ok hclose]
  | base h ih =>
    intro rest hrest
    exact run_power_of_ends (ih.run (endsOperand_zero rest)) hrest
  | power span hbase hexponent ihl ihr =>
    intro rest hrest
    rw [List.append_assoc]
    exact run_power_of_caret (ihl.run (endsOperand_zero _)) rfl (ihr.run hrest)
  | plain h ih =>
    intro rest hrest
    have hrun := ih.run hrest
    obtain ⟨t, ts', rfl, ht⟩ := h.ofLexeme?_head (.inr rfl)
    exact (run_unary_of_none ht (ts' ++ rest)).trans hrun
  | sign op span h ih =>
    intro rest hrest
    exact run_unary_of_some (UnaryOp.ofLexeme?_eq_some.2 rfl) (ih.run hrest)
  | operand h ih => exact ih
  | @tighter n ts e l h ih =>
    intro rest hrest
    have hends : EndsOperand l.below.bound rest := by
      rwa [OperatorLevel.bound_below]
    rw [OperatorLevel.parser_eq, run_chain_of_ok (ih.run hends)]
    rfl
  | @binary n ts us left right op l hop span hleft hright ihl ihr =>
    intro rest hrest
    have hahead : EndsOperand (l.index + 1) (⟨op.lexeme, span⟩ :: (us ++ rest)) :=
      endsOperand_cons_of_op rfl (Nat.le_of_eq (BinaryOp.tightness_of_level? hop).symm) _
    have hends : EndsOperand l.below.bound rest := by
      rwa [OperatorLevel.bound_below]
    -- reading the left operand leaves the loop of the level in front of the operator
    rw [List.append_assoc, List.cons_append, ihl _ hahead]
    exact chainFrom_of_ok (OperatorLevel.op?_eq_some.2 ⟨rfl, hop⟩) (ihr.run hends) left
  | whole h ih =>
    intro rest hrest
    exact ih.run hrest

/-! ### What is read is written -/

/-- The parser of a rank reads only what tokens write. -/
def Rank.Sound (n : Nat) (r : Rank) : Prop :=
  (r.parser n).SoundFor (Expr.Written n r)

/-- What a chain adds to its left operand is written with it. -/
theorem written_of_chainFrom {n : Nat} {l : OperatorLevel} (hnext : l.below.Sound n) {left e : Expr}
    {before ts rest : List Token} (hleft : Expr.Written n (.level l) before left)
    (h : chainFrom l.op? (l.below.parser n) left ts = .ok (e, rest)) :
    ∃ front, ts = front ++ rest ∧ Expr.Written n (.level l) (before ++ front) e := by
  fun_induction chainFrom l.op? (l.below.parser n) left ts generalizing before with
  | case1 left =>
    cases h
    exact ⟨[], rfl, by rwa [List.append_nil]⟩
  | case2 left t ts' hop =>
    cases h
    exact ⟨[], rfl, by rwa [List.append_nil]⟩
  | case3 => cases h
  | case4 left t ts' op hop right ts'' hright hle ih =>
    obtain ⟨_, span⟩ := t
    obtain ⟨rfl, hlevel⟩ := OperatorLevel.op?_eq_some.1 hop
    obtain ⟨front₁, rfl, hwritten⟩ := hnext ts' right ts'' hright
    -- the joined operands are the left operand of the rest of the chain
    obtain ⟨front₂, rfl, hwhole⟩ := ih (.binary hlevel span hleft hwritten) h
    exact ⟨⟨op.lexeme, span⟩ :: (front₁ ++ front₂), by simp, by simpa using hwhole⟩

theorem OperatorLevel.sound {n : Nat} {l : OperatorLevel} (hnext : l.below.Sound n) :
    (Rank.level l).Sound n := by
  intro ts e rest h
  rw [OperatorLevel.parser_eq] at h
  obtain ⟨first, between, hfirst, hrest⟩ := run_bind_eq_ok.1 h
  obtain ⟨front₁, rfl, hwritten⟩ := hnext ts first between hfirst
  obtain ⟨front₂, rfl, hwhole⟩ := written_of_chainFrom hnext (.tighter hwritten) hrest
  exact ⟨front₁ ++ front₂, by simp, hwhole⟩

theorem primary_sound {n : Nat} (hwhole : Rank.whole.Sound n) : Rank.primary.Sound n := by
  intro ts e rest h
  rcases of_run_choose h with ⟨⟨lexeme, span⟩, ts', p, rfl, hp, hrun⟩ | hfail
  · dsimp only at hp
    split at hp
    · next value =>
      cases hp
      cases hrun
      exact ⟨[_], rfl, .number value span⟩
    · cases hp
      cases hrun
      exact ⟨[_], rfl, .trueWord span⟩
    · cases hp
      cases hrun
      exact ⟨[_], rfl, .falseWord span⟩
    · next text =>
      cases hp
      cases hrun
      exact ⟨[_], rfl, .name text span⟩
    · cases hp
      obtain ⟨e', between, hinside, hrun'⟩ := run_bind_eq_ok.1 hrun
      obtain ⟨right, between', hclose, hdone⟩ := run_bind_eq_ok.1 hrun'
      cases hdone
      obtain ⟨⟨_, right⟩, rfl, rfl, -⟩ := run_expect_eq_ok hclose
      obtain ⟨front, rfl, hwritten⟩ := hwhole ts' e _ hinside
      exact ⟨_ :: (front ++ [_]), by simp, .parens span right hwritten⟩
    · cases hp
  · cases hfail

theorem power_sound {n : Nat} (hprimary : Rank.primary.Sound n) (hoperand : Rank.operand.Sound n) :
    Rank.power.Sound n := by
  intro ts e rest h
  obtain ⟨b, between, hb, hchoose⟩ := run_bind_eq_ok.1 h
  obtain ⟨front₁, rfl, hbase⟩ := hprimary ts b between hb
  rcases of_run_choose hchoose with ⟨⟨lexeme, span⟩, between', p, rfl, hp, hrun⟩ | hdone
  · split at hp
    · next ht =>
      obtain rfl : lexeme = .symbol .caret := ht
      cases hp
      obtain ⟨x, after, hx, hdone⟩ := run_bind_eq_ok.1 hrun
      cases hdone
      obtain ⟨front₂, rfl, hexponent⟩ := hoperand between' x _ hx
      exact ⟨front₁ ++ ⟨.symbol .caret, span⟩ :: front₂, by simp, .power span hbase hexponent⟩
    · cases hp
  · cases hdone
    exact ⟨front₁, rfl, .base hbase⟩

theorem unary_sound {n : Nat} (hpower : Rank.power.Sound n) (hoperand : Rank.operand.Sound n) :
    Rank.unary.Sound n := by
  intro ts e rest h
  rcases of_run_choose h with ⟨⟨lexeme, span⟩, ts', p, rfl, hp, hrun⟩ | hplain
  · obtain ⟨op, hop, rfl⟩ := Option.map_eq_some_iff.1 hp
    obtain ⟨x, after, hx, hdone⟩ := run_bind_eq_ok.1 hrun
    cases hdone
    obtain rfl := UnaryOp.ofLexeme?_eq_some.1 hop
    obtain ⟨front, rfl, hwritten⟩ := hoperand ts' x _ hx
    exact ⟨_ :: front, rfl, .sign op span hwritten⟩
  · obtain ⟨front, rfl, hwritten⟩ := hpower ts e rest hplain
    exact ⟨front, rfl, .plain hwritten⟩

/-- All ranks are sound if the two that open a level are. -/
theorem Rank.sound_of_opening {n : Nat} (hoperand : Rank.operand.Sound n)
    (hwhole : Rank.whole.Sound n) (r : Rank) : r.Sound n := by
  have hprimary := primary_sound hwhole
  have hpower := power_sound hprimary hoperand
  have hunary := unary_sound hpower hoperand
  have hlevel : ∀ l : OperatorLevel, (Rank.level l).Sound n :=
    OperatorLevel.all_of_below hunary fun _ => OperatorLevel.sound
  cases r with
  | level l => exact hlevel l
  | _ => assumption

/-- What is read is written, with the levels that were free. -/
theorem Rank.sound (n : Nat) (r : Rank) : r.Sound n := by
  induction n generalizing r with
  | zero =>
    -- both ranks that open a level fail at once
    refine Rank.sound_of_opening ?_ ?_ r
    · intro ts e rest h
      cases h
    · intro ts e rest h
      cases h
  | succ n ih =>
    refine Rank.sound_of_opening ?_ ?_ r
    · intro ts e rest h
      obtain ⟨front, rfl, hwritten⟩ := ih .unary ts e rest h
      exact ⟨front, rfl, .operand hwritten⟩
    · intro ts e rest h
      obtain ⟨front, rfl, hwritten⟩ := ih (.level .disjunction) ts e rest h
      exact ⟨front, rfl, .whole hwritten⟩

/-- What is read is derived, with the levels that were free. -/
theorem Rank.derives_of_run {n : Nat} {r : Rank} {ts rest : List Token} {e : Expr}
    (h : (r.parser n).run ts = .ok (e, rest)) :
    ∃ front, ts = front ++ rest ∧ Expr.Derives n r (lexemes front) e.bare := by
  obtain ⟨front, rfl, hwritten⟩ := Rank.sound n r ts e rest h
  exact ⟨front, rfl, hwritten.derives⟩

end Kestrel
