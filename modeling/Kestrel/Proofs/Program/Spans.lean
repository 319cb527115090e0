import Kestrel.Program.Reading
import Kestrel.Proofs.Program.Walk

/-!
# Spans of programs

Every span in a program was put together from spans of the tokens that it was read from, and so was
the span of a failure to read them. Whatever holds of the spans of the tokens and of merged spans
holds of all of these.

## Main definitions

- `Span.Merges` — what holds of two spans holds of the span merged from them
- `Expr.SpansIn`, `Stmt.SpansIn` — all spans of a construct are of some kind
- `Parser.Keeps` — a parser that is given spans of some kind makes spans of this kind

## Main statements

- `Deeper.keeps` — so do all parsers of the language
- `Program.spans_of_ofTokens` — so are the spans of a program and of a failure to read it
-/

namespace Kestrel

/-- What holds of two spans holds of the smallest span that covers both. -/
def Span.Merges (good : Span → Prop) : Prop :=
  ∀ a b, good a → good b → good (a.merge b)

variable (good : Span → Prop)

/-- All spans of an expression are of some kind. -/
def Expr.SpansIn : Expr → Prop
  | .number _ span | .boolean _ span | .name _ span => good span
  | .unary _ operand span => operand.SpansIn ∧ good span
  | .binary left _ right span => left.SpansIn ∧ right.SpansIn ∧ good span

mutual

/-- All spans of a statement are of some kind. -/
def Stmt.SpansIn : Stmt → Prop
  | .expression value span | .assign _ _ value span | .print value span =>
    value.SpansIn good ∧ good span
  | .ifThen condition body span =>
    condition.SpansIn good ∧ Stmt.AllSpansIn body ∧ good span
  | .ifElse condition body otherwise span =>
    condition.SpansIn good ∧ Stmt.AllSpansIn body ∧ Stmt.AllSpansIn otherwise ∧ good span
  | .whileDo condition body span =>
    condition.SpansIn good ∧ Stmt.AllSpansIn body ∧ good span
  | .breakLoop span | .continueLoop span => good span

/-- All spans of the statements of a block are of some kind. -/
def Stmt.AllSpansIn : List Stmt → Prop
  | [] => True
  | s :: rest => s.SpansIn ∧ Stmt.AllSpansIn rest

end

/-- The spans of some tokens are of some kind. -/
def TokensIn (ts : List Token) : Prop := ∀ t ∈ ts, good t.span

variable {good}

theorem Expr.SpansIn.span {e : Expr} (h : e.SpansIn good) : good e.span := by
  cases e with
  | number | boolean | name => exact h
  | unary => exact h.2
  | binary => exact h.2.2

theorem Stmt.allSpansIn_iff {ss : List Stmt} :
    Stmt.AllSpansIn good ss ↔ ∀ s ∈ ss, s.SpansIn good := by
  induction ss with
  | nil => simp [Stmt.AllSpansIn]
  | cons s rest ih => simp [Stmt.AllSpansIn, ih]

theorem Stmt.allSpansIn_nil : Stmt.AllSpansIn good [] := trivial

theorem Stmt.AllSpansIn.reverse {ss : List Stmt} (h : Stmt.AllSpansIn good ss) :
    Stmt.AllSpansIn good ss.reverse := by
  rw [Stmt.allSpansIn_iff] at h ⊢
  intro s hs
  exact h s (List.mem_reverse.1 hs)

theorem TokensIn.of_cons {t : Token} {ts : List Token} (h : TokensIn good (t :: ts)) :
    good t.span ∧ TokensIn good ts :=
  List.forall_mem_cons.1 h

theorem TokensIn.of_subset {ts ts' : List Token} (h : TokensIn good ts) (hsub : ts' ⊆ ts) :
    TokensIn good ts' :=
  fun t ht => h t (hsub ht)

/-! ### Parsers -/

variable {α β : Type}

/-- What a parser gives: a result of which `holds` is true, or a failure, in front of tokens whose
spans are of some kind. -/
def KeptIn (good : Span → Prop) (holds : α → Prop) : Except Failure (α × List Token) → Prop
  | .ok (a, rest) => holds a ∧ TokensIn good rest
  | .error failure => TokensIn good failure.rest

/-- From tokens with spans of some kind, a parser gets results of which `holds` is true. -/
def Parser.Keeps (good : Span → Prop) (p : Parser α) (holds : α → Prop) : Prop :=
  ∀ ts, TokensIn good ts → KeptIn good holds (p.run ts)

namespace Parser

variable {p : Parser α} {holds : α → Prop} {holds' : β → Prop}

theorem keeps_pure {a : α} (h : holds a) : (pure a : Parser α).Keeps good holds :=
  fun _ hts => ⟨h, hts⟩

theorem keeps_fail (cause : Cause) : (fail cause : Parser α).Keeps good holds :=
  fun _ hts => hts

theorem Keeps.of_ok (hp : p.Keeps good holds) {ts rest : List Token} {a : α}
    (hrun : p.run ts = .ok (a, rest)) (hts : TokensIn good ts) : holds a ∧ TokensIn good rest := by
  have hkept := hp ts hts
  rwa [hrun] at hkept

theorem Keeps.of_error (hp : p.Keeps good holds) {ts : List Token} {failure : Failure}
    (hrun : p.run ts = .error failure) (hts : TokensIn good ts) : TokensIn good failure.rest := by
  have hkept := hp ts hts
  rwa [hrun] at hkept

theorem Keeps.bind {f : α → Parser β} (hp : p.Keeps good holds)
    (hf : ∀ a, holds a → (f a).Keeps good holds') : (p >>= f).Keeps good holds' := by
  intro ts hts
  rw [run_bind]
  cases hrun : p.run ts with
  | error failure => exact hp.of_error hrun hts
  | ok result =>
    obtain ⟨a, rest⟩ := result
    obtain ⟨ha, hrest⟩ := hp.of_ok hrun hts
    exact hf a ha rest hrest

theorem keeps_look {f : List Token → Parser α}
    (hf : ∀ ts, TokensIn good ts → (f ts).Keeps good holds) : (look f).Keeps good holds :=
  fun ts hts => hf ts hts ts hts

theorem keeps_choose {f : Token → Option (Parser α)} {otherwise : Parser α}
    (hf : ∀ t p, good t.span → f t = some p → p.Keeps good holds)
    (hotherwise : otherwise.Keeps good holds) : (choose f otherwise).Keeps good holds := by
  intro ts hts
  cases ts with
  | nil => exact hotherwise [] hts
  | cons t rest =>
    rw [run_choose_cons]
    split
    · next p hp => exact hf t p hts.of_cons.1 hp rest hts.of_cons.2
    · exact hotherwise _ hts

theorem keeps_expect (sign : Symbol) (what : Expectation) :
    (expect sign what).Keeps good good := by
  refine keeps_choose (fun t p ht hp => ?_) (keeps_fail _)
  split at hp
  · cases hp
    exact keeps_pure ht
  · cases hp

theorem keeps_skipSeparators : skipSeparators.Keeps good fun _ => True :=
  fun _ hts => ⟨trivial, hts.of_subset (List.dropWhile_sublist _).subset⟩

end Parser

/-! ### The parsers of the language -/

/-- All parsers that open a level keep spans of some kind. -/
structure Deeper.Keeps (good : Span → Prop) (inner : Deeper) : Prop where
  operand : inner.operand.Keeps good (Expr.SpansIn good)
  expression : inner.expression.Keeps good (Expr.SpansIn good)
  conditional : inner.conditional.Keeps good fun r => r.1.SpansIn good ∧ good r.2
  body : inner.body.Keeps good fun r => Stmt.AllSpansIn good r.1 ∧ good r.2

section Language

open Kestrel.Parser

variable {inner : Deeper} (hmerge : Span.Merges good)

include hmerge

theorem Expr.spansIn_join {left right : Expr} (op : BinaryOp) (hl : left.SpansIn good)
    (hr : right.SpansIn good) : (left.join op right).SpansIn good :=
  ⟨hl, hr, hmerge _ _ hl.span hr.span⟩

omit hmerge in
theorem primary_keeps (h : inner.Keeps good) : (primary inner).Keeps good (Expr.SpansIn good) := by
  refine keeps_choose (fun t p ht hp => ?_) (keeps_fail _)
  split at hp
  · cases hp
    exact keeps_pure ht
  · cases hp
    exact keeps_pure ht
  · cases hp
    exact keeps_pure ht
  · cases hp
    exact keeps_pure ht
  · cases hp
    exact h.expression.bind fun value hvalue => (keeps_expect _ _).bind fun _ _ => keeps_pure hvalue
  · cases hp

theorem power_keeps (h : inner.Keeps good) : (power inner).Keeps good (Expr.SpansIn good) := by
  refine (primary_keeps h).bind fun base hbase => ?_
  refine keeps_choose (fun t p ht hp => ?_) (keeps_pure hbase)
  split at hp
  · cases hp
    exact h.operand.bind fun exponent hexponent =>
      keeps_pure (Expr.spansIn_join hmerge .pow hbase hexponent)
  · cases hp

theorem unary_keeps (h : inner.Keeps good) : (unary inner).Keeps good (Expr.SpansIn good) := by
  refine keeps_choose (fun t p ht hp => ?_) (power_keeps hmerge h)
  obtain ⟨op, -, rfl⟩ := Option.map_eq_some_iff.1 hp
  exact h.operand.bind fun operand hoperand =>
    keeps_pure ⟨hoperand, hmerge _ _ ht hoperand.span⟩

theorem chainFrom_keeps (op? : Lexeme → Option BinaryOp) {next : Parser Expr}
    (hnext : next.Keeps good (Expr.SpansIn good)) {left : Expr} (hleft : left.SpansIn good)
    {ts : List Token} (hts : TokensIn good ts) :
    KeptIn good (Expr.SpansIn good) (chainFrom op? next left ts) := by
  fun_induction chainFrom op? next left ts with
  | case1 left => exact ⟨hleft, hts⟩
  | case2 left t rest hop => exact ⟨hleft, hts⟩
  | case3 left t rest op hop failure hrun => exact hnext.of_error hrun hts.of_cons.2
  | case4 left t rest op hop right rest' hrun _ ih =>
    obtain ⟨hright, hrest⟩ := hnext.of_ok hrun hts.of_cons.2
    exact ih (Expr.spansIn_join hmerge op hleft hright) hrest

theorem chain_keeps (op? : Lexeme → Option BinaryOp) {next : Parser Expr}
    (hnext : next.Keeps good (Expr.SpansIn good)) :
    (chain op? next).Keeps good (Expr.SpansIn good) :=
  hnext.bind fun _ hfirst _ hts => chainFrom_keeps hmerge op? hnext hfirst hts

theorem anyExpression_keeps (h : inner.Keeps good) :
    (anyExpression inner).Keeps good (Expr.SpansIn good) :=
  List.foldlRecOn (motive := fun next : Parser Expr => next.Keeps good (Expr.SpansIn good))
    binaryLevels _ (unary_keeps hmerge h) fun _ hnext op? _ => chain_keeps hmerge op? hnext

omit hmerge in
theorem block_keeps (h : inner.Keeps good) :
    (block inner).Keeps good fun r => Stmt.AllSpansIn good r.1 ∧ good r.2 :=
  (keeps_expect _ _).bind fun _ _ => h.body

omit hmerge in
theorem TokensIn.of_takeElse? {ts rest : List Token} (hts : TokensIn good ts)
    (h : takeElse? ts = some rest) : TokensIn good rest := by
  fun_induction takeElse? ts with
  | case1 => cases h
  | case2 t ts _ ih => exact ih hts.of_cons.2 h
  | case3 t ts _ _ =>
    cases h
    exact hts.of_cons.2
  | case4 => cases h

omit hmerge in
theorem elseBranch_keeps {branch : Parser α} {holds : α → Prop} (h : branch.Keeps good holds) :
    (elseBranch branch).Keeps good fun found => ∀ a, found = some a → holds a := by
  intro ts hts
  unfold elseBranch
  simp only
  split
  · exact ⟨fun a h => absurd h.symm (Option.some_ne_none a), hts⟩
  · next rest helse =>
    cases hrun : branch.run rest with
    | error failure => exact h.of_error hrun (hts.of_takeElse? helse)
    | ok result =>
      obtain ⟨ha, hrest⟩ := h.of_ok hrun (hts.of_takeElse? helse)
      refine ⟨?_, hrest⟩
      rintro a ⟨⟩
      exact ha

omit hmerge in
theorem alternative_keeps (h : inner.Keeps good) :
    (alternative inner).Keeps good fun r => Stmt.AllSpansIn good r.1 ∧ good r.2 := by
  refine keeps_look fun ts _ => ?_
  split
  · exact h.conditional.bind fun r hr => keeps_pure ⟨⟨hr.1, trivial⟩, hr.2⟩
  · exact block_keeps h

theorem conditionalAfter_keeps (h : inner.Keeps good) {start : Span} (hstart : good start) :
    (conditionalAfter inner start).Keeps good fun r => r.1.SpansIn good ∧ good r.2 := by
  refine h.expression.bind fun condition hcondition => ?_
  refine (block_keeps h).bind fun ⟨body, last⟩ ⟨hbody, hlast⟩ => ?_
  refine (elseBranch_keeps (alternative_keeps h)).bind fun found hfound => ?_
  cases found with
  | none => exact keeps_pure ⟨⟨hcondition, hbody, hmerge _ _ hstart hlast⟩, hlast⟩
  | some r =>
    obtain ⟨hotherwise, hlast'⟩ := hfound r rfl
    exact keeps_pure ⟨⟨hcondition, hbody, hotherwise, hmerge _ _ hstart hlast'⟩, hlast'⟩

theorem loopAfter_keeps (h : inner.Keeps good) {start : Span} (hstart : good start) :
    (loopAfter inner start).Keeps good (Stmt.SpansIn good) := by
  refine h.expression.bind fun condition hcondition => ?_
  refine (block_keeps h).bind fun ⟨body, last⟩ ⟨hbody, hlast⟩ => ?_
  exact keeps_pure ⟨hcondition, hbody, hmerge _ _ hstart hlast⟩

theorem printAfter_keeps (h : inner.Keeps good) {start : Span} (hstart : good start) :
    (printAfter inner start).Keeps good (Stmt.SpansIn good) := by
  refine (keeps_expect _ _).bind fun _ _ => ?_
  refine h.expression.bind fun value hvalue => ?_
  refine (keeps_expect _ _).bind fun stop hstop => ?_
  exact keeps_pure ⟨hvalue, hmerge _ _ hstart hstop⟩

omit hmerge in
theorem TokensIn.of_assignmentAhead? {ts : List Token} (hts : TokensIn good ts)
    {name : String} {span : Span} {op : AssignOp}
    (h : assignmentAhead? ts = some (name, span, op)) : good span := by
  unfold assignmentAhead? at h
  split at h
  · obtain ⟨op', -, heq⟩ := Option.map_eq_some_iff.1 h
    cases heq
    exact hts.of_cons.1
  · cases h

theorem assignmentOrExpression_keeps (h : inner.Keeps good) :
    (assignmentOrExpression inner).Keeps good (Stmt.SpansIn good) := by
  refine keeps_look fun ts hts => ?_
  split
  · next name span op hahead =>
    have hspan := hts.of_assignmentAhead? hahead
    have hskip : skipTwo.Keeps good fun _ => True :=
      fun ts hts => ⟨trivial, hts.of_subset (List.drop_subset 2 ts)⟩
    refine hskip.bind fun _ _ => h.expression.bind fun value hvalue => ?_
    exact keeps_pure ⟨hvalue, hmerge _ _ hspan hvalue.span⟩
  · exact h.expression.bind fun value hvalue => keeps_pure ⟨hvalue, hvalue.span⟩

theorem statement_keeps (h : inner.Keeps good) :
    (statement inner).Keeps good (Stmt.SpansIn good) := by
  refine keeps_choose (fun t p ht hp => ?_) (assignmentOrExpression_keeps hmerge h)
  split at hp
  · cases hp
    exact printAfter_keeps hmerge h ht
  · cases hp
    exact (conditionalAfter_keeps hmerge h ht).bind fun r hr => keeps_pure hr.1
  · cases hp
    exact loopAfter_keeps hmerge h ht
  · cases hp
    exact keeps_pure ht
  · cases hp
    exact keeps_pure ht
  · cases hp

omit hmerge in
theorem bodyFrom_keeps {item : Parser Stmt} (hitem : item.Keeps good (Stmt.SpansIn good))
    {before : List Stmt} (hbefore : Stmt.AllSpansIn good before) {ts : List Token}
    (hts : TokensIn good ts) :
    KeptIn good (fun r => Stmt.AllSpansIn good r.1 ∧ good r.2) (bodyFrom item before ts) := by
  fun_induction bodyFrom item before ts with
  | case1 => exact hts
  | case2 before t rest ht => exact ⟨⟨hbefore.reverse, hts.of_cons.1⟩, hts.of_cons.2⟩
  | case3 before t rest ht failure hrun => exact hitem.of_error hrun hts
  | case4 before t rest ht stmt hrun => exact (hitem.of_ok hrun hts).2
  | case5 before t rest ht stmt t' rest' hrun ht' =>
    obtain ⟨hstmt, hrest⟩ := hitem.of_ok hrun hts
    exact ⟨⟨Stmt.AllSpansIn.reverse ⟨hstmt, hbefore⟩, hrest.of_cons.1⟩, hrest.of_cons.2⟩
  | case6 before t rest ht stmt t' rest' hrun ht' hsep _ ih =>
    obtain ⟨hstmt, hrest⟩ := hitem.of_ok hrun hts
    exact ih ⟨hstmt, hbefore⟩ (hrest.of_cons.2.of_subset (List.dropWhile_sublist _).subset)
  | case7 before t rest ht stmt t' rest' hrun ht' hsep => exact (hitem.of_ok hrun hts).2

omit hmerge in
theorem bodyAfterBrace_keeps {item : Parser Stmt} (hitem : item.Keeps good (Stmt.SpansIn good)) :
    (bodyAfterBrace item).Keeps good fun r => Stmt.AllSpansIn good r.1 ∧ good r.2 :=
  keeps_skipSeparators.bind fun _ _ _ hts => bodyFrom_keeps hitem Stmt.allSpansIn_nil hts

theorem ifStatement_keeps (h : inner.Keeps good) :
    (ifStatement inner).Keeps good fun r => r.1.SpansIn good ∧ good r.2 := by
  refine keeps_choose (fun t p ht hp => ?_) (keeps_fail _)
  split at hp
  · cases hp
    exact conditionalAfter_keeps hmerge h ht
  · cases hp

/-- All parsers of the language keep spans of some kind, with any number of levels free. -/
theorem Deeper.keeps (n : Nat) : (deeper n).Keeps good := by
  induction n with
  | zero => exact ⟨keeps_fail _, keeps_fail _, keeps_fail _, keeps_fail _⟩
  | succ n ih =>
    exact ⟨unary_keeps hmerge ih, anyExpression_keeps hmerge ih, ifStatement_keeps hmerge ih,
      bodyAfterBrace_keeps (statement_keeps hmerge ih)⟩

omit hmerge in
theorem statementsFrom_keeps {item : Parser Stmt} (hitem : item.Keeps good (Stmt.SpansIn good))
    {before : List Stmt} (hbefore : Stmt.AllSpansIn good before) {ts : List Token}
    (hts : TokensIn good ts) :
    match statementsFrom item before ts with
    | .ok program => Stmt.AllSpansIn good program
    | .error failure => TokensIn good failure.rest := by
  fun_induction statementsFrom item before ts with
  | case1 before => exact hbefore.reverse
  | case2 before t rest failure hrun => exact hitem.of_error hrun hts
  | case3 before t rest stmt hrun =>
    exact Stmt.AllSpansIn.reverse ⟨(hitem.of_ok hrun hts).1, hbefore⟩
  | case4 before t rest stmt t' rest' hrun hsep _ ih =>
    obtain ⟨hstmt, hrest⟩ := hitem.of_ok hrun hts
    exact ih ⟨hstmt, hbefore⟩ (hrest.of_cons.2.of_subset (List.dropWhile_sublist _).subset)
  | case5 before t rest stmt t' rest' hrun hsep => exact (hitem.of_ok hrun hts).2

end Language

/-! ### Programs and their errors -/

/-- A failure is placed at a token or at the end. -/
theorem Failure.span_toError {failure : Failure} {atEnd : Span}
    (h : TokensIn good failure.rest) (hend : good atEnd) :
    good (failure.toError atEnd).span := by
  obtain ⟨cause, rest⟩ := failure
  cases rest with
  | nil => rwa [Failure.span_toError_nil]
  | cons t rest =>
    rw [Failure.span_toError_cons]
    exact h.of_cons.1

/-- The spans of a program that is read from some tokens are of the kind of theirs, and so is the
span of a failure to read one. -/
theorem Program.spans_of_ofTokens (hmerge : Span.Merges good) {ts : List Token}
    (hts : TokensIn good ts) (hend : good (endSpan ts)) :
    match Program.ofTokens ts with
    | .ok program => Stmt.AllSpansIn good program
    | .error e => good e.span := by
  have hstatements := statementsFrom_keeps (statement_keeps hmerge (Deeper.keeps hmerge maxDepth))
    Stmt.allSpansIn_nil
    (hts.of_subset (List.dropWhile_sublist (·.lexeme.isSeparator)).subset)
  simp only [Program.ofTokens]
  generalize statementsFrom (statement (deeper maxDepth)) [] _ = result at hstatements ⊢
  cases result with
  | ok program => exact hstatements
  | error failure => exact Failure.span_toError hstatements hend

/-! ### The sites of a program -/

theorem Expr.SpansIn.of_mem_walk {e : Expr} (h : e.SpansIn good) {block : BlockPath} {site : Site}
    (hsite : site ∈ e.walk block) : good site.act.span := by
  induction e with
  | number | boolean => cases hsite
  | name text span =>
    obtain rfl := List.mem_singleton.1 hsite
    exact h
  | unary op operand span ih => exact ih h.1 hsite
  | binary left op right span ihl ihr =>
    rcases List.mem_append.1 hsite with hsite | hsite
    · exact ihl h.1 hsite
    · exact ihr h.2.1 hsite

theorem good_of_mem_assignmentWalk {block : BlockPath} {name : String} {op : AssignOp}
    {value : Expr} {span : Span} (hvalue : value.SpansIn good) (hspan : good span) {site : Site}
    (hsite : site ∈ assignmentWalk block name op value span) : good site.act.span := by
  unfold assignmentWalk at hsite
  rcases List.mem_append.1 hsite with hsite | hsite
  · split at hsite
    · obtain rfl := List.mem_singleton.1 hsite
      exact hspan
    · cases hsite
  · rcases List.mem_append.1 hsite with hsite | hsite
    · exact hvalue.of_mem_walk hsite
    · obtain rfl := List.mem_singleton.1 hsite
      exact hspan

mutual

/-- The spans at the sites of a statement are spans of the statement. -/
theorem Stmt.SpansIn.of_mem_walk {s : Stmt} (h : s.SpansIn good) {block : BlockPath} {index : Nat}
    {site : Site} (hsite : site ∈ s.walk block index) : good site.act.span := by
  cases s with
  | expression e span | print e span => exact h.1.of_mem_walk hsite
  | assign name op e span => exact good_of_mem_assignmentWalk h.1 h.2 hsite
  | ifThen c body span | whileDo c body span =>
    rcases List.mem_append.1 hsite with hsite | hsite
    · exact h.1.of_mem_walk hsite
    · exact Stmt.AllSpansIn.of_mem_walkAll h.2.1 hsite
  | ifElse c body otherwise span =>
    rcases List.mem_append.1 hsite with hsite | hsite
    · exact h.1.of_mem_walk hsite
    · rcases List.mem_append.1 hsite with hsite | hsite
      · exact Stmt.AllSpansIn.of_mem_walkAll h.2.1 hsite
      · exact Stmt.AllSpansIn.of_mem_walkAll h.2.2.1 hsite
  | breakLoop span | continueLoop span =>
    obtain rfl := List.mem_singleton.1 hsite
    exact h

theorem Stmt.AllSpansIn.of_mem_walkAll {ss : List Stmt} (h : Stmt.AllSpansIn good ss)
    {block : BlockPath} {index : Nat} {site : Site}
    (hsite : site ∈ Stmt.walkAll block index ss) : good site.act.span := by
  cases ss with
  | nil => cases hsite
  | cons s rest =>
    rcases List.mem_append.1 hsite with hsite | hsite
    · exact Stmt.SpansIn.of_mem_walk h.1 hsite
    · exact Stmt.AllSpansIn.of_mem_walkAll h.2 hsite

end

end Kestrel
