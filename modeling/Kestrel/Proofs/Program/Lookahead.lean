import Kestrel.Proofs.Program.Statements

/-!
# What parsers look ahead at

Parsers decide by the tokens that they have read and the one that comes next. When a parser fails
for want of something other than a free level, what made it fail is all in front of it: it fails
likewise on all tokens that begin in the same way up to the next one, however many levels are free.

An `if` is the only exception, as it looks for an `else` behind any number of newlines.

## Main definitions

- `SameNext`, `SameEnd` — tokens that parsers do not tell apart as long as they read none of them
- `SettledBy` — what is read, and where a mistake is found, is settled up to the next token
- `Parser.Settles`, `Deeper.Settles` — so it is for all tokens, and for all opening parsers

## Main statements

- `deeper_settles` — the parsers of the language are settled, also with more levels free
- `statementsFrom_settled` — a mistake is found in all lists of statements that begin likewise
-/

namespace Kestrel

open Kestrel.Parser

variable {α β : Type}

/-! ### Tokens that come next -/

/-- The same token comes next, or none. -/
def SameNext (rest rest' : List Token) : Prop := rest'.head? = rest.head?

/-- The same token comes next, and if no `else` follows after newlines, then none does. -/
structure SameEnd (rest rest' : List Token) : Prop where
  next : SameNext rest rest'
  takeElse?_eq : takeElse? rest = none → takeElse? rest' = none

theorem SameNext.append {rest rest' : List Token} (h : SameNext rest rest') (front : List Token) :
    SameNext (front ++ rest) (front ++ rest') := by
  cases front with
  | nil => exact h
  | cons t front => rfl

theorem sameNext_nil {rest : List Token} : SameNext [] rest ↔ rest = [] :=
  List.head?_eq_none_iff

theorem sameNext_cons {t : Token} {ts rest : List Token} :
    SameNext (t :: ts) rest ↔ ∃ ts', rest = t :: ts' :=
  List.head?_eq_some_iff

/-- What comes next decides whether an `else` follows, if it is no newline. -/
theorem SameNext.takeElse?_append {rest rest' : List Token} (h : SameNext rest rest')
    (hrest : ∀ t ∈ rest.head?, t.lexeme ≠ .newline) {front : List Token}
    (hnone : takeElse? (front ++ rest) = none) : takeElse? (front ++ rest') = none := by
  induction front with
  | nil =>
    cases rest with
    | nil =>
      obtain rfl := sameNext_nil.1 h
      rfl
    | cons t ts =>
      obtain ⟨ts', rfl⟩ := sameNext_cons.1 h
      have hnewline := hrest t rfl
      refine takeElse?_other hnewline (fun helse => ?_) ts'
      rw [List.nil_append, takeElse?_else helse] at hnone
      cases hnone
  | cons t front ih =>
    rw [List.cons_append] at hnone ⊢
    by_cases hnewline : t.lexeme = .newline
    · rw [takeElse?_newline hnewline] at hnone ⊢
      exact ih hnone
    · refine takeElse?_other hnewline (fun helse => ?_) _
      rw [takeElse?_else helse] at hnone
      cases hnone

theorem SameNext.sameEnd {rest rest' : List Token} (h : SameNext rest rest')
    (hrest : ∀ t ∈ rest.head?, t.lexeme ≠ .newline) (front : List Token) :
    SameEnd (front ++ rest) (front ++ rest') :=
  ⟨h.append front, h.takeElse?_append hrest⟩

theorem sameEnd_cons {t : Token} (h : t.lexeme ≠ .newline) (ts ts' : List Token) :
    SameEnd (t :: ts) (t :: ts') := by
  have hsame : SameNext (t :: ts) (t :: ts') := rfl
  refine hsame.sameEnd ?_ []
  rintro _ ⟨⟩
  exact h

/-- Tokens without the separators in front of them do not start with a separator. -/
theorem not_separator_head_dropWhile (ts : List Token) :
    ∀ t ∈ (ts.dropWhile (·.lexeme.isSeparator)).head?, t.lexeme.isSeparator = false := by
  intro t ht
  have hnot := List.head?_dropWhile_not (·.lexeme.isSeparator) ts
  rw [Option.mem_def.1 ht] at hnot
  exact hnot

theorem dropWhile_separators_append {seps ts : List Token}
    (hseps : ∀ t ∈ seps, t.lexeme.isSeparator = true)
    (hts : ∀ t ∈ ts.head?, t.lexeme.isSeparator = false) :
    (seps ++ ts).dropWhile (·.lexeme.isSeparator) = ts := by
  rw [List.dropWhile_append_of_pos hseps]
  cases ts with
  | nil => rfl
  | cons t ts => exact dropWhile_of_not (hts t rfl) ts

/-! ### Settled results -/

/-- The result that some tokens gave is settled by those up to the next one: `f` gives it again
when other tokens come behind. A result may depend on what else `ends` says of these. Nothing is
said of parsers that had no level free. -/
def SettledBy (ends : List Token → List Token → Prop)
    (f : List Token → Except Failure (α × List Token)) (ts : List Token) :
    Except Failure (α × List Token) → Prop
  | .ok (a, rest) => ∃ front, ts = front ++ rest ∧
    ∀ rest', ends rest rest' → f (front ++ rest') = .ok (a, rest')
  | .error ⟨.expected what, rest⟩ => ∃ front, ts = front ++ rest ∧
    ∀ rest', SameNext rest rest' → f (front ++ rest') = .error ⟨.expected what, rest'⟩
  | .error ⟨.tooDeep, _⟩ => True

/-- What `p` reads, and where it finds a mistake, is settled by the tokens up to the next one, and
`p'` does the same. -/
def Parser.Settles (ends : List Token → List Token → Prop) (p p' : Parser α) : Prop :=
  ∀ ts, SettledBy ends p'.run ts (p.run ts)

section Settled

variable {ends : List Token → List Token → Prop} {ts : List Token}

/-- Reading on behind some tokens is settled if it is where it starts. -/
theorem SettledBy.behind {f g : List Token → Except Failure (α × List Token)}
    {result : Except Failure (α × List Token)} (h : SettledBy ends g ts result)
    (hends : ∀ {rest rest'}, ends rest rest' → SameNext rest rest') (front : List Token)
    (heq : ∀ ts', SameNext ts ts' → f (front ++ ts') = g ts') :
    SettledBy ends f (front ++ ts) result := by
  match result with
  | .ok (a, rest) =>
    obtain ⟨front', rfl, hsettled⟩ := h
    refine ⟨front ++ front', (List.append_assoc _ _ _).symm, fun rest' hrest' => ?_⟩
    rw [List.append_assoc, heq _ ((hends hrest').append front')]
    exact hsettled rest' hrest'
  | .error ⟨.expected what, rest⟩ =>
    obtain ⟨front', rfl, hsettled⟩ := h
    refine ⟨front ++ front', (List.append_assoc _ _ _).symm, fun rest' hrest' => ?_⟩
    rw [List.append_assoc, heq _ (hrest'.append front')]
    exact hsettled rest' hrest'
  | .error ⟨.tooDeep, rest⟩ => trivial

/-- A failure that is handed on is settled. -/
theorem SettledBy.of_error {f : List Token → Except Failure (α × List Token)}
    {g : List Token → Except Failure (β × List Token)} {failure : Failure}
    {ends' : List Token → List Token → Prop} (h : SettledBy ends' g ts (.error failure))
    (front : List Token) (heq : ∀ ts' failure', SameNext ts ts' → g ts' = .error failure' →
      f (front ++ ts') = .error failure') :
    SettledBy ends f (front ++ ts) (.error failure) := by
  match failure with
  | ⟨.expected what, rest⟩ =>
    obtain ⟨front', rfl, hsettled⟩ := h
    refine ⟨front ++ front', (List.append_assoc _ _ _).symm, fun rest' hrest' => ?_⟩
    rw [List.append_assoc]
    exact heq _ _ (hrest'.append front') (hsettled rest' hrest')
  | ⟨.tooDeep, rest⟩ => trivial

end Settled

namespace Parser

variable {ends : List Token → List Token → Prop} {p p' : Parser α}

theorem Settles.mono (h : p.Settles ends p') {ends' : List Token → List Token → Prop}
    (hle : ∀ {rest rest'}, ends' rest rest' → ends rest rest') : p.Settles ends' p' := by
  intro ts
  have hts := h ts
  generalize p.run ts = result at hts ⊢
  match result with
  | .ok (a, rest) =>
    obtain ⟨front, rfl, hsettled⟩ := hts
    exact ⟨front, rfl, fun rest' hrest' => hsettled rest' (hle hrest')⟩
  | .error ⟨.expected what, rest⟩ => exact hts
  | .error ⟨.tooDeep, rest⟩ => trivial

theorem Settles.of_ok (h : p.Settles ends p') {ts rest : List Token} {a : α}
    (hrun : p.run ts = .ok (a, rest)) : ∃ front, ts = front ++ rest ∧
      ∀ rest', ends rest rest' → p'.run (front ++ rest') = .ok (a, rest') := by
  have hts := h ts
  rwa [hrun] at hts

theorem Settles.of_error (h : p.Settles ends p') {ts : List Token} {failure : Failure}
    (hrun : p.run ts = .error failure) : SettledBy ends p'.run ts (.error failure) := by
  have hts := h ts
  rwa [hrun] at hts

theorem settles_pure (a : α) : (pure a : Parser α).Settles ends (pure a) :=
  fun _ => ⟨[], rfl, fun _ _ => rfl⟩

theorem settles_fail (what : Expectation) :
    (fail (.expected what) : Parser α).Settles ends (fail (.expected what)) :=
  fun _ => ⟨[], rfl, fun _ _ => rfl⟩

theorem settles_tooDeep (p' : Parser α) : (fail .tooDeep).Settles ends p' :=
  fun _ => trivial

theorem Settles.bind (hp : p.Settles SameNext p') {f f' : α → Parser β}
    (hends : ∀ {rest rest'}, ends rest rest' → SameNext rest rest')
    (hf : ∀ a, (f a).Settles ends (f' a)) : (p >>= f).Settles ends (p' >>= f') := by
  intro ts
  rw [run_bind]
  cases hrun : p.run ts with
  | error failure =>
    refine (hp.of_error hrun).of_error [] fun ts' failure' _ hfail => ?_
    rw [List.nil_append, run_bind, hfail]
  | ok result =>
    obtain ⟨a, between⟩ := result
    obtain ⟨front, rfl, hsettled⟩ := hp.of_ok hrun
    exact (hf a between).behind hends front fun ts' hts' => run_bind_of_ok (hsettled ts' hts')

/-- What is made of a result without reading on is settled with it. -/
theorem Settles.map (hp : p.Settles ends p') {f : α → Parser β} (hf : ∀ a, ∃ b, f a = pure b) :
    (p >>= f).Settles ends (p' >>= f) := by
  intro ts
  rw [run_bind]
  cases hrun : p.run ts with
  | error failure =>
    refine (hp.of_error hrun).of_error [] fun ts' failure' _ hfail => ?_
    rw [List.nil_append, run_bind, hfail]
  | ok result =>
    obtain ⟨a, rest⟩ := result
    obtain ⟨front, rfl, hsettled⟩ := hp.of_ok hrun
    obtain ⟨b, hb⟩ := hf a
    simp only [hb, run_pure]
    refine ⟨front, rfl, fun rest' hrest' => ?_⟩
    rw [run_bind_of_ok (hsettled rest' hrest'), hb, run_pure]

/-- Where `t` comes first, the parser takes it, unless it has no level free. -/
def Takes (p : Parser α) (t : Token) : Prop :=
  (∃ a, p.run [t] = .ok (a, [])) ∨ ∃ rest, p.run [t] = .error ⟨.tooDeep, rest⟩

theorem Takes.map (h : p.Takes t) {f : α → Parser β} (hf : ∀ a, ∃ b, f a = pure b) :
    (p >>= f).Takes t := by
  rcases h with ⟨a, hrun⟩ | ⟨rest, hrun⟩
  · obtain ⟨b, hb⟩ := hf a
    exact .inl ⟨b, by rw [run_bind_of_ok hrun, hb, run_pure]⟩
  · exact .inr ⟨rest, by rw [run_bind, hrun]⟩

/-- If the parser takes the first token, what is settled needs to be so behind this token only. -/
theorem Settles.behind_of_takes (h : p.Settles SameNext p') {t : Token} (ht : p'.Takes t)
    {f : List Token → Except Failure (α × List Token)} {ts : List Token}
    (heq : ∀ front ts' ts'', ts = front ++ ts' → SameNext ts' ts'' →
      f (t :: (front ++ ts'')) = p'.run (t :: (front ++ ts''))) :
    SettledBy SameNext f (t :: ts) (p.run (t :: ts)) := by
  have hsettled := h (t :: ts)
  generalize p.run (t :: ts) = result at hsettled ⊢
  match result with
  | .error ⟨.tooDeep, rest⟩ => trivial
  | .ok (a, rest) =>
    obtain ⟨front, hts, hrun⟩ := hsettled
    cases front with
    | nil =>
      -- the result would also be found where `t` is the only token
      obtain rfl : t :: ts = rest := hts
      have hhere := hrun [t] rfl
      rcases ht with ⟨a', ht⟩ | ⟨rest', ht⟩ <;> simp [ht] at hhere
    | cons t' front =>
      cases hts
      exact ⟨t :: front, rfl, fun rest' hrest' =>
        (heq front rest rest' rfl hrest').trans (hrun rest' hrest')⟩
  | .error ⟨.expected what, rest⟩ =>
    obtain ⟨front, hts, hrun⟩ := hsettled
    cases front with
    | nil =>
      obtain rfl : t :: ts = rest := hts
      have hhere := hrun [t] rfl
      rcases ht with ⟨a', ht⟩ | ⟨rest', ht⟩ <;> simp [ht] at hhere
    | cons t' front =>
      cases hts
      exact ⟨t :: front, rfl, fun rest' hrest' =>
        (heq front rest rest' rfl hrest').trans (hrun rest' hrest')⟩

theorem settles_look {f f' : List Token → Parser α}
    (hends : ∀ {rest rest'}, ends rest rest' → SameNext rest rest')
    (hf : ∀ ts, (f ts).Settles ends (f' ts)) (hnext : ∀ ts ts', SameNext ts ts' → f' ts' = f' ts) :
    (look f).Settles ends (look f') := by
  intro ts
  refine (hf ts ts).behind hends [] fun ts' hts' => ?_
  rw [List.nil_append, run_look, hnext ts ts' hts']

theorem Settles.choose {f f' : Token → Option (Parser α)} {otherwise otherwise' : Parser α}
    (hends : ∀ {rest rest'}, ends rest rest' → SameNext rest rest')
    (hf : ∀ t, Option.Rel (Settles ends) (f t) (f' t))
    (hotherwise : otherwise.Settles ends otherwise') :
    (choose f otherwise).Settles ends (choose f' otherwise') := by
  intro ts
  cases ts with
  | nil =>
    refine (hotherwise []).behind hends [] fun ts' hts' => ?_
    obtain rfl := sameNext_nil.1 hts'
    rfl
  | cons t ts =>
    have ht := hf t
    rw [run_choose_cons]
    cases hp : f t with
    | none =>
      cases hp' : f' t with
      | none =>
        refine (hotherwise (t :: ts)).behind hends [] fun ts' hts' => ?_
        obtain ⟨ts', rfl⟩ := sameNext_cons.1 hts'
        rw [List.nil_append, run_choose_cons, hp']
      | some p' =>
        rw [hp, hp'] at ht
        cases ht
    | some p =>
      cases hp' : f' t with
      | none =>
        rw [hp, hp'] at ht
        cases ht
      | some p' =>
        rw [hp, hp'] at ht
        cases ht with
        | some ht =>
          refine (ht ts).behind hends [t] fun ts' _ => ?_
          rw [List.singleton_append, run_choose_cons, hp']

theorem settles_expect (sign : Symbol) (what : Expectation) :
    (expect sign what).Settles SameNext (expect sign what) := by
  refine Settles.choose id (fun t => ?_) (settles_fail _)
  split
  · exact .some (settles_pure _)
  · exact .none

end Parser

/-! ### The parsers of the language -/

/-- All parsers that open a level are settled by those of `inner'`. -/
structure Deeper.Settles (inner inner' : Deeper) : Prop where
  operand : inner.operand.Settles SameNext inner'.operand
  expression : inner.expression.Settles SameNext inner'.expression
  conditional : inner.conditional.Settles SameEnd inner'.conditional
  body : inner.body.Settles SameNext inner'.body

section Expressions

variable {inner inner' : Deeper}

theorem primary_settles (h : inner.Settles inner') :
    (primary inner).Settles SameNext (primary inner') := by
  refine Settles.choose id (fun t => ?_) (settles_fail _)
  split
  · exact .some (settles_pure _)
  · exact .some (settles_pure _)
  · exact .some (settles_pure _)
  · exact .some (settles_pure _)
  · exact .some (h.expression.bind id fun _ => (settles_expect _ _).bind id fun _ => settles_pure _)
  · exact .none

theorem power_settles (h : inner.Settles inner') :
    (power inner).Settles SameNext (power inner') := by
  refine (primary_settles h).bind id fun base => ?_
  refine Settles.choose id (fun t => ?_) (settles_pure base)
  split
  · exact .some (h.operand.map fun _ => ⟨_, rfl⟩)
  · exact .none

theorem unary_settles (h : inner.Settles inner') :
    (unary inner).Settles SameNext (unary inner') := by
  refine Settles.choose id (fun t => ?_) (power_settles h)
  cases UnaryOp.ofLexeme? t.lexeme with
  | none => exact .none
  | some op => exact .some (h.operand.map fun _ => ⟨_, rfl⟩)

theorem chainFrom_of_error {op? : Lexeme → Option BinaryOp} {next : Parser Expr} {t : Token}
    {op : BinaryOp} {rest : List Token} {failure : Failure} (hop : op? t.lexeme = some op)
    (hnext : next.run rest = .error failure) (left : Expr) :
    chainFrom op? next left (t :: rest) = .error failure := by
  rw [chainFrom]
  split
  · next hnone => simp [hop] at hnone
  · split
    · next failure' herror =>
      obtain rfl : failure = failure' := by simpa [hnext] using herror
      rfl
    · next right' rest₁ hok => simp [hnext] at hok

theorem chainFrom_settled (op? : Lexeme → Option BinaryOp) {next next' : Parser Expr}
    (hnext : next.Settles SameNext next') (left : Expr) (ts : List Token) :
    SettledBy SameNext (chainFrom op? next' left) ts (chainFrom op? next left ts) := by
  fun_induction chainFrom op? next left ts with
  | case1 left =>
    refine ⟨[], rfl, fun rest' hrest' => ?_⟩
    obtain rfl := sameNext_nil.1 hrest'
    exact chainFrom_nil op? next' left
  | case2 left t rest hop =>
    refine ⟨[], rfl, fun rest' hrest' => ?_⟩
    obtain ⟨ts', rfl⟩ := sameNext_cons.1 hrest'
    exact chainFrom_of_none hop next' left ts'
  | case3 left t rest op hop failure hrun =>
    exact (hnext.of_error hrun).of_error [t] fun ts' failure' _ hfail =>
      chainFrom_of_error hop hfail left
  | case4 left t rest op hop right rest' hrun hle ih =>
    obtain ⟨front, rfl, hsettled⟩ := hnext.of_ok hrun
    refine ih.behind id (t :: front) fun ts' hts' => ?_
    exact chainFrom_of_ok hop (hsettled ts' hts') left

theorem chain_settles (op? : Lexeme → Option BinaryOp) {next next' : Parser Expr}
    (hnext : next.Settles SameNext next') :
    (chain op? next).Settles SameNext (chain op? next') :=
  hnext.bind id fun first => chainFrom_settled op? hnext first

theorem anyExpression_settles (h : inner.Settles inner') :
    (anyExpression inner).Settles SameNext (anyExpression inner') := by
  have hlevels : ∀ (levels : List (Lexeme → Option BinaryOp)) {next next' : Parser Expr},
      next.Settles SameNext next' →
      (levels.foldl (fun next op? => chain op? next) next).Settles SameNext
        (levels.foldl (fun next op? => chain op? next) next') := by
    intro levels
    induction levels with
    | nil => exact id
    | cons op? levels ih => exact fun hnext => ih (chain_settles op? hnext)
  exact hlevels binaryLevels (unary_settles h)

end Expressions

section Statements

variable {inner inner' : Deeper}

theorem block_settles (h : inner.Settles inner') :
    (block inner).Settles SameNext (block inner') :=
  (settles_expect _ _).bind id fun _ => h.body

theorem run_elseBranch_of_error {branch : Parser α} {ts ts' : List Token} {failure : Failure}
    (h : takeElse? ts = some ts') (hbranch : branch.run ts' = .error failure) :
    (elseBranch branch).run ts = .error failure := by
  simp [elseBranch, h, hbranch]

theorem elseBranch_settles {branch branch' : Parser α} (h : branch.Settles SameEnd branch') :
    (elseBranch branch).Settles SameEnd (elseBranch branch') := by
  intro ts
  cases htake : takeElse? ts with
  | none =>
    rw [run_elseBranch_of_none htake]
    exact ⟨[], rfl, fun rest' hrest' => run_elseBranch_of_none (hrest'.takeElse?_eq htake)⟩
  | some after =>
    obtain ⟨newlines, t, rfl, ht, hnewlines⟩ := of_takeElse? htake
    have htake' : ∀ ts', takeElse? (newlines ++ t :: ts') = some ts' :=
      takeElse?_newlines hnewlines ht
    cases hrun : branch.run after with
    | error failure =>
      rw [run_elseBranch_of_error htake hrun, List.append_cons]
      refine (h.of_error hrun).of_error _ fun ts' failure' _ hfail => ?_
      rw [← List.append_cons]
      exact run_elseBranch_of_error (htake' ts') hfail
    | ok result =>
      obtain ⟨a, rest⟩ := result
      obtain ⟨front, rfl, hsettled⟩ := h.of_ok hrun
      rw [run_elseBranch_of_some htake hrun]
      refine ⟨newlines ++ t :: front, by simp, fun rest' hrest' => ?_⟩
      rw [List.append_assoc]
      exact run_elseBranch_of_some (htake' (front ++ rest')) (hsettled rest' hrest')

theorem alternative_settles (h : inner.Settles inner') :
    (alternative inner).Settles SameEnd (alternative inner') := by
  refine settles_look SameEnd.next (fun ts => ?_) fun ts ts' hts' => ?_
  · split
    · exact h.conditional.map fun _ => ⟨_, rfl⟩
    · exact (block_settles h).mono SameEnd.next
  · -- only the first token matters, and it is the same one
    cases ts with
    | nil =>
      obtain rfl := sameNext_nil.1 hts'
      rfl
    | cons t ts =>
      obtain ⟨ts', rfl⟩ := sameNext_cons.1 hts'
      obtain ⟨lexeme, span⟩ := t
      cases lexeme with
      | keyword word => cases word <;> rfl
      | _ => rfl

theorem conditionalAfter_settles (h : inner.Settles inner') (start : Span) :
    (conditionalAfter inner start).Settles SameEnd (conditionalAfter inner' start) := by
  refine h.expression.bind SameEnd.next fun condition => ?_
  refine (block_settles h).bind SameEnd.next fun ⟨body, last⟩ => ?_
  refine (elseBranch_settles (alternative_settles h)).map fun found => ?_
  cases found with
  | none => exact ⟨_, rfl⟩
  | some r => exact ⟨_, rfl⟩

theorem loopAfter_settles (h : inner.Settles inner') (start : Span) :
    (loopAfter inner start).Settles SameNext (loopAfter inner' start) :=
  h.expression.bind id fun _ => (block_settles h).map fun _ => ⟨_, rfl⟩

theorem printAfter_settles (h : inner.Settles inner') (start : Span) :
    (printAfter inner start).Settles SameNext (printAfter inner' start) :=
  (settles_expect _ _).bind id fun _ => h.expression.bind id fun _ =>
    (settles_expect _ _).map fun _ => ⟨_, rfl⟩

theorem ifStatement_settles (h : inner.Settles inner') :
    (ifStatement inner).Settles SameEnd (ifStatement inner') := by
  refine Settles.choose SameEnd.next (fun t => ?_) (settles_fail _)
  split
  · exact .some (conditionalAfter_settles h t.span)
  · exact .none

theorem assignmentAhead?_append {front ts ts' : List Token} (hts' : SameNext ts ts')
    (hfront : front ≠ []) : assignmentAhead? (front ++ ts') = assignmentAhead? (front ++ ts) := by
  match front with
  | [] => exact absurd rfl hfront
  | [t] =>
    cases ts with
    | nil =>
      obtain rfl := sameNext_nil.1 hts'
      rfl
    | cons t' ts =>
      obtain ⟨ts', rfl⟩ := sameNext_cons.1 hts'
      obtain ⟨lexeme, span⟩ := t
      cases lexeme <;> rfl
  | t :: t' :: front =>
    obtain ⟨lexeme, span⟩ := t
    cases lexeme <;> rfl

theorem run_assignmentOrExpression_of_some {name : String} {span : Span} {op : AssignOp}
    {ts : List Token} (h : assignmentAhead? ts = some (name, span, op)) :
    (assignmentOrExpression inner).run ts =
      (do
        let value ← inner.expression
        return .assign name op value (span.merge value.span) : Parser Stmt).run (ts.drop 2) := by
  rw [assignmentOrExpression, run_look, h]
  rfl

theorem run_assignmentOrExpression_of_none {ts : List Token} (h : assignmentAhead? ts = none) :
    (assignmentOrExpression inner).run ts =
      (do
        let value ← inner.expression
        return .expression value value.span : Parser Stmt).run ts := by
  rw [assignmentOrExpression, run_look, h]

/-- Two tokens ahead decide between an assignment and an expression. If the first one is a name,
then an expression reads it, and the second one is at most the next token behind what has been
read. -/
theorem assignmentOrExpression_settles (h : inner.Settles inner')
    (hnames : ∀ text span, inner'.expression.Takes ⟨.name text, span⟩) :
    (assignmentOrExpression inner).Settles SameNext (assignmentOrExpression inner') := by
  intro ts
  cases hahead : assignmentAhead? ts with
  | some found =>
    obtain ⟨name, span, op⟩ := found
    obtain ⟨t, ts', rfl, ht⟩ := of_assignmentAhead? hahead
    have hvalue := (h.expression.map (f := fun value =>
      pure (Stmt.assign name op value (span.merge value.span))) fun _ => ⟨_, rfl⟩) ts'
    rw [run_assignmentOrExpression_of_some hahead]
    refine hvalue.behind id [⟨.name name, span⟩, t] fun ts'' _ => ?_
    exact run_assignmentOrExpression_of_some hahead
  | none =>
    have hvalue := h.expression.map (f := fun value => pure (Stmt.expression value value.span))
      fun _ => ⟨_, rfl⟩
    rw [run_assignmentOrExpression_of_none hahead]
    by_cases hname : ∃ text span ts', ts = ⟨.name text, span⟩ :: ts'
    · obtain ⟨text, span, ts', rfl⟩ := hname
      refine hvalue.behind_of_takes ((hnames text span).map fun _ => ⟨_, rfl⟩) ?_
      rintro front ts₁ ts₂ rfl hnext
      refine run_assignmentOrExpression_of_none ?_
      rw [← hahead]
      exact assignmentAhead?_append hnext (List.cons_ne_nil _ front)
    · refine (hvalue ts).behind id [] fun ts' hts' => run_assignmentOrExpression_of_none ?_
      cases hahead' : assignmentAhead? ts' with
      | none => exact hahead'
      | some found =>
        obtain ⟨text, span, op⟩ := found
        obtain ⟨t, ts'', rfl, -⟩ := of_assignmentAhead? hahead'
        obtain ⟨ts, rfl⟩ := sameNext_cons.1 hts'.symm
        exact absurd ⟨text, span, ts, rfl⟩ hname

theorem statement_settles (h : inner.Settles inner')
    (hnames : ∀ text span, inner'.expression.Takes ⟨.name text, span⟩) :
    (statement inner).Settles SameEnd (statement inner') := by
  refine Settles.choose SameEnd.next (fun t => ?_)
    ((assignmentOrExpression_settles h hnames).mono SameEnd.next)
  split
  · exact .some ((printAfter_settles h t.span).mono SameEnd.next)
  · exact .some ((conditionalAfter_settles h t.span).map fun _ => ⟨_, rfl⟩)
  · exact .some ((loopAfter_settles h t.span).mono SameEnd.next)
  · exact .some (settles_pure _)
  · exact .some (settles_pure _)
  · exact .none

end Statements

/-! ### Lists of statements -/

section Lists

variable {item item' : Parser Stmt} {t : Token} {ts : List Token}

theorem exists_cons_of_append {front rest : List Token} {t' : Token}
    (h : t :: ts = front ++ t' :: rest) (rest' : List Token) :
    ∃ ts', front ++ t' :: rest' = t :: ts' := by
  have hsame : SameNext (t' :: rest) (t' :: rest') := rfl
  exact sameNext_cons.1 (h ▸ hsame.append front)

/-- A statement in front of separators and of what is settled is read in the same way. -/
theorem Parser.Settles.of_separators (hitem : item.Settles SameEnd item') {s : Stmt}
    {rest : List Token} (hrun : item.run ts = .ok (s, t :: rest)) :
    ∃ front seps, ts = front ++ t :: (seps ++ rest.dropWhile (·.lexeme.isSeparator)) ∧
      ∀ ts', SameNext (rest.dropWhile (·.lexeme.isSeparator)) ts' →
        item'.run (front ++ t :: (seps ++ ts')) = .ok (s, t :: (seps ++ ts')) ∧
          (seps ++ ts').dropWhile (·.lexeme.isSeparator) = ts' := by
  obtain ⟨front, rfl, hsettled⟩ := hitem.of_ok hrun
  obtain ⟨seps, hseps, hall⟩ := exists_separators rest
  have hnot := not_separator_head_dropWhile rest
  generalize rest.dropWhile (·.lexeme.isSeparator) = after at hseps hnot
  subst hseps
  refine ⟨front, seps, rfl, fun ts' hts' => ⟨?_, ?_⟩⟩
  · refine hsettled _ (hts'.sameEnd (fun t ht hnewline => ?_) (t :: seps))
    have hsep := hnot t ht
    rw [hnewline] at hsep
    cases hsep
  · exact dropWhile_separators_append hall (by rwa [hts'])

theorem bodyFrom_settled (hitem : item.Settles SameEnd item') (before : List Stmt)
    (ts : List Token) :
    SettledBy SameNext (bodyFrom item' before) ts (bodyFrom item before ts) := by
  fun_induction bodyFrom item before ts with
  | case1 before =>
    refine ⟨[], rfl, fun rest' hrest' => ?_⟩
    obtain rfl := sameNext_nil.1 hrest'
    rw [List.nil_append, bodyFrom]
  | case2 before t ts ht =>
    exact ⟨[t], rfl, fun rest' _ => bodyFrom_brace ht⟩
  | case3 before t ts ht failure hrun =>
    refine (hitem.of_error hrun).of_error [] fun ts' failure' hts' hfail => ?_
    obtain ⟨ts', rfl⟩ := sameNext_cons.1 hts'
    exact bodyFrom_of_error ht hfail
  | case4 before t ts ht s hrun =>
    obtain ⟨front, hts, hsettled⟩ := hitem.of_ok hrun
    refine ⟨front, hts, fun rest' hrest' => ?_⟩
    obtain rfl := sameNext_nil.1 hrest'
    rw [← hts]
    exact bodyFrom_of_end ht (hts ▸ hsettled [] ⟨rfl, id⟩)
  | case5 before t ts ht s t' rest hrun ht' =>
    obtain ⟨front, hts, hsettled⟩ := hitem.of_ok hrun
    refine ⟨front ++ [t'], by simpa using hts, fun rest' _ => ?_⟩
    have hrun' := hsettled (t' :: rest') (sameEnd_cons (by simp [ht']) rest rest')
    rw [List.append_assoc, List.singleton_append]
    obtain ⟨ts', hts'⟩ := exists_cons_of_append hts rest'
    rw [hts'] at hrun' ⊢
    exact bodyFrom_of_brace ht hrun' ht'
  | case6 before t ts ht s t' rest hrun ht' hsep hle ih =>
    obtain ⟨front, seps, hts, hsettled⟩ := hitem.of_separators hrun
    rw [hts, List.append_cons, ← List.append_assoc]
    refine ih.behind id _ fun ts' hts' => ?_
    obtain ⟨hrun', hdrop⟩ := hsettled ts' hts'
    rw [List.append_assoc, ← List.append_cons]
    obtain ⟨ts'', hts''⟩ := exists_cons_of_append hts (seps ++ ts')
    rw [hts''] at hrun' ⊢
    rw [bodyFrom_of_separator ht hrun' hsep, hdrop]
  | case7 before t ts ht s t' rest hrun ht' hsep =>
    obtain ⟨front, hts, hsettled⟩ := hitem.of_ok hrun
    refine ⟨front, hts, fun rest' hrest' => ?_⟩
    obtain ⟨rest', rfl⟩ := sameNext_cons.1 hrest'
    have hnewline : t'.lexeme ≠ .newline := fun hnewline => hsep (by rw [hnewline]; rfl)
    have hrun' := hsettled _ (sameEnd_cons hnewline rest rest')
    obtain ⟨ts', hts'⟩ := exists_cons_of_append hts rest'
    rw [hts'] at hrun' ⊢
    exact bodyFrom_of_other ht hrun' ht' (Bool.eq_false_iff.2 hsep)

theorem bodyAfterBrace_settles (hitem : item.Settles SameEnd item') :
    (bodyAfterBrace item).Settles SameNext (bodyAfterBrace item') := by
  intro ts
  obtain ⟨seps, hseps, hall⟩ := exists_separators ts
  have hbody := bodyFrom_settled hitem [] (ts.dropWhile (·.lexeme.isSeparator))
  have hnot := not_separator_head_dropWhile ts
  have hrun : (bodyAfterBrace item).run ts =
      bodyFrom item [] (ts.dropWhile (·.lexeme.isSeparator)) := rfl
  rw [hrun]
  generalize ts.dropWhile (·.lexeme.isSeparator) = after at hseps hbody hnot
  subst hseps
  refine hbody.behind id seps fun ts' hts' => ?_
  show bodyFrom item' [] ((seps ++ ts').dropWhile (·.lexeme.isSeparator)) = _
  rw [dropWhile_separators_append hall (by rwa [hts'])]

/-- Where the statements of a program stop to be such is settled, too. -/
theorem statementsFrom_settled (hitem : item.Settles SameEnd item') {before : List Stmt}
    {ts rest : List Token} {what : Expectation}
    (h : statementsFrom item before ts = .error ⟨.expected what, rest⟩) :
    ∃ front, ts = front ++ rest ∧ ∀ rest', SameNext rest rest' →
      statementsFrom item' before (front ++ rest') = .error ⟨.expected what, rest'⟩ := by
  fun_induction statementsFrom item before ts with
  | case1 => cases h
  | case2 before t ts failure hrun =>
    cases h
    obtain ⟨front, hts, hsettled⟩ := hitem.of_error hrun
    refine ⟨front, hts, fun rest' hrest' => ?_⟩
    have hrun' := hsettled rest' hrest'
    have hsame := hrest'.append front
    rw [← hts] at hsame
    obtain ⟨ts', hts'⟩ := sameNext_cons.1 hsame
    rw [hts'] at hrun' ⊢
    exact statementsFrom_of_error hrun'
  | case3 => cases h
  | case4 before t ts s t' rest' hrun hsep hle ih =>
    obtain ⟨front, seps, hts, hsettled⟩ := hitem.of_separators hrun
    obtain ⟨front', hdrop, hrest⟩ := ih h
    refine ⟨front ++ t' :: (seps ++ front'), by rw [hts, hdrop]; simp, fun rest'' hrest'' => ?_⟩
    obtain ⟨hrun', hdrop'⟩ := hsettled (front' ++ rest'') (hdrop ▸ hrest''.append front')
    rw [List.append_assoc, List.cons_append, List.append_assoc]
    obtain ⟨ts', hts'⟩ := exists_cons_of_append hts (seps ++ (front' ++ rest''))
    rw [hts'] at hrun' ⊢
    rw [statementsFrom_of_separator hrun' hsep, hdrop', hrest rest'' hrest'']
  | case5 before t ts s t' rest' hrun hsep =>
    cases h
    obtain ⟨front, hts, hsettled⟩ := hitem.of_ok hrun
    refine ⟨front, hts, fun rest'' hrest'' => ?_⟩
    obtain ⟨rest'', rfl⟩ := sameNext_cons.1 hrest''
    have hnewline : t'.lexeme ≠ .newline := fun hnewline => hsep (by rw [hnewline]; rfl)
    have hrun' := hsettled _ (sameEnd_cons hnewline rest' rest'')
    obtain ⟨ts', hts'⟩ := exists_cons_of_append hts rest''
    rw [hts'] at hrun' ⊢
    exact statementsFrom_of_other hrun' (Bool.eq_false_iff.2 hsep)

end Lists

/-! ### Free levels -/

theorem takes_name (n : Nat) (text : String) (span : Span) :
    (deeper n).expression.Takes ⟨.name text, span⟩ := by
  cases n with
  | zero => exact .inr ⟨_, rfl⟩
  | succ n =>
    have hname : Expr.Written (n + 1) .whole [⟨.name text, span⟩] (.name text span) :=
      .whole_of_primary (.name text span)
    have hend : EndsOperand Rank.whole.bound [] := nofun
    exact .inl ⟨_, hname.run_expression hend⟩

/-- Whatever is read or missed when `n` levels are free is so when more are. -/
theorem deeper_settles {n n' : Nat} (hle : n ≤ n') : (deeper n).Settles (deeper n') := by
  induction n generalizing n' with
  | zero => exact ⟨settles_tooDeep _, settles_tooDeep _, settles_tooDeep _, settles_tooDeep _⟩
  | succ n ih =>
    obtain ⟨m, rfl⟩ := Nat.exists_eq_add_of_lt hle
    have h : (deeper n).Settles (deeper (n + m)) := ih (Nat.le_add_right n m)
    exact ⟨unary_settles h, anyExpression_settles h, ifStatement_settles h,
      bodyAfterBrace_settles (statement_settles h (takes_name _))⟩

end Kestrel
