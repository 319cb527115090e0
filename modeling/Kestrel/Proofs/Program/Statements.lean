import Kestrel.Proofs.Program.Expressions

/-!
# Reading statements

The parsers of statements and blocks read what some tokens write and nothing else. A statement
ends in front of a separator, a closing brace or the end; an `if` needs moreover that no `else`
comes next, as it would read on with it.

## Main definitions

- `EndsStatement` — the tokens ahead end a statement

## Main statements

- `Stmt.Written.read`, `Stmt.WrittenAll.read_program` — what tokens write is read
- `Stmt.sound`, `written_of_statementsFrom` — what is read is written
-/

namespace Kestrel

open Kestrel.Parser

/-! ### Tokens ahead -/

theorem takeElse?_newline {t : Token} (h : t.lexeme = .newline) (rest : List Token) :
    takeElse? (t :: rest) = takeElse? rest := by
  rw [takeElse?, if_pos h]

theorem takeElse?_else {t : Token} (h : t.lexeme = .keyword .elseKw) (rest : List Token) :
    takeElse? (t :: rest) = some rest := by
  simp [takeElse?, h]

theorem takeElse?_other {t : Token} (h : t.lexeme ≠ .newline) (h' : t.lexeme ≠ .keyword .elseKw)
    (rest : List Token) : takeElse? (t :: rest) = none := by
  rw [takeElse?, if_neg h, if_neg h']

theorem takeElse?_newlines {newlines : List Token} {t : Token}
    (hnewlines : ∀ t' ∈ newlines, t'.lexeme = .newline) (ht : t.lexeme = .keyword .elseKw)
    (rest : List Token) : takeElse? (newlines ++ t :: rest) = some rest := by
  induction newlines with
  | nil => exact takeElse?_else ht rest
  | cons t' newlines ih =>
    obtain ⟨ht', hnewlines'⟩ := List.forall_mem_cons.1 hnewlines
    exact (takeElse?_newline ht' _).trans (ih hnewlines')

theorem of_takeElse? {ts rest : List Token} (h : takeElse? ts = some rest) :
    ∃ front t, ts = front ++ t :: rest ∧ t.lexeme = .keyword .elseKw ∧
      ∀ t' ∈ front, t'.lexeme = .newline := by
  induction ts with
  | nil => cases h
  | cons t ts ih =>
    by_cases hnewline : t.lexeme = .newline
    · rw [takeElse?_newline hnewline] at h
      obtain ⟨front, t', rfl, ht', hfront⟩ := ih h
      exact ⟨t :: front, t', rfl, ht', List.forall_mem_cons.2 ⟨hnewline, hfront⟩⟩
    · by_cases helse : t.lexeme = .keyword .elseKw
      · rw [takeElse?_else helse] at h
        cases h
        exact ⟨[], t, rfl, helse, nofun⟩
      · rw [takeElse?_other hnewline helse] at h
        cases h

/-- The tokens end a statement: a separator, a closing brace or nothing comes next, and no `else`
after newlines. -/
structure EndsStatement (rest : List Token) : Prop where
  head : ∀ t rest', rest = t :: rest' →
    t.lexeme.isSeparator = true ∨ t.lexeme = .symbol .rightBrace
  takeElse?_eq : takeElse? rest = none

theorem endsStatement_nil : EndsStatement [] :=
  ⟨fun _ _ h => (List.cons_ne_nil _ _ h.symm).elim, rfl⟩

theorem endsStatement_brace {t : Token} (h : t.lexeme = .symbol .rightBrace) (rest : List Token) :
    EndsStatement (t :: rest) := by
  refine ⟨?_, takeElse?_other (by simp [h]) (by simp [h]) rest⟩
  rintro t' rest' hts
  cases hts
  exact .inr h

theorem EndsStatement.endsOperand {rest : List Token} (h : EndsStatement rest) (bound : Nat) :
    EndsOperand bound rest := by
  intro t rest' hts op hop
  rcases h.head t rest' hts with hsep | hbrace
  · rw [hop] at hsep
    cases op <;> cases hsep
  · rw [hop] at hbrace
    cases op <;> cases hbrace

theorem endsOperand_cons_symbol {t : Token} {sign : Symbol} (h : t.lexeme = .symbol sign)
    (hsign : sign ∈ [Symbol.leftBrace, .rightParen]) (bound : Nat) (rest : List Token) :
    EndsOperand bound (t :: rest) := by
  refine endsOperand_cons_of_not (fun op hop => ?_) bound rest
  rw [h] at hop
  cases op <;> cases hop <;> simp at hsign

/-! ### The first lexeme of a statement -/

/-- Lexemes that may be the first ones of a statement: none of those that end one. -/
structure Lexeme.StartsStatement (u : Lexeme) : Prop where
  not_separator : u.isSeparator = false
  ne_else : u ≠ .keyword .elseKw
  ne_brace : u ≠ .symbol .rightBrace

theorem Lexeme.startsStatement_of_expression {u : Lexeme} (h : u.isOfExpression = true) :
    u.StartsStatement := by
  constructor
  · cases u with
    | symbol sign => cases sign <;> first | rfl | cases h
    | newline => cases h
    | _ => rfl
  · rintro rfl
    cases h
  · rintro rfl
    cases h

theorem Stmt.Derives.exists_cons {n : Nat} {us : List Lexeme} {s : Stmt}
    (h : Stmt.Derives n us s) : ∃ u us', us = u :: us' ∧ u.StartsStatement := by
  cases h with
  | expression he =>
    obtain ⟨u, us', rfl⟩ := he.exists_cons
    have hu := he.isOfExpression u List.mem_cons_self
    exact ⟨u, us', rfl, Lexeme.startsStatement_of_expression hu⟩
  | assign | print | conditional | whileDo | breakLoop | continueLoop =>
    exact ⟨_, _, rfl, rfl, nofun, nofun⟩

theorem Stmt.Written.exists_cons {n : Nat} {ts : List Token} {s : Stmt}
    (h : Stmt.Written n ts s) : ∃ t ts', ts = t :: ts' ∧ t.lexeme.StartsStatement := by
  obtain ⟨u, us, hus, hu⟩ := h.derives.exists_cons
  obtain ⟨t, ts', rfl, rfl, -⟩ := exists_of_lexemes_cons hus
  exact ⟨t, ts', rfl, hu⟩

theorem takeElse?_of_startsStatement {t : Token} (h : t.lexeme.StartsStatement)
    (rest : List Token) : takeElse? (t :: rest) = none := by
  refine takeElse?_other ?_ h.ne_else rest
  intro hnewline
  have hsep := h.not_separator
  rw [hnewline] at hsep
  cases hsep

/-- Separators do not start with an `else`. -/
theorem takeElse?_separators {seps rest : List Token}
    (hseps : ∀ t ∈ seps, t.lexeme.isSeparator = true) (hrest : takeElse? rest = none) :
    takeElse? (seps ++ rest) = none := by
  induction seps with
  | nil => exact hrest
  | cons t seps ih =>
    obtain ⟨ht, hseps'⟩ := List.forall_mem_cons.1 hseps
    by_cases hnewline : t.lexeme = .newline
    · exact (takeElse?_newline hnewline _).trans (ih hseps')
    · refine takeElse?_other hnewline ?_ _
      intro helse
      rw [helse] at ht
      cases ht

/-- No list of statements starts with an `else`. -/
theorem Stmt.WrittenAll.takeElse?_append {n : Nat} {ts : List Token} {ss : List Stmt}
    (h : Stmt.WrittenAll n ts ss) {rest : List Token} (hrest : takeElse? rest = none) :
    takeElse? (ts ++ rest) = none := by
  obtain ⟨seps, after, rfl, hseps, rfl | ⟨first, after', s, rfl, hs⟩⟩ := h.exists_first
  · rw [List.append_nil]
    exact takeElse?_separators hseps hrest
  · obtain ⟨t, first', rfl, ht⟩ := hs.exists_cons
    rw [List.append_assoc]
    exact takeElse?_separators hseps (takeElse?_of_startsStatement ht _)

/-- A separator ends a statement, if the tokens behind it are statements and then no `else`. -/
theorem Stmt.WrittenAll.endsStatement {n : Nat} {ts : List Token} {ss : List Stmt}
    (h : Stmt.WrittenAll n ts ss) {sep : Token} (hsep : sep.lexeme.isSeparator = true)
    {rest : List Token} (hrest : takeElse? rest = none) : EndsStatement (sep :: (ts ++ rest)) := by
  refine ⟨?_, (Stmt.WrittenAll.skip hsep h).takeElse?_append hrest⟩
  rintro t' rest' hts
  cases hts
  exact .inl hsep

/-! ### Simple statements -/

theorem AssignOp.ofLexeme?_eq_some {u : Lexeme} {op : AssignOp} :
    AssignOp.ofLexeme? u = some op ↔ u = op.lexeme := by
  constructor
  · intro h
    unfold AssignOp.ofLexeme? at h
    split at h <;> cases h <;> rfl
  · rintro rfl
    cases op <;> rfl

/-- Neither in an expression nor at the end of a statement does an assignment come next. -/
theorem AssignOp.ofLexeme?_eq_none {u : Lexeme}
    (h : u.isOfExpression = true ∨ u.isSeparator = true ∨ u = .symbol .rightBrace) :
    AssignOp.ofLexeme? u = none := by
  cases hop : AssignOp.ofLexeme? u with
  | none => rfl
  | some op =>
    obtain rfl := AssignOp.ofLexeme?_eq_some.1 hop
    cases op <;> simp [AssignOp.lexeme, Lexeme.isOfExpression, Lexeme.isSeparator] at h

theorem assignmentAhead?_eq_none {t : Token} {rest : List Token}
    (h : ∀ t' rest', rest = t' :: rest' → AssignOp.ofLexeme? t'.lexeme = none) :
    assignmentAhead? (t :: rest) = none := by
  unfold assignmentAhead?
  split
  · next text span t' rest' hts =>
    cases hts
    rw [h t' rest' rfl]
    rfl
  · rfl

theorem of_assignmentAhead? {ts : List Token} {name : String} {span : Span} {op : AssignOp}
    (h : assignmentAhead? ts = some (name, span, op)) :
    ∃ t rest, ts = ⟨.name name, span⟩ :: t :: rest ∧ t.lexeme = op.lexeme := by
  unfold assignmentAhead? at h
  split at h
  · next text span' t rest =>
    obtain ⟨op', hop, heq⟩ := Option.map_eq_some_iff.1 h
    cases heq
    exact ⟨t, rest, rfl, AssignOp.ofLexeme?_eq_some.1 hop⟩
  · cases h

theorem run_statement_of_expression (inner : Deeper) {t : Token}
    (h : t.lexeme.isOfExpression = true) (rest : List Token) :
    (statement inner).run (t :: rest) = (assignmentOrExpression inner).run (t :: rest) := by
  rw [statement, run_choose_cons]
  split
  · next p hp =>
    split at hp
    · next ht => rw [ht] at h; cases h
    · next ht => rw [ht] at h; cases h
    · next ht => rw [ht] at h; cases h
    · next ht => rw [ht] at h; cases h
    · next ht => rw [ht] at h; cases h
    · cases hp
  · rfl

theorem Expr.Written.run_expression {n : Nat} {ts : List Token} {e : Expr}
    (h : Expr.Written n .whole ts e) {rest : List Token}
    (hrest : EndsOperand Rank.whole.bound rest) :
    (deeper n).expression.run (ts ++ rest) = .ok (e, rest) :=
  h.reads.run hrest

theorem Expr.Written.exists_cons {n : Nat} {r : Rank} {ts : List Token} {e : Expr}
    (h : Expr.Written n r ts e) : ∃ t ts', ts = t :: ts' := by
  obtain ⟨u, us, hus⟩ := h.derives.exists_cons
  obtain ⟨t, ts', rfl, -, -⟩ := exists_of_lexemes_cons hus
  exact ⟨t, ts', rfl⟩

theorem read_expression {n : Nat} {ts : List Token} {e : Expr} (he : Expr.Written n .whole ts e)
    {rest : List Token} (hrest : EndsStatement rest) :
    (statement (deeper n)).run (ts ++ rest) = .ok (.expression e e.span, rest) := by
  have hrun := he.run_expression (hrest.endsOperand _)
  have hexpression : ∀ t ∈ ts, t.lexeme.isOfExpression = true :=
    fun t ht => he.derives.isOfExpression _ (List.mem_map_of_mem ht)
  obtain ⟨t, ts, rfl⟩ := he.exists_cons
  rw [List.cons_append] at hrun ⊢
  have hahead : assignmentAhead? (t :: (ts ++ rest)) = none := by
    refine assignmentAhead?_eq_none fun t' rest' hts => AssignOp.ofLexeme?_eq_none ?_
    -- the second token ends the statement, or is still one of the expression
    cases ts with
    | nil => exact .inr (hrest.head t' rest' hts)
    | cons t'' ts =>
      cases hts
      exact .inl (hexpression t' (by simp))
  rw [run_statement_of_expression _ (hexpression t List.mem_cons_self), assignmentOrExpression,
    run_look, hahead]
  exact run_bind_of_ok hrun

theorem read_assign {n : Nat} {ts : List Token} {e : Expr} (name : String) (op : AssignOp)
    (start sign : Span) (he : Expr.Written n .whole ts e) {rest : List Token}
    (hrest : EndsStatement rest) :
    (statement (deeper n)).run (⟨.name name, start⟩ :: ⟨op.lexeme, sign⟩ :: (ts ++ rest)) =
      .ok (.assign name op e (start.merge e.span), rest) := by
  have hahead : assignmentAhead? (⟨.name name, start⟩ :: ⟨op.lexeme, sign⟩ :: (ts ++ rest)) =
      some (name, start, op) := by
    rw [assignmentAhead?, AssignOp.ofLexeme?_eq_some.2 rfl]
    rfl
  rw [run_statement_of_expression _ rfl, assignmentOrExpression, run_look, hahead]
  exact run_bind_of_ok (he.run_expression (hrest.endsOperand _))

theorem read_print {n : Nat} {ts : List Token} {e : Expr} (start left right : Span)
    (he : Expr.Written n .whole ts e) (rest : List Token) :
    (statement (deeper n)).run (⟨.keyword .printKw, start⟩ :: ⟨.symbol .leftParen, left⟩ ::
      (ts ++ ⟨.symbol .rightParen, right⟩ :: rest)) = .ok (.print e (start.merge right), rest) := by
  have hopen : (expect .leftParen .parenAfterPrint).run (⟨.symbol .leftParen, left⟩ ::
      (ts ++ ⟨.symbol .rightParen, right⟩ :: rest)) =
        .ok (left, ts ++ ⟨.symbol .rightParen, right⟩ :: rest) := run_expect_cons rfl _
  have hends : EndsOperand Rank.whole.bound (⟨.symbol .rightParen, right⟩ :: rest) :=
    endsOperand_cons_symbol rfl (by decide) _ rest
  have hvalue := he.run_expression hends
  have hclose : (expect .rightParen .closingParen).run (⟨.symbol .rightParen, right⟩ :: rest) =
      .ok (right, rest) := run_expect_cons rfl rest
  simp [statement, run_choose_cons, printAfter, run_bind_of_ok hopen, run_bind_of_ok hvalue,
    run_bind_of_ok hclose]

/-! ### Lists of statements -/

section Lists

variable {item : Parser Stmt} {before : List Stmt} {s : Stmt} {t t' : Token}
  {ts rest : List Token} {failure : Failure}

theorem bodyFrom_brace (h : t.lexeme = .symbol .rightBrace) :
    bodyFrom item before (t :: rest) = .ok ((before.reverse, t.span), rest) := by
  rw [bodyFrom, if_pos h]

theorem bodyFrom_of_brace (hne : t.lexeme ≠ .symbol .rightBrace)
    (hitem : item.run (t :: ts) = .ok (s, t' :: rest)) (h : t'.lexeme = .symbol .rightBrace) :
    bodyFrom item before (t :: ts) = .ok (((s :: before).reverse, t'.span), rest) := by
  rw [bodyFrom, if_neg hne]
  split
  · next herror => simp [hitem] at herror
  · next hnil => simp [hitem] at hnil
  · next s₁ t₁ rest₁ hok =>
    obtain ⟨rfl, rfl, rfl⟩ : s = s₁ ∧ t' = t₁ ∧ rest = rest₁ := by simpa [hitem] using hok
    rw [if_pos h]

theorem bodyFrom_of_separator (hne : t.lexeme ≠ .symbol .rightBrace)
    (hitem : item.run (t :: ts) = .ok (s, t' :: rest)) (h : t'.lexeme.isSeparator = true) :
    bodyFrom item before (t :: ts) =
      bodyFrom item (s :: before) (rest.dropWhile (·.lexeme.isSeparator)) := by
  have hbrace : t'.lexeme ≠ .symbol .rightBrace := by
    intro hbrace
    rw [hbrace] at h
    cases h
  rw [bodyFrom, if_neg hne]
  split
  · next herror => simp [hitem] at herror
  · next hnil => simp [hitem] at hnil
  · next s₁ t₁ rest₁ hok =>
    obtain ⟨rfl, rfl, rfl⟩ : s = s₁ ∧ t' = t₁ ∧ rest = rest₁ := by simpa [hitem] using hok
    rw [if_neg hbrace, if_pos h]

theorem statementsFrom_of_end (hitem : item.run (t :: ts) = .ok (s, [])) :
    statementsFrom item before (t :: ts) = .ok (s :: before).reverse := by
  rw [statementsFrom]
  split
  · next herror => simp [hitem] at herror
  · next s₁ hok =>
    obtain rfl : s = s₁ := by simpa [hitem] using hok
    rfl
  · next hcons => simp [hitem] at hcons

theorem statementsFrom_of_separator (hitem : item.run (t :: ts) = .ok (s, t' :: rest))
    (h : t'.lexeme.isSeparator = true) :
    statementsFrom item before (t :: ts) =
      statementsFrom item (s :: before) (rest.dropWhile (·.lexeme.isSeparator)) := by
  rw [statementsFrom]
  split
  · next herror => simp [hitem] at herror
  · next hnil => simp [hitem] at hnil
  · next s₁ t₁ rest₁ hok =>
    obtain ⟨rfl, rfl, rfl⟩ : s = s₁ ∧ t' = t₁ ∧ rest = rest₁ := by simpa [hitem] using hok
    rw [if_pos h]

theorem bodyFrom_of_error (hne : t.lexeme ≠ .symbol .rightBrace)
    (hitem : item.run (t :: ts) = .error failure) :
    bodyFrom item before (t :: ts) = .error failure := by
  rw [bodyFrom, if_neg hne]
  split
  · next failure' herror =>
    obtain rfl : failure = failure' := by simpa [hitem] using herror
    rfl
  · next hnil => simp [hitem] at hnil
  · next hcons => simp [hitem] at hcons

theorem bodyFrom_of_end (hne : t.lexeme ≠ .symbol .rightBrace)
    (hitem : item.run (t :: ts) = .ok (s, [])) :
    bodyFrom item before (t :: ts) = .error ⟨.expected .endOfStatementOrBrace, []⟩ := by
  rw [bodyFrom, if_neg hne]
  split
  · next herror => simp [hitem] at herror
  · rfl
  · next hcons => simp [hitem] at hcons

theorem bodyFrom_of_other
    (hne : t.lexeme ≠ .symbol .rightBrace) (hitem : item.run (t :: ts) = .ok (s, t' :: rest))
    (hbrace : t'.lexeme ≠ .symbol .rightBrace) (hsep : t'.lexeme.isSeparator = false) :
    bodyFrom item before (t :: ts) = .error ⟨.expected .endOfStatementOrBrace, t' :: rest⟩ := by
  rw [bodyFrom, if_neg hne]
  split
  · next herror => simp [hitem] at herror
  · next hnil => simp [hitem] at hnil
  · next s₁ t₁ rest₁ hok =>
    obtain ⟨rfl, rfl, rfl⟩ : s = s₁ ∧ t' = t₁ ∧ rest = rest₁ := by simpa [hitem] using hok
    rw [if_neg hbrace, hsep]
    rfl

theorem statementsFrom_of_error (hitem : item.run (t :: ts) = .error failure) :
    statementsFrom item before (t :: ts) = .error failure := by
  rw [statementsFrom]
  split
  · next failure' herror =>
    obtain rfl : failure = failure' := by simpa [hitem] using herror
    rfl
  · next hnil => simp [hitem] at hnil
  · next hcons => simp [hitem] at hcons

theorem statementsFrom_of_other
    (hitem : item.run (t :: ts) = .ok (s, t' :: rest)) (hsep : t'.lexeme.isSeparator = false) :
    statementsFrom item before (t :: ts) = .error ⟨.expected .endOfStatement, t' :: rest⟩ := by
  rw [statementsFrom]
  split
  · next herror => simp [hitem] at herror
  · next hnil => simp [hitem] at hnil
  · next s₁ t₁ rest₁ hok =>
    obtain ⟨rfl, rfl, rfl⟩ : s = s₁ ∧ t' = t₁ ∧ rest = rest₁ := by simpa [hitem] using hok
    rw [hsep]
    rfl

theorem dropWhile_of_separator (h : t.lexeme.isSeparator = true) (ts : List Token) :
    (t :: ts).dropWhile (·.lexeme.isSeparator) = ts.dropWhile (·.lexeme.isSeparator) := by
  rw [List.dropWhile_cons, if_pos h]

theorem dropWhile_of_not (h : t.lexeme.isSeparator = false) (ts : List Token) :
    (t :: ts).dropWhile (·.lexeme.isSeparator) = t :: ts := by
  rw [List.dropWhile_cons, h]
  rfl

end Lists

theorem run_elseBranch_of_none {α : Type} {branch : Parser α} {ts : List Token}
    (h : takeElse? ts = none) : (elseBranch branch).run ts = .ok (none, ts) := by
  simp [elseBranch, h]

theorem run_elseBranch_of_some {α : Type} {branch : Parser α} {ts ts' rest : List Token} {a : α}
    (h : takeElse? ts = some ts') (hbranch : branch.run ts' = .ok (a, rest)) :
    (elseBranch branch).run ts = .ok (some a, rest) := by
  simp [elseBranch, h, hbranch]

theorem Stmt.WrittenBlock.endsOperand_append {n : Nat} {ts : List Token} {ss : List Stmt}
    {last : Span} (h : Stmt.WrittenBlock n ts ss last) (bound : Nat) (rest : List Token) :
    EndsOperand bound (ts ++ rest) := by
  cases h with
  | braces left last h =>
    exact endsOperand_cons_symbol (t := ⟨.symbol .leftBrace, left⟩) rfl (by decide) bound _

/-! ### Written statements are read -/

mutual

/-- A statement is read, whatever ends it. -/
theorem Stmt.Written.read {n : Nat} {ts : List Token} {s : Stmt} (h : Stmt.Written n ts s)
    {rest : List Token} (hrest : EndsStatement rest) :
    (statement (deeper n)).run (ts ++ rest) = .ok (s, rest) := by
  match h with
  | .expression he => exact read_expression he hrest
  | .assign name op start sign he => exact read_assign name op start sign he hrest
  | .print start left right he =>
    rw [List.cons_append, List.cons_append, List.append_assoc]
    exact read_print start left right he rest
  | .conditional start hif =>
    have hrun := hif.read hrest
    simp [statement, run_choose_cons, run_bind_of_ok hrun]
  | .whileDo start hc hbody =>
    have hcondition := hc.run_expression (hbody.endsOperand_append Rank.whole.bound rest)
    have hblock := hbody.read rest
    simp [statement, run_choose_cons, loopAfter, run_bind_of_ok hcondition, run_bind_of_ok hblock]
  | .breakLoop span | .continueLoop span => rfl
termination_by structural h

/-- What belongs to an `if` is read, whatever ends the statement. -/
theorem Stmt.WrittenIf.read {n : Nat} {start last : Span} {ts : List Token} {s : Stmt}
    (h : Stmt.WrittenIf n start ts s last) {rest : List Token} (hrest : EndsStatement rest) :
    (conditionalAfter (deeper n) start).run (ts ++ rest) = .ok ((s, last), rest) := by
  match h with
  | .ifThen hc hbody =>
    have hcondition := hc.run_expression (hbody.endsOperand_append Rank.whole.bound rest)
    rw [List.append_assoc, conditionalAfter, run_bind_of_ok hcondition,
      run_bind_of_ok (hbody.read rest),
      run_bind_of_ok (run_elseBranch_of_none hrest.takeElse?_eq)]
    rfl
  | @Stmt.WrittenIf.ifElse _ _ _ _ _ _ vs newlines _ _ _ span hnewlines hc hbody helse =>
    -- condition, block, newlines, `else` and what follows it
    have hcondition := hc.run_expression (hbody.endsOperand_append Rank.whole.bound
      (newlines ++ ⟨.keyword .elseKw, span⟩ :: (vs ++ rest)))
    have htake : takeElse? (newlines ++ ⟨.keyword .elseKw, span⟩ :: (vs ++ rest)) =
        some (vs ++ rest) := takeElse?_newlines hnewlines rfl _
    rw [List.append_assoc, List.append_assoc, List.append_assoc, List.cons_append,
      conditionalAfter, run_bind_of_ok hcondition, run_bind_of_ok (hbody.read _),
      run_bind_of_ok (run_elseBranch_of_some htake (helse.read hrest))]
    rfl
termination_by structural h

/-- What comes after an `else` is read. -/
theorem Stmt.WrittenElse.read {n : Nat} {last : Span} {ts : List Token} {ss : List Stmt}
    (h : Stmt.WrittenElse n ts ss last) {rest : List Token} (hrest : EndsStatement rest) :
    (alternative (deeper n)).run (ts ++ rest) = .ok ((ss, last), rest) := by
  match h with
  | @Stmt.WrittenElse.elseIf _ ts s _ start hif =>
    have hconditional : (ifStatement (deeper _)).run (⟨.keyword .ifKw, start⟩ :: (ts ++ rest)) =
        .ok ((s, last), rest) := hif.read hrest
    exact run_bind_of_ok hconditional
  | .block hblock =>
    have hrun := hblock.read rest
    cases hblock with
    | braces left last hall => exact hrun
termination_by structural h

/-- A block is read, whatever comes behind it. -/
theorem Stmt.WrittenBlock.read {n : Nat} {last : Span} {ts : List Token} {ss : List Stmt}
    (h : Stmt.WrittenBlock n ts ss last) (rest : List Token) :
    (block (deeper n)).run (ts ++ rest) = .ok ((ss, last), rest) := by
  match h with
  | @Stmt.WrittenBlock.braces _ ts _ left last hall =>
    have hopen : (expect .leftBrace .openingBrace).run (⟨.symbol .leftBrace, left⟩ ::
        (ts ++ ⟨.symbol .rightBrace, last⟩ :: rest)) =
          .ok (left, ts ++ ⟨.symbol .rightBrace, last⟩ :: rest) := run_expect_cons rfl _
    rw [List.cons_append, List.append_assoc, List.singleton_append, block, run_bind_of_ok hopen]
    exact hall.read_body last [] rest
termination_by structural h

/-- The statements of a block are read up to and with its closing brace. -/
theorem Stmt.WrittenAll.read_body {n : Nat} {ts : List Token} {ss : List Stmt}
    (h : Stmt.WrittenAll n ts ss) (last : Span) (before : List Stmt) (rest : List Token) :
    bodyFrom (statement (deeper n)) before
        ((ts ++ ⟨.symbol .rightBrace, last⟩ :: rest).dropWhile (·.lexeme.isSeparator)) =
      .ok ((before.reverse ++ ss, last), rest) := by
  match h with
  | .nil => rw [List.nil_append, dropWhile_of_not rfl, bodyFrom_brace rfl, List.append_nil]
  | .skip hsep hall =>
    rw [List.cons_append, dropWhile_of_separator hsep]
    exact hall.read_body last before rest
  | .last hs =>
    have hbrace : EndsStatement (⟨.symbol .rightBrace, last⟩ :: rest) :=
      endsStatement_brace rfl rest
    have hrun := hs.read hbrace
    obtain ⟨t, ts', rfl, ht⟩ := hs.exists_cons
    rw [List.cons_append] at hrun
    rw [List.cons_append, dropWhile_of_not ht.not_separator, bodyFrom_of_brace ht.ne_brace hrun rfl,
      List.reverse_cons]
  | @Stmt.WrittenAll.cons _ sep _ us s _ hs hsep hall =>
    -- the statements behind the separator do not start with an `else`, and neither does a brace
    have hbrace : EndsStatement (⟨.symbol .rightBrace, last⟩ :: rest) :=
      endsStatement_brace rfl rest
    have hends : EndsStatement (sep :: (us ++ ⟨.symbol .rightBrace, last⟩ :: rest)) :=
      hall.endsStatement hsep hbrace.takeElse?_eq
    have hrun := hs.read hends
    have hrunRest := hall.read_body last (s :: before) rest
    obtain ⟨t, ts', rfl, ht⟩ := hs.exists_cons
    rw [List.cons_append] at hrun
    rw [List.append_assoc, List.cons_append, List.cons_append, dropWhile_of_not ht.not_separator,
      bodyFrom_of_separator ht.ne_brace hrun hsep, hrunRest, List.reverse_cons, List.append_assoc]
    rfl
termination_by structural h

/-- The statements of a program are read up to the end of the tokens. -/
theorem Stmt.WrittenAll.read_program {n : Nat} {ts : List Token} {ss : List Stmt}
    (h : Stmt.WrittenAll n ts ss) (before : List Stmt) :
    statementsFrom (statement (deeper n)) before (ts.dropWhile (·.lexeme.isSeparator)) =
      .ok (before.reverse ++ ss) := by
  match h with
  | .nil => rw [List.dropWhile_nil, statementsFrom, List.append_nil]
  | .skip hsep hall =>
    rw [dropWhile_of_separator hsep]
    exact hall.read_program before
  | .last hs =>
    have hrun := hs.read endsStatement_nil
    obtain ⟨t, ts', rfl, ht⟩ := hs.exists_cons
    rw [List.append_nil] at hrun
    rw [dropWhile_of_not ht.not_separator, statementsFrom_of_end hrun, List.reverse_cons]
  | @Stmt.WrittenAll.cons _ sep _ us s _ hs hsep hall =>
    have hends : EndsStatement (sep :: (us ++ [])) := hall.endsStatement hsep rfl
    rw [List.append_nil] at hends
    have hrun := hs.read hends
    have hrunRest := hall.read_program (s :: before)
    obtain ⟨t, ts', rfl, ht⟩ := hs.exists_cons
    rw [List.cons_append] at hrun
    rw [List.cons_append, dropWhile_of_not ht.not_separator, statementsFrom_of_separator hrun hsep,
      hrunRest, List.reverse_cons, List.append_assoc]
    rfl
termination_by structural h

end

/-- The statements of a derived program are read up to the end of the tokens. -/
theorem Stmt.DerivesAll.read_program {n : Nat} {us : List Lexeme} {ss : List Stmt}
    (h : Stmt.DerivesAll n us ss) (before : List Stmt) {ts : List Token}
    (hts : lexemes ts = us) :
    ∃ ss', Stmt.allBare ss' = ss ∧
      statementsFrom (statement (deeper n)) before (ts.dropWhile (·.lexeme.isSeparator)) =
        .ok (before.reverse ++ ss') := by
  obtain ⟨ss', hss', hwritten⟩ := h.exists_written hts
  exact ⟨ss', hss', hwritten.read_program before⟩

/-! ### What is read is written -/

/-- Blocks are read soundly when `n` levels are free. -/
def Stmt.BlockSound (n : Nat) : Prop :=
  (block (deeper n)).SoundFor fun ts r => Stmt.WrittenBlock n ts r.1 r.2

/-- What belongs to an `if` is read soundly. -/
def Stmt.IfSound (n : Nat) : Prop :=
  ∀ start, (conditionalAfter (deeper n) start).SoundFor fun ts r =>
    Stmt.WrittenIf n start ts r.1 r.2

/-- What comes after an `else` is read soundly. -/
def Stmt.ElseSound (n : Nat) : Prop :=
  (alternative (deeper n)).SoundFor fun ts r => Stmt.WrittenElse n ts r.1 r.2

/-- Statements are read soundly. -/
def Stmt.Sound (n : Nat) : Prop :=
  (statement (deeper n)).SoundFor (Stmt.Written n)

theorem written_of_run_expression {n : Nat} {ts rest : List Token} {e : Expr}
    (h : (deeper n).expression.run ts = .ok (e, rest)) :
    ∃ front, ts = front ++ rest ∧ Expr.Written n .whole front e :=
  Rank.sound n .whole ts e rest h

/-- Separators in front of statements do not matter. -/
theorem Stmt.WrittenAll.of_separators {n : Nat} {ts : List Token} {ss : List Stmt}
    (h : Stmt.WrittenAll n ts ss) {seps : List Token}
    (hseps : ∀ t ∈ seps, t.lexeme.isSeparator = true) : Stmt.WrittenAll n (seps ++ ts) ss := by
  induction seps with
  | nil => exact h
  | cons t seps ih =>
    refine .skip (hseps t List.mem_cons_self) (ih ?_)
    exact fun t' ht' => hseps t' (List.mem_cons_of_mem t ht')

theorem exists_separators (ts : List Token) :
    ∃ seps, ts = seps ++ ts.dropWhile (·.lexeme.isSeparator) ∧
      ∀ t ∈ seps, t.lexeme.isSeparator = true :=
  ⟨ts.takeWhile (·.lexeme.isSeparator), List.takeWhile_append_dropWhile.symm,
    List.all_eq_true.1 List.all_takeWhile⟩

/-- The tokens of a block after its opening brace are statements and a closing brace. -/
theorem written_of_bodyFrom {n : Nat} {item : Parser Stmt} (hitem : item.SoundFor (Stmt.Written n))
    {before ss : List Stmt} {ts rest : List Token} {last : Span}
    (h : bodyFrom item before ts = .ok ((ss, last), rest)) :
    ∃ front ss', ts = front ++ ⟨.symbol .rightBrace, last⟩ :: rest ∧
      ss = before.reverse ++ ss' ∧ Stmt.WrittenAll n front ss' := by
  fun_induction bodyFrom item before ts with
  | case1 => cases h
  | case2 before t ts' ht =>
    obtain ⟨_, span⟩ := t
    obtain rfl := ht
    cases h
    exact ⟨[], [], rfl, by simp, .nil⟩
  | case3 => cases h
  | case4 => cases h
  | case5 before t ts' ht s t' rest' hrun ht' =>
    obtain ⟨_, span⟩ := t'
    obtain rfl := ht'
    cases h
    obtain ⟨front, hts, hs⟩ := hitem _ _ _ hrun
    exact ⟨front, [s], hts, by simp, .last hs⟩
  | case6 before t ts' ht s t' rest' hrun ht' hsep hle ih =>
    obtain ⟨front, hts, hs⟩ := hitem _ _ _ hrun
    obtain ⟨front', ss', hrest, hss, hall⟩ := ih h
    obtain ⟨seps, hseps, hallSeps⟩ := exists_separators rest'
    refine ⟨front ++ t' :: (seps ++ front'), s :: ss', ?_, by simpa using hss,
      .cons hs hsep (hall.of_separators hallSeps)⟩
    rw [hts, hseps, hrest]
    simp
  | case7 => cases h

/-- The tokens of a program are statements. -/
theorem written_of_statementsFrom {n : Nat} {item : Parser Stmt}
    (hitem : item.SoundFor (Stmt.Written n)) {before : List Stmt} {program : Program}
    {ts : List Token} (h : statementsFrom item before ts = .ok program) :
    ∃ ss, program = before.reverse ++ ss ∧ Stmt.WrittenAll n ts ss := by
  fun_induction statementsFrom item before ts with
  | case1 before =>
    cases h
    exact ⟨[], by simp, .nil⟩
  | case2 => cases h
  | case3 before t ts' s hrun =>
    cases h
    obtain ⟨front, hts, hs⟩ := hitem _ _ _ hrun
    rw [List.append_nil] at hts
    exact ⟨[s], by simp, hts ▸ .last hs⟩
  | case4 before t ts' s t' rest' hrun hsep hle ih =>
    obtain ⟨front, hts, hs⟩ := hitem _ _ _ hrun
    obtain ⟨ss, hprogram, hall⟩ := ih h
    obtain ⟨seps, hseps, hallSeps⟩ := exists_separators rest'
    refine ⟨s :: ss, by simpa using hprogram, ?_⟩
    rw [hts, hseps]
    exact .cons hs hsep (hall.of_separators hallSeps)
  | case5 => cases h

theorem Stmt.ifSound {n : Nat} (hblock : Stmt.BlockSound n) (helse : Stmt.ElseSound n) :
    Stmt.IfSound n := by
  intro start ts r rest h
  obtain ⟨c, between₁, hc, h₁⟩ := run_bind_eq_ok.1 h
  obtain ⟨⟨body, last'⟩, between₂, hbody, h₂⟩ := run_bind_eq_ok.1 h₁
  obtain ⟨otherwise?, between₃, hbranch, h₃⟩ := run_bind_eq_ok.1 h₂
  obtain ⟨front₁, rfl, hcondition⟩ := written_of_run_expression hc
  obtain ⟨front₂, rfl, hbody'⟩ := hblock _ _ _ hbody
  cases htake : takeElse? between₂ with
  | none =>
    rw [run_elseBranch_of_none htake] at hbranch
    cases hbranch
    cases h₃
    exact ⟨front₁ ++ front₂, by simp, .ifThen hcondition hbody'⟩
  | some after =>
    obtain ⟨newlines, ⟨_, span⟩, rfl, rfl, hnewlines⟩ := of_takeElse? htake
    simp only [elseBranch, htake] at hbranch
    split at hbranch
    · cases hbranch
    · next a after' halternative =>
      obtain ⟨otherwise, last''⟩ := a
      cases hbranch
      cases h₃
      obtain ⟨front₃, rfl, helse'⟩ := helse _ _ _ halternative
      exact ⟨front₁ ++ (front₂ ++ (newlines ++ ⟨.keyword .elseKw, span⟩ :: front₃)), by simp,
        .ifElse span hnewlines hcondition hbody' helse'⟩

theorem assignmentOrExpression_sound (n : Nat) :
    (assignmentOrExpression (deeper n)).SoundFor (Stmt.Written n) := by
  intro ts s rest h
  rw [assignmentOrExpression, run_look] at h
  split at h
  · next name span op hahead =>
    obtain ⟨⟨_, sign⟩, ts', rfl, rfl⟩ := of_assignmentAhead? hahead
    obtain ⟨⟨⟩, between, hskip, hvalue⟩ := run_bind_eq_ok.1 h
    obtain ⟨e, between', he, hdone⟩ := run_bind_eq_ok.1 hvalue
    cases hskip
    cases hdone
    obtain ⟨front, rfl, hwritten⟩ := written_of_run_expression he
    exact ⟨⟨.name name, span⟩ :: ⟨op.lexeme, sign⟩ :: front, rfl,
      .assign name op span sign hwritten⟩
  · obtain ⟨e, between, he, hdone⟩ := run_bind_eq_ok.1 h
    cases hdone
    obtain ⟨front, rfl, hwritten⟩ := written_of_run_expression he
    exact ⟨front, rfl, .expression hwritten⟩

theorem Stmt.sound_of_blocks {n : Nat} (hblock : Stmt.BlockSound n) (hif : Stmt.IfSound n) :
    Stmt.Sound n := by
  intro ts s rest h
  rcases of_run_choose h with ⟨⟨lexeme, start⟩, ts', p, rfl, hp, hrun⟩ | hother
  · -- the first token decides for one of the kinds that start with a keyword
    dsimp only at hp
    split at hp
    · cases hp
      obtain ⟨left, between₁, hopen, h₁⟩ := run_bind_eq_ok.1 hrun
      obtain ⟨e, between₂, he, h₂⟩ := run_bind_eq_ok.1 h₁
      obtain ⟨right, between₃, hclose, h₃⟩ := run_bind_eq_ok.1 h₂
      cases h₃
      obtain ⟨⟨_, left⟩, rfl, rfl, rfl⟩ := run_expect_eq_ok hopen
      obtain ⟨⟨_, right⟩, rfl, rfl, rfl⟩ := run_expect_eq_ok hclose
      obtain ⟨front, rfl, hwritten⟩ := written_of_run_expression he
      exact ⟨⟨.keyword .printKw, start⟩ :: ⟨.symbol .leftParen, left⟩ ::
        (front ++ [⟨.symbol .rightParen, right⟩]), by simp, .print start left right hwritten⟩
    · cases hp
      obtain ⟨⟨s', last⟩, between, hcond, hdone⟩ := run_bind_eq_ok.1 hrun
      cases hdone
      obtain ⟨front, rfl, hwritten⟩ := hif _ _ _ _ hcond
      exact ⟨⟨.keyword .ifKw, start⟩ :: front, rfl, .conditional start hwritten⟩
    · cases hp
      obtain ⟨c, between₁, hc, h₁⟩ := run_bind_eq_ok.1 hrun
      obtain ⟨⟨body, last⟩, between₂, hbody, h₂⟩ := run_bind_eq_ok.1 h₁
      cases h₂
      obtain ⟨front₁, rfl, hcondition⟩ := written_of_run_expression hc
      obtain ⟨front₂, rfl, hbody'⟩ := hblock _ _ _ hbody
      exact ⟨⟨.keyword .whileKw, start⟩ :: (front₁ ++ front₂), by simp,
        .whileDo start hcondition hbody'⟩
    · cases hp
      cases hrun
      exact ⟨[⟨.keyword .breakKw, start⟩], rfl, .breakLoop start⟩
    · cases hp
      cases hrun
      exact ⟨[⟨.keyword .continueKw, start⟩], rfl, .continueLoop start⟩
    · cases hp
  · exact assignmentOrExpression_sound n _ _ _ hother

theorem Stmt.elseSound {n : Nat} (hblock : Stmt.BlockSound n)
    (hif : ∀ ts r rest, (deeper n).conditional.run ts = .ok (r, rest) →
      ∃ front, ts = front ++ rest ∧ Stmt.WrittenElse n front [r.1] r.2) :
    Stmt.ElseSound n := by
  intro ts r rest h
  rw [alternative, run_look] at h
  split at h
  · next span ts' =>
    obtain ⟨⟨s, last⟩, between, hcond, hdone⟩ := run_bind_eq_ok.1 h
    cases hdone
    exact hif _ _ _ hcond
  · obtain ⟨front, rfl, hwritten⟩ := hblock _ _ _ h
    exact ⟨front, rfl, .block hwritten⟩

theorem Stmt.blockSound_zero : Stmt.BlockSound 0 := by
  intro ts r rest h
  obtain ⟨span, between, -, hbody⟩ := run_bind_eq_ok.1 h
  cases hbody

theorem Stmt.blockSound_succ {n : Nat} (hstmt : Stmt.Sound n) : Stmt.BlockSound (n + 1) := by
  rintro ts ⟨ss, last⟩ rest h
  obtain ⟨left, between, hopen, hbody⟩ := run_bind_eq_ok.1 h
  obtain ⟨⟨_, left⟩, rfl, rfl, rfl⟩ := run_expect_eq_ok hopen
  obtain ⟨seps, hseps, hallSeps⟩ := exists_separators between
  obtain ⟨front, ss', hbetween, rfl, hall⟩ := written_of_bodyFrom hstmt hbody
  refine ⟨⟨.symbol .leftBrace, left⟩ :: (seps ++ front ++ [⟨.symbol .rightBrace, last⟩]), ?_,
    .braces left last (hall.of_separators hallSeps)⟩
  rw [hseps, hbetween]
  simp

/-- Statements are read soundly, however many levels are free. -/
theorem Stmt.sound (n : Nat) : Stmt.Sound n ∧ Stmt.IfSound n := by
  induction n with
  | zero =>
    -- no level is free, so neither a block nor an `if` behind an `else` is read at all
    have hif : Stmt.IfSound 0 :=
      Stmt.ifSound Stmt.blockSound_zero (Stmt.elseSound Stmt.blockSound_zero nofun)
    exact ⟨Stmt.sound_of_blocks Stmt.blockSound_zero hif, hif⟩
  | succ n ih =>
    have hblock : Stmt.BlockSound (n + 1) := Stmt.blockSound_succ ih.1
    have hif : Stmt.IfSound (n + 1) := by
      refine Stmt.ifSound hblock (Stmt.elseSound hblock ?_)
      rintro ts ⟨s, last⟩ rest h
      rcases of_run_choose h with ⟨⟨lexeme, start⟩, ts', p, rfl, hp, hrun⟩ | hfail
      · split at hp
        · next ht =>
          obtain rfl : lexeme = .keyword .ifKw := ht
          cases hp
          obtain ⟨front, rfl, hwritten⟩ := ih.2 _ _ _ _ hrun
          exact ⟨⟨.keyword .ifKw, start⟩ :: front, rfl, .elseIf start hwritten⟩
        · cases hp
      · cases hfail
    exact ⟨Stmt.sound_of_blocks hblock hif, hif⟩

/-- Blocks are read soundly, however many levels are free. -/
theorem Stmt.blockSound (n : Nat) : Stmt.BlockSound n := by
  cases n with
  | zero => exact Stmt.blockSound_zero
  | succ n => exact Stmt.blockSound_succ (Stmt.sound n).1

end Kestrel
