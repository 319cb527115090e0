import Kestrel.Proofs.Program.Written

/-!
# Parentheses in programs

In what the grammar derives, every parenthesis has its partner. A pair of parentheses around a whole
expression can be taken away, if they are partners.

## Main definitions

- `Lexeme.openAfter`, `openBehind` — how many parentheses are open
- `ParensMatch` — every parenthesis has its partner

## Main statements

- `parensMatch_between_iff` — a text between opening and closing parentheses
- `Expr.Derives.parensMatch`, `Stmt.DerivesAll.parensMatch` — parentheses match in programs
- `Expr.Written.of_parens` — what is in parentheses is the same expression without them
-/

namespace Kestrel

/-- How many parentheses are open after a lexeme with `depth` open ones in front of it; none can be
closed if none is open. -/
def Lexeme.openAfter (depth : Nat) : Lexeme → Option Nat
  | .symbol .leftParen => some (depth + 1)
  | .symbol .rightParen => if depth = 0 then none else some (depth - 1)
  | _ => some depth

/-- How many parentheses are open behind some lexemes with `depth` open ones in front of them. -/
def openBehind (depth : Nat) (us : List Lexeme) : Option Nat :=
  us.foldlM Lexeme.openAfter depth

/-- Every parenthesis has its partner. -/
def ParensMatch (us : List Lexeme) : Prop := openBehind 0 us = some 0

instance (us : List Lexeme) : Decidable (ParensMatch us) :=
  inferInstanceAs (Decidable (openBehind 0 us = some 0))

section Counting

variable {depth depth' : Nat} {u : Lexeme} {us vs ws : List Lexeme}

@[simp] theorem openBehind_nil (depth : Nat) : openBehind depth [] = some depth := rfl

@[simp] theorem openBehind_cons (depth : Nat) (u : Lexeme) (us : List Lexeme) :
    openBehind depth (u :: us) = (u.openAfter depth).bind fun d => openBehind d us :=
  List.foldlM_cons

theorem openBehind_append (depth : Nat) (us vs : List Lexeme) :
    openBehind depth (us ++ vs) = (openBehind depth us).bind fun d => openBehind d vs :=
  List.foldlM_append

theorem Lexeme.openAfter_add (h : u.openAfter depth = some depth') (k : Nat) :
    u.openAfter (depth + k) = some (depth' + k) := by
  unfold Lexeme.openAfter at h ⊢
  split at h
  · cases h
    exact congrArg some (Nat.add_right_comm depth k 1)
  · split at h
    · cases h
    · cases h
      rw [if_neg (by omega)]
      exact congrArg some (by omega)
  · cases h
    rfl

/-- With further parentheses open in front, as many more are open behind. -/
theorem openBehind_add (h : openBehind depth us = some depth') (k : Nat) :
    openBehind (depth + k) us = some (depth' + k) := by
  induction us generalizing depth with
  | nil =>
    cases h
    rfl
  | cons u us ih =>
    rw [openBehind_cons] at h ⊢
    obtain ⟨middle, hmiddle, hrest⟩ := Option.bind_eq_some_iff.1 h
    rw [Lexeme.openAfter_add hmiddle]
    exact ih hrest

/-- Lexemes with matching parentheses leave as many open as there were. -/
theorem ParensMatch.openBehind_eq (h : ParensMatch us) (depth : Nat) :
    openBehind depth us = some depth := by
  have hadd := openBehind_add h depth
  rwa [Nat.zero_add] at hadd

theorem ParensMatch.append (hus : ParensMatch us) (hvs : ParensMatch vs) :
    ParensMatch (us ++ vs) := by
  rw [ParensMatch, openBehind_append, hus, Option.bind_some, hvs]

theorem ParensMatch.cons (hu : u.openAfter 0 = some 0) (h : ParensMatch us) :
    ParensMatch (u :: us) := by
  rw [ParensMatch, openBehind_cons, hu, Option.bind_some, h]

theorem openBehind_opening (h : ∀ u ∈ us, u = .symbol .leftParen) (depth : Nat) :
    openBehind depth us = some (depth + us.length) := by
  induction us generalizing depth with
  | nil => rfl
  | cons u us ih =>
    obtain ⟨rfl, hus⟩ := List.forall_mem_cons.1 h
    rw [openBehind_cons, List.length_cons]
    show openBehind (depth + 1) us = _
    rw [ih hus]
    exact congrArg some (by omega)

theorem openBehind_closing_iff (h : ∀ u ∈ us, u = .symbol .rightParen) :
    openBehind depth us = some depth' ↔ depth = depth' + us.length := by
  induction us generalizing depth with
  | nil => rw [openBehind_nil, Option.some.injEq, List.length_nil, Nat.add_zero]
  | cons u us ih =>
    obtain ⟨rfl, hus⟩ := List.forall_mem_cons.1 h
    rw [openBehind_cons, Lexeme.openAfter, List.length_cons]
    by_cases hdepth : depth = 0
    · rw [if_pos hdepth]
      constructor
      · nofun
      · omega
    · rw [if_neg hdepth, Option.bind_some, ih hus]
      omega

/-- Between opening and closing parentheses, parentheses match if and only if there are as many of
either. -/
theorem parensMatch_between_iff (hus : ∀ u ∈ us, u = .symbol .leftParen) (hvs : ParensMatch vs)
    (hws : ∀ u ∈ ws, u = .symbol .rightParen) :
    ParensMatch (us ++ (vs ++ ws)) ↔ us.length = ws.length := by
  rw [ParensMatch, openBehind_append, openBehind_opening hus, Option.bind_some, openBehind_append,
    hvs.openBehind_eq, Option.bind_some, openBehind_closing_iff hws, Nat.zero_add, Nat.zero_add]

theorem ParensMatch.parens (h : ParensMatch us) :
    ParensMatch (.symbol .leftParen :: (us ++ [.symbol .rightParen])) := by
  have hleft : ∀ u ∈ [Lexeme.symbol .leftParen], u = .symbol .leftParen :=
    List.forall_mem_singleton.2 rfl
  exact (parensMatch_between_iff hleft h (List.forall_mem_singleton.2 rfl)).2 rfl

end Counting

/-! ### Parentheses match in programs -/

theorem openAfter_unary (op : UnaryOp) : op.lexeme.openAfter 0 = some 0 := by
  cases op <;> rfl

theorem openAfter_binary (op : BinaryOp) : op.lexeme.openAfter 0 = some 0 := by
  cases op <;> rfl

theorem openAfter_assign (op : AssignOp) : op.lexeme.openAfter 0 = some 0 := by
  cases op <;> rfl

/-- Parentheses match in expressions. -/
theorem Expr.Derives.parensMatch {n : Nat} {r : Rank} {us : List Lexeme} {e : Expr}
    (h : Expr.Derives n r us e) : ParensMatch us := by
  induction h with
  | number | trueWord | falseWord | name => rfl
  | parens h ih => exact ih.parens
  | base h ih | plain h ih | operand h ih | tighter h ih | whole h ih => exact ih
  | power _ _ ihl ihr | binary _ _ _ ihl ihr => exact ihl.append (.cons (openAfter_binary _) ihr)
  | sign op h ih => exact .cons (openAfter_unary op) ih

theorem openAfter_separator {u : Lexeme} (h : u.isSeparator = true) : u.openAfter 0 = some 0 := by
  unfold Lexeme.isSeparator at h
  split at h
  · rfl
  · rfl
  · cases h

theorem parensMatch_newlines (k : Nat) : ParensMatch (List.replicate k .newline) := by
  induction k with
  | zero => rfl
  | succ k ih => exact .cons rfl ih

mutual

/-- Parentheses match in statements. -/
theorem Stmt.Derives.parensMatch {n : Nat} {us : List Lexeme} {s : Stmt}
    (h : Stmt.Derives n us s) : ParensMatch us := by
  match h with
  | .expression he => exact he.parensMatch
  | .assign name op he =>
    exact .cons rfl (.cons (openAfter_assign op) he.parensMatch)
  | .print he => exact .cons rfl he.parensMatch.parens
  | .conditional hif => exact .cons rfl hif.parensMatch
  | .whileDo hc hbody => exact .cons rfl (hc.parensMatch.append hbody.parensMatch)
  | .breakLoop | .continueLoop => rfl
termination_by structural h

theorem Stmt.DerivesIf.parensMatch {n : Nat} {us : List Lexeme} {s : Stmt}
    (h : Stmt.DerivesIf n us s) : ParensMatch us := by
  match h with
  | .ifThen hc hbody => exact hc.parensMatch.append hbody.parensMatch
  | .ifElse k hc hbody helse =>
    exact hc.parensMatch.append (hbody.parensMatch.append
      ((parensMatch_newlines k).append (.cons rfl helse.parensMatch)))
termination_by structural h

theorem Stmt.DerivesElse.parensMatch {n : Nat} {us : List Lexeme} {ss : List Stmt}
    (h : Stmt.DerivesElse n us ss) : ParensMatch us := by
  match h with
  | .elseIf hif => exact .cons rfl hif.parensMatch
  | .block hblock => exact hblock.parensMatch
termination_by structural h

theorem Stmt.DerivesBlock.parensMatch {n : Nat} {us : List Lexeme} {ss : List Stmt}
    (h : Stmt.DerivesBlock n us ss) : ParensMatch us := by
  match h with
  | .braces hall => exact .cons rfl (hall.parensMatch.append (.cons rfl rfl))
termination_by structural h

theorem Stmt.DerivesAll.parensMatch {n : Nat} {us : List Lexeme} {ss : List Stmt}
    (h : Stmt.DerivesAll n us ss) : ParensMatch us := by
  match h with
  | .nil => rfl
  | .skip hsep hall => exact .cons (openAfter_separator hsep) hall.parensMatch
  | .last hs => exact hs.parensMatch
  | .cons hs hsep hall =>
    exact hs.parensMatch.append (.cons (openAfter_separator hsep) hall.parensMatch)
termination_by structural h

end

/-! ### Taking parentheses away -/

/-- Between as many opening as closing parentheses, and only there, parentheses match. -/
theorem parensMatch_lexemes_iff {left inner right : List Token}
    (hleft : ∀ t ∈ left, t.lexeme = .symbol .leftParen) (hinner : ParensMatch (lexemes inner))
    (hright : ∀ t ∈ right, t.lexeme = .symbol .rightParen) :
    ParensMatch (lexemes (left ++ (inner ++ right))) ↔ left.length = right.length := by
  have hbetween := parensMatch_between_iff (List.forall_mem_map.2 hleft) hinner
    (List.forall_mem_map.2 hright)
  simpa only [List.map_append, List.length_map] using hbetween

/-- With more levels free, as much is written. -/
theorem Expr.Written.mono {n m : Nat} {r : Rank} {ts : List Token} {e : Expr}
    (h : Expr.Written n r ts e) (hle : n ≤ m) : Expr.Written m r ts e := by
  induction h generalizing m with
  | number value span => exact .number value span
  | trueWord span => exact .trueWord span
  | falseWord span => exact .falseWord span
  | name text span => exact .name text span
  | parens left right h ih => exact .parens left right (ih hle)
  | base h ih => exact .base (ih hle)
  | power span hbase hexponent ihl ihr => exact .power span (ihl hle) (ihr hle)
  | plain h ih => exact .plain (ih hle)
  | sign op span h ih => exact .sign op span (ih hle)
  | operand h ih =>
    obtain ⟨m, rfl⟩ := Nat.exists_eq_add_of_lt hle
    exact .operand (ih (by omega))
  | tighter h ih => exact .tighter (ih hle)
  | binary hop span hleft hright ihl ihr => exact .binary hop span (ihl hle) (ihr hle)
  | whole h ih =>
    obtain ⟨m, rfl⟩ := Nat.exists_eq_add_of_lt hle
    exact .whole (ih (by omega))

theorem BinaryOp.lexeme_ne_leftParen (op : BinaryOp) : op.lexeme ≠ .symbol .leftParen := by
  cases op <;> nofun

/-- The parenthesis that an expression starts with is closed behind an expression, which is the
whole one if nothing more follows. -/
theorem Expr.Written.exists_parens {n : Nat} {r : Rank} {left : Span} {ts : List Token} {e : Expr}
    (h : Expr.Written n r (⟨.symbol .leftParen, left⟩ :: ts) e) :
    ∃ inner right rest e', ts = inner ++ ⟨.symbol .rightParen, right⟩ :: rest ∧
      Expr.Written n .whole inner e' ∧ (rest = [] → e' = e) := by
  generalize hts : (⟨.symbol .leftParen, left⟩ : Token) :: ts = front at h
  induction h generalizing ts with
  | number | trueWord | falseWord | name => cases hts
  | parens left' right h ih =>
    obtain ⟨-, rfl⟩ := List.cons.inj hts
    exact ⟨_, right, [], _, rfl, h, fun _ => rfl⟩
  | base h ih | plain h ih | tighter h ih => exact ih hts
  | operand h ih | whole h ih =>
    obtain ⟨inner, right, rest, e', rfl, hinner, hrest⟩ := ih hts
    exact ⟨inner, right, rest, e', rfl, hinner.mono (Nat.le_succ _), hrest⟩
  | sign op span h ih => cases op <;> cases hts
  | power span _ _ ihl _ | binary _ span _ _ ihl _ =>
    rcases List.cons_eq_append_iff.1 hts with ⟨-, hop⟩ | ⟨ts', rfl, rfl⟩
    · rw [List.cons.injEq, Token.mk.injEq] at hop
      exact absurd hop.1.1 (BinaryOp.lexeme_ne_leftParen _)
    · obtain ⟨inner, right, rest, e', rfl, hinner, -⟩ := ihl rfl
      exact ⟨inner, right, _, e', List.append_assoc inner (_ :: rest) _, hinner,
        fun hnil => absurd (List.append_eq_nil_iff.1 hnil).2 (List.cons_ne_nil _ _)⟩

/-- If parentheses match in what stands in parentheses, then the outer ones are partners and can be
taken away. -/
theorem Expr.Written.of_parens {n : Nat} {left right : Token} {ts : List Token} {e : Expr}
    (hleft : left.lexeme = .symbol .leftParen) (hmatch : ParensMatch (lexemes ts))
    (h : Expr.Written n .whole (left :: (ts ++ [right])) e) : Expr.Written n .whole ts e := by
  obtain ⟨_, span⟩ := left
  cases hleft
  obtain ⟨inner, last, rest, e', hts, hinner, he⟩ := h.exists_parens
  rcases List.eq_nil_or_concat rest with rfl | ⟨rest, t, rfl⟩
  · obtain ⟨rfl, -⟩ := List.append_inj' hts rfl
    rwa [← he rfl]
  · -- a partner inside leaves a parenthesis behind it that closes nothing
    rw [List.concat_eq_append, ← List.cons_append, ← List.append_assoc] at hts
    obtain ⟨rfl, -⟩ := List.append_inj' hts rfl
    have hinner' : ParensMatch (lexemes inner) := hinner.derives.parensMatch
    rw [lexemes, List.map_append, ParensMatch, openBehind_append, hinner'] at hmatch
    cases hmatch

end Kestrel
