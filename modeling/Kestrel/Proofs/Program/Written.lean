import Kestrel.Proofs.Program.Grammar

/-!
# Programs with their places

The grammar of programs once more, now between tokens and trees with all their spans. Parentheses
leave no trace in a tree, so neither do they in its spans: the span of an expression starts and
stops with its outermost parts that are in the tree.

## Main definitions

- `Expr.Written` — tokens write an expression, with the spans of all its parts
- `Stmt.Written`, `Stmt.WrittenAll` — tokens write a statement, and a list of them

## Main statements

- `Expr.Written.derives`, `Stmt.WrittenAll.derives` — without spans, what is written is derived
- `Expr.Derives.exists_written`, `Stmt.DerivesAll.exists_written` — tokens that derive something
  write it with some spans
-/

namespace Kestrel

/-- The lexemes of some tokens. -/
abbrev lexemes (ts : List Token) : List Lexeme := ts.map Token.lexeme

/-! ### Tokens with given lexemes -/

theorem exists_of_lexemes_singleton {front : List Token} {s : Lexeme} (h : lexemes front = [s]) :
    ∃ t, front = [t] ∧ t.lexeme = s :=
  List.map_eq_singleton_iff.1 h

theorem exists_of_lexemes_cons {front : List Token} {s : Lexeme} {us : List Lexeme}
    (h : lexemes front = s :: us) :
    ∃ t front', front = t :: front' ∧ t.lexeme = s ∧ lexemes front' = us :=
  List.map_eq_cons_iff.1 h

theorem exists_of_lexemes_append {front : List Token} {us vs : List Lexeme}
    (h : lexemes front = us ++ vs) :
    ∃ front₁ front₂, front = front₁ ++ front₂ ∧ lexemes front₁ = us ∧ lexemes front₂ = vs :=
  List.map_eq_append_iff.1 h

theorem map_lexeme_newlines {ts : List Token} (h : ∀ t ∈ ts, t.lexeme = .newline) :
    ts.map Token.lexeme = List.replicate ts.length .newline := by
  rw [List.eq_replicate_iff, List.length_map]
  exact ⟨rfl, List.forall_mem_map.2 h⟩

/-! ### Expressions -/

/-- The tokens `ts` write the expression `e` of this rank, with at most `n` levels open at once. -/
inductive Expr.Written : (n : Nat) → Rank → (ts : List Token) → (e : Expr) → Prop
  | number {n : Nat} (value : Float) (span : Span) :
      Written n .primary [⟨.number value, span⟩] (.number value span)
  | trueWord {n : Nat} (span : Span) :
      Written n .primary [⟨.keyword .trueKw, span⟩] (.boolean true span)
  | falseWord {n : Nat} (span : Span) :
      Written n .primary [⟨.keyword .falseKw, span⟩] (.boolean false span)
  | name {n : Nat} (text : String) (span : Span) :
      Written n .primary [⟨.name text, span⟩] (.name text span)
  | parens {n : Nat} {ts : List Token} {e : Expr} (left right : Span) (h : Written n .whole ts e) :
      Written n .primary
        (⟨.symbol .leftParen, left⟩ :: (ts ++ [⟨.symbol .rightParen, right⟩])) e
  | base {n : Nat} {ts : List Token} {e : Expr} (h : Written n .primary ts e) :
      Written n .power ts e
  | power {n : Nat} {ts us : List Token} {b x : Expr} (span : Span)
      (hbase : Written n .primary ts b) (hexponent : Written n .operand us x) :
      Written n .power (ts ++ ⟨BinaryOp.pow.lexeme, span⟩ :: us) (b.join .pow x)
  | plain {n : Nat} {ts : List Token} {e : Expr} (h : Written n .power ts e) :
      Written n .unary ts e
  | sign {n : Nat} {ts : List Token} {e : Expr} (op : UnaryOp) (span : Span)
      (h : Written n .operand ts e) :
      Written n .unary (⟨op.lexeme, span⟩ :: ts) (.unary op e (span.merge e.span))
  | operand {n : Nat} {ts : List Token} {e : Expr} (h : Written n .unary ts e) :
      Written (n + 1) .operand ts e
  | tighter {n : Nat} {ts : List Token} {e : Expr} {l : OperatorLevel}
      (h : Written n l.below ts e) : Written n (.level l) ts e
  | binary {n : Nat} {ts us : List Token} {left right : Expr} {op : BinaryOp} {l : OperatorLevel}
      (hop : op.level? = some l) (span : Span) (hleft : Written n (.level l) ts left)
      (hright : Written n l.below us right) :
      Written n (.level l) (ts ++ ⟨op.lexeme, span⟩ :: us) (left.join op right)
  | whole {n : Nat} {ts : List Token} {e : Expr} (h : Written n (.level .disjunction) ts e) :
      Written (n + 1) .whole ts e

/-- What stands for an operand also stands for a whole expression. -/
theorem Expr.Written.whole_of_primary {n : Nat} {ts : List Token} {e : Expr}
    (h : Expr.Written n .primary ts e) : Expr.Written (n + 1) .whole ts e := by
  have hproduct : Expr.Written n (.level .product) ts e := .tighter (.plain (.base h))
  exact .whole (.tighter (.tighter (.tighter (.tighter (.tighter hproduct)))))

/-! ### Statements -/

mutual

/-- The tokens write the statement, with at most `n` levels open at once. -/
inductive Stmt.Written : (n : Nat) → List Token → Stmt → Prop
  | expression {n : Nat} {ts : List Token} {e : Expr} (he : Expr.Written n .whole ts e) :
      Written n ts (.expression e e.span)
  | assign {n : Nat} {ts : List Token} {e : Expr} (name : String) (op : AssignOp)
      (start sign : Span) (he : Expr.Written n .whole ts e) :
      Written n (⟨.name name, start⟩ :: ⟨op.lexeme, sign⟩ :: ts)
        (.assign name op e (start.merge e.span))
  | print {n : Nat} {ts : List Token} {e : Expr} (start left right : Span)
      (he : Expr.Written n .whole ts e) :
      Written n
        (⟨.keyword .printKw, start⟩ :: ⟨.symbol .leftParen, left⟩ ::
          (ts ++ [⟨.symbol .rightParen, right⟩]))
        (.print e (start.merge right))
  | conditional {n : Nat} {ts : List Token} {s : Stmt} {last : Span} (start : Span)
      (h : Stmt.WrittenIf n start ts s last) : Written n (⟨.keyword .ifKw, start⟩ :: ts) s
  | whileDo {n : Nat} {ts us : List Token} {c : Expr} {body : List Stmt} {last : Span}
      (start : Span) (hc : Expr.Written n .whole ts c) (hbody : Stmt.WrittenBlock n us body last) :
      Written n (⟨.keyword .whileKw, start⟩ :: (ts ++ us)) (.whileDo c body (start.merge last))
  | breakLoop {n : Nat} (span : Span) : Written n [⟨.keyword .breakKw, span⟩] (.breakLoop span)
  | continueLoop {n : Nat} (span : Span) :
      Written n [⟨.keyword .continueKw, span⟩] (.continueLoop span)

/-- The tokens after an `if` at `start`, the last of which is at `last`. -/
inductive Stmt.WrittenIf : (n : Nat) → (start : Span) → List Token → Stmt → (last : Span) → Prop
  | ifThen {n : Nat} {start last : Span} {ts us : List Token} {c : Expr} {body : List Stmt}
      (hc : Expr.Written n .whole ts c) (hbody : Stmt.WrittenBlock n us body last) :
      WrittenIf n start (ts ++ us) (.ifThen c body (start.merge last)) last
  | ifElse {n : Nat} {start middle last : Span} {ts us vs newlines : List Token} {c : Expr}
      {body otherwise : List Stmt} (span : Span) (hnewlines : ∀ t ∈ newlines, t.lexeme = .newline)
      (hc : Expr.Written n .whole ts c) (hbody : Stmt.WrittenBlock n us body middle)
      (helse : Stmt.WrittenElse n vs otherwise last) :
      WrittenIf n start (ts ++ (us ++ (newlines ++ ⟨.keyword .elseKw, span⟩ :: vs)))
        (.ifElse c body otherwise (start.merge last)) last

/-- The tokens after an `else`, the last of which is at `last`. -/
inductive Stmt.WrittenElse : (n : Nat) → List Token → List Stmt → (last : Span) → Prop
  | elseIf {n : Nat} {ts : List Token} {s : Stmt} {last : Span} (start : Span)
      (h : Stmt.WrittenIf n start ts s last) :
      WrittenElse (n + 1) (⟨.keyword .ifKw, start⟩ :: ts) [s] last
  | block {n : Nat} {ts : List Token} {ss : List Stmt} {last : Span}
      (h : Stmt.WrittenBlock n ts ss last) : WrittenElse n ts ss last

/-- Statements in braces, the closing one of which is at `last`. -/
inductive Stmt.WrittenBlock : (n : Nat) → List Token → List Stmt → (last : Span) → Prop
  | braces {n : Nat} {ts : List Token} {ss : List Stmt} (left last : Span)
      (h : Stmt.WrittenAll n ts ss) :
      WrittenBlock (n + 1)
        (⟨.symbol .leftBrace, left⟩ :: (ts ++ [⟨.symbol .rightBrace, last⟩])) ss last

/-- Statements with separators between them and around them. -/
inductive Stmt.WrittenAll : (n : Nat) → List Token → List Stmt → Prop
  | nil {n : Nat} : WrittenAll n [] []
  | skip {n : Nat} {sep : Token} {ts : List Token} {ss : List Stmt}
      (hsep : sep.lexeme.isSeparator = true) (h : Stmt.WrittenAll n ts ss) :
      WrittenAll n (sep :: ts) ss
  | last {n : Nat} {ts : List Token} {s : Stmt} (hs : Stmt.Written n ts s) : WrittenAll n ts [s]
  | cons {n : Nat} {sep : Token} {ts us : List Token} {s : Stmt} {ss : List Stmt}
      (hs : Stmt.Written n ts s) (hsep : sep.lexeme.isSeparator = true)
      (h : Stmt.WrittenAll n us ss) : WrittenAll n (ts ++ sep :: us) (s :: ss)

end

/-- Statements are written behind separators, if there are any. -/
theorem Stmt.WrittenAll.exists_first {n : Nat} {ts : List Token} {ss : List Stmt}
    (h : Stmt.WrittenAll n ts ss) : ∃ seps rest, ts = seps ++ rest ∧
      (∀ t ∈ seps, t.lexeme.isSeparator = true) ∧
      (rest = [] ∨ ∃ first rest' s, rest = first ++ rest' ∧ Stmt.Written n first s) := by
  match h with
  | .nil => exact ⟨[], [], rfl, nofun, .inl rfl⟩
  | .skip hsep hall =>
    obtain ⟨seps, rest, rfl, hseps, hrest⟩ := hall.exists_first
    exact ⟨_ :: seps, rest, rfl, List.forall_mem_cons.2 ⟨hsep, hseps⟩, hrest⟩
  | .last hs => exact ⟨[], _, rfl, nofun, .inr ⟨_, [], _, (List.append_nil _).symm, hs⟩⟩
  | .cons hs _ _ => exact ⟨[], _, rfl, nofun, .inr ⟨_, _, _, rfl, hs⟩⟩
termination_by structural h

/-- Each of some statements that are written is written by tokens next to each other. -/
theorem Stmt.WrittenAll.exists_of_mem {n : Nat} {ts : List Token} {ss : List Stmt}
    (h : Stmt.WrittenAll n ts ss) {s : Stmt} (hs : s ∈ ss) :
    ∃ before front after, ts = before ++ (front ++ after) ∧ Stmt.Written n front s := by
  match h with
  | .nil => cases hs
  | @Stmt.WrittenAll.skip _ sep _ _ _ hall =>
    obtain ⟨before, front, after, rfl, hfront⟩ := hall.exists_of_mem hs
    exact ⟨sep :: before, front, after, rfl, hfront⟩
  | .last hs' =>
    obtain rfl := List.mem_singleton.1 hs
    exact ⟨[], ts, [], (List.append_nil ts).symm, hs'⟩
  | @Stmt.WrittenAll.cons _ sep ts _ _ _ hs' _ hall =>
    rcases List.mem_cons.1 hs with rfl | hs
    · exact ⟨[], ts, _, rfl, hs'⟩
    · obtain ⟨before, front, after, rfl, hfront⟩ := hall.exists_of_mem hs
      exact ⟨ts ++ sep :: before, front, after, (List.append_assoc ts (sep :: before) _).symm,
        hfront⟩
termination_by structural h

theorem Stmt.WrittenIf.span_eq {n : Nat} {start last : Span} {ts : List Token} {s : Stmt}
    (h : Stmt.WrittenIf n start ts s last) : s.span = start.merge last := by
  cases h <;> rfl

/-- The closing brace is the last token of a block. -/
theorem Stmt.WrittenBlock.exists_last {n : Nat} {last : Span} {ts : List Token} {ss : List Stmt}
    (h : Stmt.WrittenBlock n ts ss last) :
    ∃ front, ts = front ++ [⟨.symbol .rightBrace, last⟩] := by
  cases h with
  | @braces _ ts _ left _ _ => exact ⟨⟨.symbol .leftBrace, left⟩ :: ts, rfl⟩

mutual

theorem Stmt.WrittenIf.exists_last {n : Nat} {start last : Span} {ts : List Token} {s : Stmt}
    (h : Stmt.WrittenIf n start ts s last) :
    ∃ front, ts = front ++ [⟨.symbol .rightBrace, last⟩] := by
  match h with
  | @Stmt.WrittenIf.ifThen _ _ _ ts _ _ _ _ hbody =>
    obtain ⟨front, rfl⟩ := hbody.exists_last
    exact ⟨ts ++ front, (List.append_assoc ts front _).symm⟩
  | @Stmt.WrittenIf.ifElse _ _ _ _ ts us _ newlines _ _ _ span _ _ _ helse =>
    obtain ⟨front, rfl⟩ := helse.exists_last
    exact ⟨ts ++ (us ++ (newlines ++ ⟨.keyword .elseKw, span⟩ :: front)), by simp⟩
termination_by structural h

theorem Stmt.WrittenElse.exists_last {n : Nat} {last : Span} {ts : List Token} {ss : List Stmt}
    (h : Stmt.WrittenElse n ts ss last) :
    ∃ front, ts = front ++ [⟨.symbol .rightBrace, last⟩] := by
  match h with
  | .elseIf start hif =>
    obtain ⟨front, rfl⟩ := hif.exists_last
    exact ⟨⟨.keyword .ifKw, start⟩ :: front, rfl⟩
  | .block hblock => exact hblock.exists_last
termination_by structural h

end

/-! ### Without spans -/

theorem Expr.Written.derives {n : Nat} {r : Rank} {ts : List Token} {e : Expr}
    (h : Expr.Written n r ts e) : Expr.Derives n r (lexemes ts) e.bare := by
  induction h with
  | number value span => exact .number value
  | trueWord span => exact .trueWord
  | falseWord span => exact .falseWord
  | name text span => exact .name text
  | parens left right h ih =>
    rw [lexemes, List.map_cons, List.map_append]
    exact .parens ih
  | base h ih => exact .base ih
  | power span hbase hexponent ihl ihr =>
    rw [lexemes, List.map_append]
    exact .power ihl ihr
  | plain h ih => exact .plain ih
  | sign op span h ih => exact .sign op ih
  | operand h ih => exact .operand ih
  | tighter h ih => exact .tighter ih
  | binary hop span hleft hright ihl ihr =>
    rw [lexemes, List.map_append]
    exact .binary hop ihl ihr
  | whole h ih => exact .whole ih

mutual

theorem Stmt.Written.derives {n : Nat} {ts : List Token} {s : Stmt} (h : Stmt.Written n ts s) :
    Stmt.Derives n (lexemes ts) s.bare := by
  match h with
  | .expression he => exact .expression he.derives
  | .assign name op start sign he => exact .assign name op he.derives
  | .print start left right he =>
    rw [lexemes, List.map_cons, List.map_cons, List.map_append]
    exact .print he.derives
  | .conditional start hif => exact .conditional hif.derives
  | .whileDo start hc hbody =>
    rw [lexemes, List.map_cons, List.map_append]
    exact .whileDo hc.derives hbody.derives
  | .breakLoop span => exact .breakLoop
  | .continueLoop span => exact .continueLoop
termination_by structural h

theorem Stmt.WrittenIf.derives {n : Nat} {start last : Span} {ts : List Token} {s : Stmt}
    (h : Stmt.WrittenIf n start ts s last) : Stmt.DerivesIf n (lexemes ts) s.bare := by
  match h with
  | .ifThen hc hbody =>
    rw [lexemes, List.map_append]
    exact .ifThen hc.derives hbody.derives
  | .ifElse span hnewlines hc hbody helse =>
    rw [lexemes, List.map_append, List.map_append, List.map_append,
      map_lexeme_newlines hnewlines]
    exact .ifElse _ hc.derives hbody.derives helse.derives
termination_by structural h

theorem Stmt.WrittenElse.derives {n : Nat} {last : Span} {ts : List Token} {ss : List Stmt}
    (h : Stmt.WrittenElse n ts ss last) : Stmt.DerivesElse n (lexemes ts) (Stmt.allBare ss) := by
  match h with
  | .elseIf start hif => exact .elseIf hif.derives
  | .block hblock => exact .block hblock.derives
termination_by structural h

theorem Stmt.WrittenBlock.derives {n : Nat} {last : Span} {ts : List Token} {ss : List Stmt}
    (h : Stmt.WrittenBlock n ts ss last) : Stmt.DerivesBlock n (lexemes ts) (Stmt.allBare ss) := by
  match h with
  | .braces left last hall =>
    rw [lexemes, List.map_cons, List.map_append]
    exact .braces hall.derives
termination_by structural h

theorem Stmt.WrittenAll.derives {n : Nat} {ts : List Token} {ss : List Stmt}
    (h : Stmt.WrittenAll n ts ss) : Stmt.DerivesAll n (lexemes ts) (Stmt.allBare ss) := by
  match h with
  | .nil => exact .nil
  | .skip hsep hall => exact .skip hsep hall.derives
  | .last hs => exact .last hs.derives
  | .cons hs hsep hall =>
    rw [lexemes, List.map_append]
    exact .cons hs.derives hsep hall.derives
termination_by structural h

end

/-! ### With the spans of tokens -/

theorem Expr.Derives.exists_written {n : Nat} {r : Rank} {us : List Lexeme} {e : Expr}
    (h : Expr.Derives n r us e) {ts : List Token} (hts : lexemes ts = us) :
    ∃ e', e'.bare = e ∧ Expr.Written n r ts e' := by
  induction h generalizing ts with
  | number value =>
    obtain ⟨⟨_, span⟩, rfl, rfl⟩ := exists_of_lexemes_singleton hts
    exact ⟨_, rfl, .number value span⟩
  | trueWord =>
    obtain ⟨⟨_, span⟩, rfl, rfl⟩ := exists_of_lexemes_singleton hts
    exact ⟨_, rfl, .trueWord span⟩
  | falseWord =>
    obtain ⟨⟨_, span⟩, rfl, rfl⟩ := exists_of_lexemes_singleton hts
    exact ⟨_, rfl, .falseWord span⟩
  | name text =>
    obtain ⟨⟨_, span⟩, rfl, rfl⟩ := exists_of_lexemes_singleton hts
    exact ⟨_, rfl, .name text span⟩
  | parens h ih =>
    obtain ⟨⟨_, left⟩, ts', rfl, rfl, hts'⟩ := exists_of_lexemes_cons hts
    obtain ⟨inside, last, rfl, hinside, hlast⟩ := exists_of_lexemes_append hts'
    obtain ⟨⟨_, right⟩, rfl, rfl⟩ := exists_of_lexemes_singleton hlast
    obtain ⟨e', he', hwritten⟩ := ih hinside
    exact ⟨e', he', .parens left right hwritten⟩
  | base h ih =>
    obtain ⟨e', he', hwritten⟩ := ih hts
    exact ⟨e', he', .base hwritten⟩
  | power hbase hexponent ihl ihr =>
    obtain ⟨ts₁, ts', rfl, hts₁, hts'⟩ := exists_of_lexemes_append hts
    obtain ⟨⟨_, span⟩, ts₂, rfl, rfl, hts₂⟩ := exists_of_lexemes_cons hts'
    obtain ⟨b', rfl, hb⟩ := ihl hts₁
    obtain ⟨x', rfl, hx⟩ := ihr hts₂
    exact ⟨_, rfl, .power span hb hx⟩
  | plain h ih =>
    obtain ⟨e', he', hwritten⟩ := ih hts
    exact ⟨e', he', .plain hwritten⟩
  | sign op h ih =>
    obtain ⟨⟨_, span⟩, ts', rfl, rfl, hts'⟩ := exists_of_lexemes_cons hts
    obtain ⟨e', rfl, hwritten⟩ := ih hts'
    exact ⟨_, rfl, .sign op span hwritten⟩
  | operand h ih =>
    obtain ⟨e', he', hwritten⟩ := ih hts
    exact ⟨e', he', .operand hwritten⟩
  | tighter h ih =>
    obtain ⟨e', he', hwritten⟩ := ih hts
    exact ⟨e', he', .tighter hwritten⟩
  | binary hop hleft hright ihl ihr =>
    obtain ⟨ts₁, ts', rfl, hts₁, hts'⟩ := exists_of_lexemes_append hts
    obtain ⟨⟨_, span⟩, ts₂, rfl, rfl, hts₂⟩ := exists_of_lexemes_cons hts'
    obtain ⟨left', rfl, hleft'⟩ := ihl hts₁
    obtain ⟨right', rfl, hright'⟩ := ihr hts₂
    exact ⟨_, rfl, .binary hop span hleft' hright'⟩
  | whole h ih =>
    obtain ⟨e', he', hwritten⟩ := ih hts
    exact ⟨e', he', .whole hwritten⟩

mutual

theorem Stmt.Derives.exists_written {n : Nat} {us : List Lexeme} {s : Stmt}
    (h : Stmt.Derives n us s) {ts : List Token} (hts : lexemes ts = us) :
    ∃ s', s'.bare = s ∧ Stmt.Written n ts s' := by
  match h with
  | .expression he =>
    obtain ⟨e', rfl, he'⟩ := he.exists_written hts
    exact ⟨_, rfl, .expression he'⟩
  | .assign name op he =>
    obtain ⟨⟨_, start⟩, ts', rfl, rfl, hts'⟩ := exists_of_lexemes_cons hts
    obtain ⟨⟨_, sign⟩, ts'', rfl, rfl, hts''⟩ := exists_of_lexemes_cons hts'
    obtain ⟨e', rfl, he'⟩ := he.exists_written hts''
    exact ⟨_, rfl, .assign name op start sign he'⟩
  | .print he =>
    obtain ⟨⟨_, start⟩, ts', rfl, rfl, hts'⟩ := exists_of_lexemes_cons hts
    obtain ⟨⟨_, left⟩, ts'', rfl, rfl, hts''⟩ := exists_of_lexemes_cons hts'
    obtain ⟨inside, last, rfl, hinside, hlast⟩ := exists_of_lexemes_append hts''
    obtain ⟨⟨_, right⟩, rfl, rfl⟩ := exists_of_lexemes_singleton hlast
    obtain ⟨e', rfl, he'⟩ := he.exists_written hinside
    exact ⟨_, rfl, .print start left right he'⟩
  | .conditional hif =>
    obtain ⟨⟨_, start⟩, ts', rfl, rfl, hts'⟩ := exists_of_lexemes_cons hts
    obtain ⟨s', last, rfl, hs'⟩ := hif.exists_written start hts'
    exact ⟨s', rfl, .conditional start hs'⟩
  | .whileDo hc hbody =>
    obtain ⟨⟨_, start⟩, ts', rfl, rfl, hts'⟩ := exists_of_lexemes_cons hts
    obtain ⟨ts₁, ts₂, rfl, hts₁, hts₂⟩ := exists_of_lexemes_append hts'
    obtain ⟨c', rfl, hc'⟩ := hc.exists_written hts₁
    obtain ⟨body', last, rfl, hbody'⟩ := hbody.exists_written hts₂
    exact ⟨_, rfl, .whileDo start hc' hbody'⟩
  | .breakLoop =>
    obtain ⟨⟨_, span⟩, rfl, rfl⟩ := exists_of_lexemes_singleton hts
    exact ⟨_, rfl, .breakLoop span⟩
  | .continueLoop =>
    obtain ⟨⟨_, span⟩, rfl, rfl⟩ := exists_of_lexemes_singleton hts
    exact ⟨_, rfl, .continueLoop span⟩
termination_by structural h

theorem Stmt.DerivesIf.exists_written {n : Nat} {us : List Lexeme} {s : Stmt}
    (h : Stmt.DerivesIf n us s) (start : Span) {ts : List Token} (hts : lexemes ts = us) :
    ∃ s' last, s'.bare = s ∧ Stmt.WrittenIf n start ts s' last := by
  match h with
  | .ifThen hc hbody =>
    obtain ⟨ts₁, ts₂, rfl, hts₁, hts₂⟩ := exists_of_lexemes_append hts
    obtain ⟨c', rfl, hc'⟩ := hc.exists_written hts₁
    obtain ⟨body', last, rfl, hbody'⟩ := hbody.exists_written hts₂
    exact ⟨_, last, rfl, .ifThen hc' hbody'⟩
  | .ifElse k hc hbody helse =>
    obtain ⟨ts₁, ts', rfl, hts₁, hts'⟩ := exists_of_lexemes_append hts
    obtain ⟨ts₂, ts'', rfl, hts₂, hts''⟩ := exists_of_lexemes_append hts'
    obtain ⟨newlines, ts₃, rfl, hnewlines, hts₃⟩ := exists_of_lexemes_append hts''
    obtain ⟨⟨_, span⟩, ts₄, rfl, rfl, hts₄⟩ := exists_of_lexemes_cons hts₃
    obtain ⟨c', rfl, hc'⟩ := hc.exists_written hts₁
    obtain ⟨body', middle, rfl, hbody'⟩ := hbody.exists_written hts₂
    obtain ⟨otherwise', last, rfl, helse'⟩ := helse.exists_written hts₄
    refine ⟨_, last, rfl, .ifElse span (fun t ht => ?_) hc' hbody' helse'⟩
    have hmem : t.lexeme ∈ lexemes newlines := List.mem_map_of_mem ht
    rw [hnewlines] at hmem
    exact List.eq_of_mem_replicate hmem
termination_by structural h

theorem Stmt.DerivesElse.exists_written {n : Nat} {us : List Lexeme} {ss : List Stmt}
    (h : Stmt.DerivesElse n us ss) {ts : List Token} (hts : lexemes ts = us) :
    ∃ ss' last, Stmt.allBare ss' = ss ∧ Stmt.WrittenElse n ts ss' last := by
  match h with
  | .elseIf hif =>
    obtain ⟨⟨_, start⟩, ts', rfl, rfl, hts'⟩ := exists_of_lexemes_cons hts
    obtain ⟨s', last, rfl, hs'⟩ := hif.exists_written start hts'
    exact ⟨[s'], last, rfl, .elseIf start hs'⟩
  | .block hblock =>
    obtain ⟨ss', last, rfl, hss'⟩ := hblock.exists_written hts
    exact ⟨ss', last, rfl, .block hss'⟩
termination_by structural h

theorem Stmt.DerivesBlock.exists_written {n : Nat} {us : List Lexeme} {ss : List Stmt}
    (h : Stmt.DerivesBlock n us ss) {ts : List Token} (hts : lexemes ts = us) :
    ∃ ss' last, Stmt.allBare ss' = ss ∧ Stmt.WrittenBlock n ts ss' last := by
  match h with
  | .braces hall =>
    obtain ⟨⟨_, left⟩, ts', rfl, rfl, hts'⟩ := exists_of_lexemes_cons hts
    obtain ⟨inside, end', rfl, hinside, hend⟩ := exists_of_lexemes_append hts'
    obtain ⟨⟨_, last⟩, rfl, rfl⟩ := exists_of_lexemes_singleton hend
    obtain ⟨ss', rfl, hss'⟩ := hall.exists_written hinside
    exact ⟨ss', last, rfl, .braces left last hss'⟩
termination_by structural h

theorem Stmt.DerivesAll.exists_written {n : Nat} {us : List Lexeme} {ss : List Stmt}
    (h : Stmt.DerivesAll n us ss) {ts : List Token} (hts : lexemes ts = us) :
    ∃ ss', Stmt.allBare ss' = ss ∧ Stmt.WrittenAll n ts ss' := by
  match h with
  | .nil =>
    obtain rfl : ts = [] := List.map_eq_nil_iff.1 hts
    exact ⟨[], rfl, .nil⟩
  | .skip hsep hall =>
    obtain ⟨sep, ts', rfl, rfl, hts'⟩ := exists_of_lexemes_cons hts
    obtain ⟨ss', hss', hwritten⟩ := hall.exists_written hts'
    exact ⟨ss', hss', .skip hsep hwritten⟩
  | .last hs =>
    obtain ⟨s', rfl, hs'⟩ := hs.exists_written hts
    exact ⟨[s'], rfl, .last hs'⟩
  | .cons hs hsep hall =>
    obtain ⟨ts₁, ts', rfl, hts₁, hts'⟩ := exists_of_lexemes_append hts
    obtain ⟨sep, ts₂, rfl, rfl, hts₂⟩ := exists_of_lexemes_cons hts'
    obtain ⟨s', rfl, hs'⟩ := hs.exists_written hts₁
    obtain ⟨ss', rfl, hss'⟩ := hall.exists_written hts₂
    exact ⟨s' :: ss', rfl, .cons hs' hsep hss'⟩
termination_by structural h

end

end Kestrel
