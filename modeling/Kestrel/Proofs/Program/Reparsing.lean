import Mathlib.Data.List.Basic
import Kestrel.Proofs.Program.Parentheses
import Kestrel.Proofs.Program.Shifting
import Kestrel.Proofs.Program.SourceMap
import Kestrel.Proofs.Token.Excerpts

/-!
# The text under a statement

The span of a statement goes from one of its tokens to another one. What it leaves out are
parentheses at the ends of an expression. The text under the span, read by itself, is the same
statement again if the parentheses that are left out are partners of each other, and it is no
statement at all if they are not.

## Main definitions

- `Span.LeavesOut` — a span goes around some tokens up to parentheses
- `Stmt.endsInExpression` — a statement whose last part is an expression

## Main statements

- `Expr.Written.exists_leavesOut`, `Stmt.Written.exists_leavesOut` — what a span leaves out
- `Program.reads_text_iff` — when a statement is read again from the text under its span

## Design notes

Nothing of a pair of parentheses is kept in a tree, so the span of `(a + b) * c` starts at `a` and
stops behind `c`.
-/

namespace Kestrel

/-! ### Spans and tokens -/

/-- A span goes around some tokens, and leaves out opening parentheses in front of them and closing
ones behind. -/
structure Span.LeavesOut (s : Span) (left inner right : List Token) : Prop where
  opening : ∀ t ∈ left, t.lexeme = .symbol .leftParen
  closing : ∀ t ∈ right, t.lexeme = .symbol .rightParen
  around : s.Around inner

section Spans

variable {a b s : Span} {t : Token} {ts us left inner right left' inner' right' : List Token}

theorem Span.around_token (t : Token) : t.span.Around [t] := ⟨rfl, rfl⟩

theorem Span.Around.ne_nil (h : s.Around ts) : ts ≠ [] := by
  rintro rfl
  cases h.first

/-- From the first of some tokens to the last of later ones. -/
theorem Span.Around.trans (ha : a.Around ts) (hb : b.Around us) (between : List Token) :
    Span.Around ⟨a.start, b.stop⟩ (ts ++ (between ++ us)) := by
  constructor
  · rw [List.head?_append_of_ne_nil _ ha.ne_nil, ha.first]
  · rw [← List.append_assoc, List.getLast?_append_of_ne_nil _ hb.ne_nil, hb.last]

theorem Span.Around.covers (h : s.Around ts) (hlaid : LaidOut ts) : s.Covers ts := by
  obtain ⟨first, hfirst, hstart⟩ := Option.map_eq_some_iff.1 h.first
  obtain ⟨last, hlast, hstop⟩ := Option.map_eq_some_iff.1 h.last
  obtain ⟨rest, rfl⟩ := List.head?_eq_some_iff.1 hfirst
  have hmem := List.mem_of_getLast? hlast
  refine ⟨⟨first, List.mem_cons_self, hstart⟩, ⟨last, hmem, hstop⟩, ?_⟩
  rw [← hstart, ← hstop]
  have hlt := hlaid.start_lt_stop last hmem
  rcases List.mem_cons.1 hmem with rfl | hrest
  · exact hlt
  · have hle := (List.pairwise_cons.1 hlaid.ordered).1 last hrest
    have hlt' := hlaid.start_lt_stop first List.mem_cons_self
    omega

theorem Span.Around.leavesOut (h : s.Around ts) : s.LeavesOut [] ts [] := ⟨nofun, nofun, h⟩

theorem Span.LeavesOut.covers (h : s.LeavesOut left inner right)
    (hlaid : LaidOut (left ++ (inner ++ right))) : s.Covers (left ++ (inner ++ right)) :=
  (h.around.covers hlaid.right.left).mono
    (List.subset_append_of_subset_right left (List.subset_append_left inner right))

/-- Merged spans leave out what the first one does in front and what the second one does behind. -/
theorem Span.LeavesOut.merge (ha : a.LeavesOut left inner right)
    (hb : b.LeavesOut left' inner' right')
    (hlaid : LaidOut ((left ++ (inner ++ right)) ++ t :: (left' ++ (inner' ++ right')))) :
    (a.merge b).LeavesOut left (inner ++ ((right ++ t :: left') ++ inner')) right' := by
  have hb' := (hb.covers hlaid.right.tail).mono (List.subset_cons_self t _)
  rw [hlaid.merge_eq (ha.covers hlaid.left) hb']
  exact ⟨ha.opening, hb.closing, ha.around.trans hb.around _⟩

/-- A span that starts with a token leaves out nothing in front. -/
theorem Span.LeavesOut.merge_token (hb : b.LeavesOut left inner right) (between : List Token)
    (hlaid : LaidOut (t :: (between ++ (left ++ (inner ++ right))))) :
    (t.span.merge b).LeavesOut [] ([t] ++ ((between ++ left) ++ inner)) right := by
  have hlaid' : LaidOut ([t] ++ (between ++ (left ++ (inner ++ right)))) := hlaid
  have hb' := (hb.covers hlaid'.right.right).mono (List.subset_append_right between _)
  rw [hlaid'.merge_eq (hlaid'.left.covers (List.mem_singleton_self t)) hb']
  exact ⟨nofun, hb.closing, (Span.around_token t).trans hb.around _⟩

/-- A span from the first token to the last one leaves out nothing. -/
theorem LaidOut.leavesOut {last : Token} {between : List Token}
    (hlaid : LaidOut (t :: (between ++ [last]))) :
    (t.span.merge last.span).LeavesOut [] (t :: (between ++ [last])) [] := by
  have hout := (Span.around_token last).leavesOut.merge_token between hlaid
  rwa [List.append_nil] at hout

end Spans

/-! ### Expressions -/

/-- The span of an expression leaves out parentheses only. -/
theorem Expr.Written.exists_leavesOut {n : Nat} {r : Rank} {ts : List Token} {e : Expr}
    (h : Expr.Written n r ts e) (hlaid : LaidOut ts) :
    ∃ left inner right, ts = left ++ (inner ++ right) ∧ e.span.LeavesOut left inner right := by
  induction h with
  | number | trueWord | falseWord | name =>
    exact ⟨[], _, [], rfl, (Span.around_token ⟨_, _⟩).leavesOut⟩
  | parens first last h ih =>
    obtain ⟨left, inner, right, rfl, hout⟩ := ih hlaid.tail.left
    refine ⟨⟨.symbol .leftParen, first⟩ :: left, inner, right ++ [⟨.symbol .rightParen, last⟩],
      by simp, ?_, ?_, hout.around⟩
    · exact List.forall_mem_cons.2 ⟨rfl, hout.opening⟩
    · exact List.forall_mem_append.2 ⟨hout.closing, List.forall_mem_singleton.2 rfl⟩
  | base h ih | plain h ih | operand h ih | tighter h ih | whole h ih => exact ih hlaid
  | power _ _ _ ihl ihr | binary _ _ _ _ ihl ihr =>
    obtain ⟨left, inner, right, rfl, hout⟩ := ihl hlaid.left
    obtain ⟨left', inner', right', rfl, hout'⟩ := ihr hlaid.right.tail
    exact ⟨left, _, right', by simp, hout.merge hout' hlaid⟩
  | @sign n ts e op span h ih =>
    obtain ⟨left, inner, right, rfl, hout⟩ := ih hlaid.tail
    exact ⟨[], _, right, by simp, hout.merge_token [] hlaid⟩

/-- Parentheses around a whole expression can be taken away all at once. -/
theorem Expr.Written.of_parentheses {n : Nat} {left inner right : List Token} {e : Expr}
    (h : Expr.Written n .whole (left ++ (inner ++ right)) e)
    (hleft : ∀ t ∈ left, t.lexeme = .symbol .leftParen)
    (hright : ∀ t ∈ right, t.lexeme = .symbol .rightParen)
    (hinner : ParensMatch (lexemes inner)) : Expr.Written n .whole inner e := by
  have hlength := (parensMatch_lexemes_iff hleft hinner hright).1 h.derives.parensMatch
  induction left generalizing right with
  | nil =>
    obtain rfl := List.length_eq_zero_iff.1 hlength.symm
    rwa [List.nil_append, List.append_nil] at h
  | cons t left ih =>
    obtain ⟨ht, hleft'⟩ := List.forall_mem_cons.1 hleft
    rcases List.eq_nil_or_concat right with rfl | ⟨right, t', rfl⟩
    · cases hlength
    · rw [List.concat_eq_append] at h hright hlength
      have hright' := (List.forall_mem_append.1 hright).1
      have hlength' : left.length = right.length := by simpa using hlength
      rw [List.cons_append, ← List.append_assoc inner, ← List.append_assoc left] at h
      have hmatch := (parensMatch_lexemes_iff hleft' hinner hright').2 hlength'
      exact ih (h.of_parens ht hmatch) hleft' hright' hlength'

/-! ### Statements -/

/-- The last part of the statement is an expression. -/
def Stmt.endsInExpression : Stmt → Bool
  | .expression _ _ | .assign _ _ _ _ => true
  | .print _ _ | .ifThen _ _ _ | .ifElse _ _ _ _ | .whileDo _ _ _ | .breakLoop _
  | .continueLoop _ => false

/-- The span of a statement leaves out parentheses only, and those only at the ends of an
expression. If parentheses match in what is left, the statement is written without them. -/
theorem Stmt.Written.exists_leavesOut {n : Nat} {ts : List Token} {s : Stmt}
    (h : Stmt.Written n ts s) (hlaid : LaidOut ts) :
    ∃ left inner right, ts = left ++ (inner ++ right) ∧ s.span.LeavesOut left inner right ∧
      (ParensMatch (lexemes inner) → Stmt.Written n inner s) ∧
      (s.endsInExpression = false → ts = inner) := by
  have hwritten := h
  cases h with
  | expression he =>
    obtain ⟨left, inner, right, rfl, hout⟩ := he.exists_leavesOut hlaid
    exact ⟨left, inner, right, rfl, hout,
      fun hinner => .expression (he.of_parentheses hout.opening hout.closing hinner), nofun⟩
  | @assign _ ts e name op start sign he =>
    obtain ⟨left, inner, right, rfl, hout⟩ := he.exists_leavesOut hlaid.tail.tail
    refine ⟨[], _, right, by simp, hout.merge_token [⟨op.lexeme, sign⟩] hlaid, ?_, nofun⟩
    -- nothing is left out in front, so a parenthesis left out behind would have no partner
    intro hinner
    have hiff := parensMatch_lexemes_iff (List.forall_mem_nil _) hinner hout.closing
    have hlength := hiff.1 (by simpa using hwritten.derives.parensMatch)
    obtain rfl : right = [] := List.length_eq_zero_iff.1 hlength.symm
    simpa using hwritten
  | @print _ ts e start left right he =>
    have hout := @LaidOut.leavesOut _ ⟨.symbol .rightParen, right⟩ (_ :: ts) hlaid
    exact ⟨[], _, [], (List.append_nil _).symm, hout, fun _ => hwritten, fun _ => rfl⟩
  | @conditional _ ts s last start hif =>
    obtain ⟨front, rfl⟩ := hif.exists_last
    rw [hif.span_eq]
    exact ⟨[], _, [], (List.append_nil _).symm, hlaid.leavesOut, fun _ => hwritten, fun _ => rfl⟩
  | @whileDo _ ts us c body last start hc hbody =>
    obtain ⟨front, rfl⟩ := hbody.exists_last
    rw [← List.append_assoc] at hlaid hwritten ⊢
    exact ⟨[], _, [], (List.append_nil _).symm, hlaid.leavesOut, fun _ => hwritten, fun _ => rfl⟩
  | breakLoop span | continueLoop span =>
    exact ⟨[], _, [], rfl, (Span.around_token ⟨_, span⟩).leavesOut, fun _ => hwritten, fun _ => rfl⟩

/-! ### Reading a statement again -/

/-- The tokens of the text under a statement, moved to where it stands, write it if parentheses
match in them, and they do unless the statement ends in an expression. -/
theorem Program.written_of_parensMatch {source : String} {program : Program}
    (h : Program.ofTokens (tokenize source) = .ok program) {s : Stmt} (hs : s ∈ program) :
    let ts := tokenize (s.span.text source)
    (ParensMatch (lexemes ts) →
      Stmt.Written maxDepth (ts.map (Token.shift s.span.start)) s) ∧
      (s.endsInExpression = false → ParensMatch (lexemes ts)) := by
  intro ts
  obtain ⟨before, front, after, htokens, hwritten⟩ :=
    (Program.written_of_ofTokens h).exists_of_mem hs
  have hlaid : LaidOut front := by
    have hall := laidOut_tokenize source
    rw [htokens] at hall
    exact hall.right.left
  obtain ⟨left, inner, right, rfl, hout, hinner, hwhole⟩ := hwritten.exists_leavesOut hlaid
  have hshift : ts.map (Token.shift s.span.start) = inner := by
    have hsplit : tokenize source = (before ++ left) ++ (inner ++ (right ++ after)) := by
      rw [htokens]
      simp
    exact map_shift_tokenize_text hsplit hout.around
  rw [← lexemes_shift s.span.start, hshift]
  refine ⟨hinner, fun hends => ?_⟩
  rw [← hwhole hends]
  exact hwritten.derives.parensMatch

/-- A statement of a program is read again from the text under its span, with all its spans moved to
where it stands, if and only if parentheses match in this text. They do unless the statement ends in
an expression. -/
theorem Program.reads_text_iff {source : String} {program : Program}
    (h : Program.ofTokens (tokenize source) = .ok program) {s : Stmt} (hs : s ∈ program) :
    ((∃ s', Program.ofTokens (tokenize (s.span.text source)) = .ok [s'] ∧
        s'.shift s.span.start = s) ↔ ParensMatch (lexemes (tokenize (s.span.text source)))) ∧
      (s.endsInExpression = false →
        ParensMatch (lexemes (tokenize (s.span.text source)))) := by
  obtain ⟨hwritten, hends⟩ := Program.written_of_parensMatch h hs
  refine ⟨⟨?_, fun hmatch => Program.exists_read_of_shift (hwritten hmatch)⟩, hends⟩
  rintro ⟨s', hs', -⟩
  exact (Program.derives_of_ofTokens hs').parensMatch

/-- The span of a sum in two pairs of parentheses leaves out both of them. -/
theorem reads_text_sum : ∃ program s, Program.ofTokens (tokenize "// é\n((a + b))") = .ok program ∧
    s ∈ program ∧ s.span = ⟨8, 13⟩ ∧
    ParensMatch (lexemes (tokenize (s.span.text "// é\n((a + b))"))) ∧
    ∃ s', Program.ofTokens (tokenize (s.span.text "// é\n((a + b))")) = .ok [s'] ∧
      s'.shift s.span.start = s := by
  have htokens : tokenize "// é\n((a + b))" =
      [⟨.newline, ⟨5, 6⟩⟩, ⟨.symbol .leftParen, ⟨6, 7⟩⟩, ⟨.symbol .leftParen, ⟨7, 8⟩⟩,
        ⟨.name "a", ⟨8, 9⟩⟩, ⟨.symbol .plus, ⟨10, 11⟩⟩, ⟨.name "b", ⟨12, 13⟩⟩,
        ⟨.symbol .rightParen, ⟨13, 14⟩⟩, ⟨.symbol .rightParen, ⟨14, 15⟩⟩] := by decide +kernel
  have hparse : Program.ofTokens (tokenize "// é\n((a + b))") =
      .ok [.expression (.binary (.name "a" ⟨8, 9⟩) .add (.name "b" ⟨12, 13⟩) ⟨8, 13⟩)
        ⟨8, 13⟩] := by
    rw [htokens]
    with_unfolding_all rfl
  have htext : tokenize (Span.text ⟨8, 13⟩ "// é\n((a + b))") =
      [⟨.name "a", ⟨0, 1⟩⟩, ⟨.symbol .plus, ⟨2, 3⟩⟩, ⟨.name "b", ⟨4, 5⟩⟩] := by decide +kernel
  have hmatch : ParensMatch (lexemes (tokenize (Span.text ⟨8, 13⟩ "// é\n((a + b))"))) := by
    rw [htext]
    rfl
  exact ⟨_, _, hparse, List.mem_singleton_self _, rfl, hmatch,
    (Program.reads_text_iff hparse (List.mem_singleton_self _)).1.2 hmatch⟩

/-- The span of a product with a sum in parentheses starts behind the opening one, so the text under
it has a parenthesis without a partner, and is no program. -/
theorem not_reads_text_product : ∃ program s,
    Program.ofTokens (tokenize "(a + b) * c") = .ok program ∧ s ∈ program ∧ s.span = ⟨1, 11⟩ ∧
      ¬ ∃ s', Program.ofTokens (tokenize (s.span.text "(a + b) * c")) = .ok [s'] ∧
        s'.shift s.span.start = s := by
  have htokens : tokenize "(a + b) * c" =
      [⟨.symbol .leftParen, ⟨0, 1⟩⟩, ⟨.name "a", ⟨1, 2⟩⟩, ⟨.symbol .plus, ⟨3, 4⟩⟩,
        ⟨.name "b", ⟨5, 6⟩⟩, ⟨.symbol .rightParen, ⟨6, 7⟩⟩, ⟨.symbol .star, ⟨8, 9⟩⟩,
        ⟨.name "c", ⟨10, 11⟩⟩] := by decide +kernel
  have hparse : Program.ofTokens (tokenize "(a + b) * c") =
      .ok [.expression (.binary (.binary (.name "a" ⟨1, 2⟩) .add (.name "b" ⟨5, 6⟩) ⟨1, 6⟩) .mul
        (.name "c" ⟨10, 11⟩) ⟨1, 11⟩) ⟨1, 11⟩] := by
    rw [htokens]
    with_unfolding_all rfl
  have htext : tokenize (Span.text ⟨1, 11⟩ "(a + b) * c") =
      [⟨.name "a", ⟨0, 1⟩⟩, ⟨.symbol .plus, ⟨2, 3⟩⟩, ⟨.name "b", ⟨4, 5⟩⟩,
        ⟨.symbol .rightParen, ⟨5, 6⟩⟩, ⟨.symbol .star, ⟨7, 8⟩⟩, ⟨.name "c", ⟨9, 10⟩⟩] := by
    decide +kernel
  have herror : Program.ofTokens (tokenize (Span.text ⟨1, 11⟩ "(a + b) * c")) =
      .error (.expected .endOfStatement (some (.symbol .rightParen)) ⟨5, 6⟩) := by
    rw [htext]
    with_unfolding_all rfl
  refine ⟨_, _, hparse, List.mem_singleton_self _, rfl, ?_⟩
  rintro ⟨s', hs', -⟩
  cases herror.symm.trans hs'

end Kestrel
