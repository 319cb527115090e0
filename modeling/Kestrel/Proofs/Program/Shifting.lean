import Kestrel.Proofs.Program.Parsing
import Kestrel.Proofs.Token.Munch

/-!
# Programs that stand elsewhere

Spans are merged by their offsets alone, so tokens that are moved to the right write the same
program, with all its spans moved along.

## Main definitions

- `Expr.shift`, `Stmt.shift` — a tree with all its spans moved

## Main statements

- `Stmt.WrittenAll.shift` — moved tokens write moved trees
- `Program.ofTokens_shift`, `Program.exists_read_of_shift` — moved tokens are read as moved programs
-/

namespace Kestrel

/-- A span moved to the right. -/
def Span.shift (k : Nat) (s : Span) : Span := ⟨s.start + k, s.stop + k⟩

/-- An expression with all its spans moved to the right. -/
def Expr.shift (k : Nat) : Expr → Expr
  | .number value span => .number value (span.shift k)
  | .boolean value span => .boolean value (span.shift k)
  | .name text span => .name text (span.shift k)
  | .unary op operand span => .unary op (operand.shift k) (span.shift k)
  | .binary left op right span => .binary (left.shift k) op (right.shift k) (span.shift k)

mutual

/-- A statement with all its spans moved to the right. -/
def Stmt.shift (k : Nat) : Stmt → Stmt
  | .expression value span => .expression (value.shift k) (span.shift k)
  | .assign name op value span => .assign name op (value.shift k) (span.shift k)
  | .print value span => .print (value.shift k) (span.shift k)
  | .ifThen condition body span =>
    .ifThen (condition.shift k) (Stmt.allShift k body) (span.shift k)
  | .ifElse condition body otherwise span =>
    .ifElse (condition.shift k) (Stmt.allShift k body) (Stmt.allShift k otherwise) (span.shift k)
  | .whileDo condition body span =>
    .whileDo (condition.shift k) (Stmt.allShift k body) (span.shift k)
  | .breakLoop span => .breakLoop (span.shift k)
  | .continueLoop span => .continueLoop (span.shift k)

/-- Statements with all their spans moved to the right. -/
def Stmt.allShift (k : Nat) : List Stmt → List Stmt
  | [] => []
  | s :: rest => s.shift k :: Stmt.allShift k rest

end

theorem Stmt.allShift_eq_map (k : Nat) (ss : List Stmt) :
    Stmt.allShift k ss = ss.map (Stmt.shift k) := by
  induction ss with
  | nil => rfl
  | cons s ss ih => rw [Stmt.allShift, ih, List.map_cons]

section Spans

variable (k : Nat)

theorem lexemes_shift (ts : List Token) : lexemes (ts.map (Token.shift k)) = lexemes ts :=
  List.map_map

theorem Span.merge_shift (a b : Span) : (a.shift k).merge (b.shift k) = (a.merge b).shift k := by
  simp only [Span.merge, Span.shift, Nat.add_min_add_right, Nat.add_max_add_right]

@[simp] theorem Expr.span_shift (e : Expr) : (e.shift k).span = e.span.shift k := by
  cases e <;> rfl

theorem Expr.join_shift (left : Expr) (op : BinaryOp) (right : Expr) :
    (left.shift k).join op (right.shift k) = (left.join op right).shift k := by
  simp only [Expr.join, Expr.shift, Expr.span_shift, Span.merge_shift]

end Spans

/-! ### What moved tokens write -/

/-- Moved tokens write the moved expression. -/
theorem Expr.Written.shift (k : Nat) {n : Nat} {r : Rank} {ts : List Token} {e : Expr}
    (h : Expr.Written n r ts e) : Expr.Written n r (ts.map (Token.shift k)) (e.shift k) := by
  induction h with
  | number value span => exact .number value (span.shift k)
  | trueWord span => exact .trueWord (span.shift k)
  | falseWord span => exact .falseWord (span.shift k)
  | name text span => exact .name text (span.shift k)
  | parens left right h ih =>
    rw [List.map_cons, List.map_append]
    exact .parens (left.shift k) (right.shift k) ih
  | base h ih => exact .base ih
  | power span hbase hexponent ihl ihr =>
    rw [List.map_append, ← Expr.join_shift]
    exact .power (span.shift k) ihl ihr
  | plain h ih => exact .plain ih
  | sign op span h ih =>
    rw [Expr.shift, ← Span.merge_shift, ← Expr.span_shift]
    exact .sign op (span.shift k) ih
  | operand h ih => exact .operand ih
  | tighter h ih => exact .tighter ih
  | binary hop span hleft hright ihl ihr =>
    rw [List.map_append, ← Expr.join_shift]
    exact .binary hop (span.shift k) ihl ihr
  | whole h ih => exact .whole ih

mutual

/-- Moved tokens write the moved statement. -/
theorem Stmt.Written.shift (k : Nat) {n : Nat} {ts : List Token} {s : Stmt}
    (h : Stmt.Written n ts s) : Stmt.Written n (ts.map (Token.shift k)) (s.shift k) := by
  match h with
  | .expression he =>
    rw [Stmt.shift, ← Expr.span_shift]
    exact .expression (he.shift k)
  | .assign name op start sign he =>
    rw [Stmt.shift, ← Span.merge_shift, ← Expr.span_shift]
    exact .assign name op (start.shift k) (sign.shift k) (he.shift k)
  | .print start left right he =>
    rw [Stmt.shift, ← Span.merge_shift, List.map_cons, List.map_cons, List.map_append]
    exact .print (start.shift k) (left.shift k) (right.shift k) (he.shift k)
  | .conditional start hif => exact .conditional (start.shift k) (hif.shift k)
  | .whileDo start hc hbody =>
    rw [Stmt.shift, ← Span.merge_shift, List.map_cons, List.map_append]
    exact .whileDo (start.shift k) (hc.shift k) (hbody.shift k)
  | .breakLoop span => exact .breakLoop (span.shift k)
  | .continueLoop span => exact .continueLoop (span.shift k)
termination_by structural h

theorem Stmt.WrittenIf.shift (k : Nat) {n : Nat} {start last : Span} {ts : List Token} {s : Stmt}
    (h : Stmt.WrittenIf n start ts s last) :
    Stmt.WrittenIf n (start.shift k) (ts.map (Token.shift k)) (s.shift k) (last.shift k) := by
  match h with
  | .ifThen hc hbody =>
    rw [Stmt.shift, ← Span.merge_shift, List.map_append]
    exact .ifThen (hc.shift k) (hbody.shift k)
  | .ifElse span hnewlines hc hbody helse =>
    rw [Stmt.shift, ← Span.merge_shift, List.map_append, List.map_append, List.map_append]
    exact .ifElse (span.shift k) (List.forall_mem_map.2 hnewlines) (hc.shift k) (hbody.shift k)
      (helse.shift k)
termination_by structural h

theorem Stmt.WrittenElse.shift (k : Nat) {n : Nat} {last : Span} {ts : List Token}
    {ss : List Stmt} (h : Stmt.WrittenElse n ts ss last) :
    Stmt.WrittenElse n (ts.map (Token.shift k)) (Stmt.allShift k ss) (last.shift k) := by
  match h with
  | .elseIf start hif => exact .elseIf (start.shift k) (hif.shift k)
  | .block hblock => exact .block (hblock.shift k)
termination_by structural h

theorem Stmt.WrittenBlock.shift (k : Nat) {n : Nat} {last : Span} {ts : List Token}
    {ss : List Stmt} (h : Stmt.WrittenBlock n ts ss last) :
    Stmt.WrittenBlock n (ts.map (Token.shift k)) (Stmt.allShift k ss) (last.shift k) := by
  match h with
  | .braces left last hall =>
    rw [List.map_cons, List.map_append]
    exact .braces (left.shift k) (last.shift k) (hall.shift k)
termination_by structural h

theorem Stmt.WrittenAll.shift (k : Nat) {n : Nat} {ts : List Token} {ss : List Stmt}
    (h : Stmt.WrittenAll n ts ss) :
    Stmt.WrittenAll n (ts.map (Token.shift k)) (Stmt.allShift k ss) := by
  match h with
  | .nil => exact .nil
  | .skip hsep hall => exact .skip hsep (hall.shift k)
  | .last hs => exact .last (hs.shift k)
  | .cons hs hsep hall =>
    rw [List.map_append]
    exact .cons (hs.shift k) hsep (hall.shift k)
termination_by structural h

end

/-- Moved tokens are read as the moved program. -/
theorem Program.ofTokens_shift (k : Nat) {ts : List Token} {program : Program}
    (h : Program.ofTokens ts = .ok program) :
    Program.ofTokens (ts.map (Token.shift k)) = .ok (Stmt.allShift k program) :=
  Program.ofTokens_of_written ((Program.written_of_ofTokens h).shift k)

/-- A statement that moved tokens write is read from the tokens before they were moved. -/
theorem Program.exists_read_of_shift {k : Nat} {ts : List Token} {s : Stmt}
    (h : Stmt.Written maxDepth (ts.map (Token.shift k)) s) :
    ∃ s', Program.ofTokens ts = .ok [s'] ∧ s'.shift k = s := by
  have hall : Stmt.WrittenAll maxDepth (ts.map (Token.shift k)) [s] := .last h
  -- the lexemes derive the statement, so one is read, and moved it has to be this one
  have hderives := hall.derives
  rw [lexemes_shift] at hderives
  obtain ⟨read, hread, -⟩ := Program.ofTokens_of_derives hderives
  have hmoved := Program.ofTokens_shift k hread
  rw [Program.ofTokens_of_written hall, Except.ok.injEq, Stmt.allShift_eq_map] at hmoved
  obtain ⟨s', rfl, hs'⟩ := List.map_eq_singleton_iff.1 hmoved.symm
  exact ⟨s', hread, hs'⟩

end Kestrel
