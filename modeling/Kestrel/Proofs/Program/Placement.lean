import Kestrel.Proofs.Program.Nodes
import Kestrel.Proofs.Program.Written

/-!
# Where the parts of a program stand

Tokens are laid out if none is empty and each stops before the next one starts. The trees that they
write are then laid out as well: every part covers some of the tokens, parts lie inside of what they
belong to, and parts next to each other come in order and have nothing in common.

## Main definitions

- `LaidOut` — tokens one after the other
- `Span.Covers` — a span from one token to another one
- `Node.PlacedBy` — a part of a program stands where it has to among some tokens

## Main statements

- `Expr.Written.placed`, `Stmt.WrittenAll.placed` — what is written is placed, in all its parts
-/

namespace Kestrel

/-! ### Tokens and spans -/

/-- Tokens that are not empty and come one after the other. -/
structure LaidOut (ts : List Token) : Prop where
  start_lt_stop : ∀ t ∈ ts, t.span.start < t.span.stop
  ordered : ts.Pairwise fun t t' => t.span.stop ≤ t'.span.start

/-- A span that starts where one of the tokens does and stops where one of them does, and that is
not empty. -/
structure Span.Covers (s : Span) (ts : List Token) : Prop where
  starts : ∃ t ∈ ts, t.span.start = s.start
  stops : ∃ t ∈ ts, t.span.stop = s.stop
  start_lt_stop : s.start < s.stop

section Spans

variable {a b s : Span} {t : Token} {ts us vs : List Token}

theorem LaidOut.sublist (h : LaidOut ts) (hsub : us.Sublist ts) : LaidOut us :=
  ⟨fun t ht => h.start_lt_stop t (hsub.subset ht), h.ordered.sublist hsub⟩

theorem LaidOut.left (h : LaidOut (ts ++ us)) : LaidOut ts :=
  h.sublist (List.sublist_append_left ts us)

theorem LaidOut.right (h : LaidOut (ts ++ us)) : LaidOut us :=
  h.sublist (List.sublist_append_right ts us)

theorem LaidOut.tail (h : LaidOut (t :: ts)) : LaidOut ts :=
  h.sublist (List.sublist_cons_self t ts)

theorem Span.Covers.mono (h : s.Covers ts) (hsub : ts ⊆ us) : s.Covers us := by
  obtain ⟨⟨t, ht, hstart⟩, ⟨t', ht', hstop⟩, hlt⟩ := h
  exact ⟨⟨t, hsub ht, hstart⟩, ⟨t', hsub ht', hstop⟩, hlt⟩

theorem LaidOut.covers (h : LaidOut ts) (ht : t ∈ ts) : t.span.Covers ts :=
  ⟨⟨t, ht, rfl⟩, ⟨t, ht, rfl⟩, h.start_lt_stop t ht⟩

/-- The last of some tokens covers itself. -/
theorem LaidOut.covers_last {lexeme : Lexeme} (h : LaidOut ts)
    (hlast : ∃ front, ts = front ++ [⟨lexeme, s⟩]) : s.Covers ts := by
  obtain ⟨front, rfl⟩ := hlast
  exact h.covers (List.mem_append_right front (List.mem_singleton_self _))

/-- What covers earlier tokens stops before what covers later ones. -/
theorem LaidOut.stop_le_start (h : LaidOut (ts ++ us)) (ha : a.Covers ts) (hb : b.Covers us) :
    a.stop ≤ b.start := by
  obtain ⟨t, ht, hstop⟩ := ha.stops
  obtain ⟨t', ht', hstart⟩ := hb.starts
  have hle := (List.pairwise_append.1 h.ordered).2.2 t ht t' ht'
  rwa [hstop, hstart] at hle

/-- Merged spans, the first of which stops before the second one starts, reach from the start of the
first to the stop of the second. -/
theorem Span.merge_of_le (ha : a.start < a.stop) (hb : b.start < b.stop) (h : a.stop ≤ b.start) :
    a.merge b = ⟨a.start, b.stop⟩ := by
  rw [Span.merge, Nat.min_eq_left (by omega), Nat.max_eq_right (by omega)]

theorem LaidOut.merge_eq (h : LaidOut (ts ++ us)) (ha : a.Covers ts) (hb : b.Covers us) :
    a.merge b = ⟨a.start, b.stop⟩ :=
  Span.merge_of_le ha.start_lt_stop hb.start_lt_stop (h.stop_le_start ha hb)

theorem LaidOut.covers_merge (h : LaidOut (ts ++ us)) (ha : a.Covers ts) (hb : b.Covers us) :
    (a.merge b).Covers (ts ++ us) := by
  have hle := h.stop_le_start ha hb
  have ha' := ha.start_lt_stop
  have hb' := hb.start_lt_stop
  rw [h.merge_eq ha hb]
  refine ⟨(ha.mono (List.subset_append_left ts us)).starts,
    (hb.mono (List.subset_append_right ts us)).stops, ?_⟩
  show a.start < b.stop
  omega

end Spans

/-! ### Parts of programs -/

/-- The token that an expression is, if it is a single one. -/
def Expr.token? : Expr → Option Token
  | .number value span => some ⟨.number value, span⟩
  | .boolean true span => some ⟨.keyword .trueKw, span⟩
  | .boolean false span => some ⟨.keyword .falseKw, span⟩
  | .name text span => some ⟨.name text, span⟩
  | .unary _ _ _ | .binary _ _ _ _ => none

/-- The token that a part of a program is, if it is an expression of a single one. -/
def Node.token? : Node → Option Token
  | .expr e => e.token?
  | .stmt _ => none

/-- A part of a program stands where it has to among some tokens: it covers some of them, with its
own parts inside and in order, and if it is a single token, then one of them. -/
structure Node.PlacedBy (n : Node) (ts : List Token) : Prop where
  covers : n.span.Covers ts
  inside : ∀ child ∈ n.children,
    n.span.start ≤ child.span.start ∧ child.span.stop ≤ n.span.stop
  apart : n.children.Pairwise fun child child' => child.span.stop ≤ child'.span.start
  token : ∀ t ∈ n.token?, t ∈ ts

/-- A part of a program and all its parts stand where they have to. -/
def Node.AllPlacedBy (root : Node) (ts : List Token) : Prop :=
  ∀ n : Node, n.IsIn root → n.PlacedBy ts

/-- Parts of a program that are placed by some tokens and come one after the other. -/
structure RowPlaced (ns : List Node) (ts : List Token) : Prop where
  placed : ∀ n ∈ ns, n.AllPlacedBy ts
  apart : ns.Pairwise fun n n' => n.span.stop ≤ n'.span.start

section Nodes

variable {n root : Node} {ns ns' : List Node} {t : Token} {ts us : List Token}

theorem Node.PlacedBy.mono (h : n.PlacedBy ts) (hsub : ts ⊆ us) : n.PlacedBy us :=
  ⟨h.covers.mono hsub, h.inside, h.apart, fun t ht => hsub (h.token t ht)⟩

theorem Node.AllPlacedBy.mono (h : root.AllPlacedBy ts) (hsub : ts ⊆ us) : root.AllPlacedBy us :=
  fun n hn => (h n hn).mono hsub

theorem Node.AllPlacedBy.covers (h : root.AllPlacedBy ts) : root.span.Covers ts :=
  (h root (.self root)).covers

theorem RowPlaced.covers (h : RowPlaced ns ts) (hn : n ∈ ns) : n.span.Covers ts :=
  (h.placed n hn).covers

theorem RowPlaced.mono (h : RowPlaced ns ts) (hsub : ts ⊆ us) : RowPlaced ns us :=
  ⟨fun n hn => (h.placed n hn).mono hsub, h.apart⟩

theorem RowPlaced.nil (ts : List Token) : RowPlaced [] ts := ⟨nofun, .nil⟩

theorem Node.AllPlacedBy.row (h : n.AllPlacedBy ts) : RowPlaced [n] ts :=
  ⟨List.forall_mem_singleton.2 h, List.pairwise_singleton _ _⟩

theorem RowPlaced.append (hlaid : LaidOut (ts ++ us)) (h : RowPlaced ns ts)
    (h' : RowPlaced ns' us) : RowPlaced (ns ++ ns') (ts ++ us) := by
  constructor
  · exact List.forall_mem_append.2
      ⟨(h.mono (List.subset_append_left ts us)).placed,
        (h'.mono (List.subset_append_right ts us)).placed⟩
  · exact List.pairwise_append.2 ⟨h.apart, h'.apart,
      fun n hn n' hn' => hlaid.stop_le_start (h.covers hn) (h'.covers hn')⟩

/-- What covers later tokens stops behind a row. -/
theorem RowPlaced.stop_le (hlaid : LaidOut (ts ++ us)) (h : RowPlaced ns ts) {last : Span}
    (hlast : last.Covers us) : ∀ n ∈ ns, n.span.stop ≤ last.stop := by
  intro n hn
  have hle := hlaid.stop_le_start (h.covers hn) hlast
  have hlt := hlast.start_lt_stop
  omega

/-- A part that has no parts and is written by a single token is placed. -/
theorem Node.allPlacedBy_of_single (hlaid : LaidOut [t]) (hspan : root.span = t.span)
    (hchildren : root.children = []) (htoken : ∀ t' ∈ root.token?, t' = t) :
    root.AllPlacedBy [t] := by
  refine Node.forall_isIn_iff.2 ⟨⟨?_, ?_, ?_, ?_⟩, ?_⟩
  · rw [hspan]
    exact hlaid.covers (List.mem_singleton_self t)
  · rw [hchildren]
    nofun
  · rw [hchildren]
    exact .nil
  · exact fun t' ht' => List.mem_singleton.2 (htoken t' ht')
  · rw [hchildren]
    nofun

/-- A part that starts with a token and reaches to the last of what is behind it is placed, if its
own parts are. -/
theorem Node.allPlacedBy_of_row (root : Node) {last : Span} (hlaid : LaidOut (t :: us))
    (hrow : RowPlaced root.children us) (hspan : root.span = t.span.merge last)
    (hlast : last.Covers us) (hstop : ∀ child ∈ root.children, child.span.stop ≤ last.stop)
    (htoken : root.token? = none) : root.AllPlacedBy (t :: us) := by
  have hlaid' : LaidOut ([t] ++ us) := hlaid
  have ht := hlaid'.left.covers (List.mem_singleton_self t)
  refine Node.forall_isIn_iff.2 ⟨⟨?_, ?_, hrow.apart, ?_⟩, ?_⟩
  · rw [hspan]
    exact hlaid'.covers_merge ht hlast
  · intro child hchild
    have hlt := ht.start_lt_stop
    have hle := hlaid'.stop_le_start ht (hrow.covers hchild)
    rw [hspan, hlaid'.merge_eq ht hlast]
    exact ⟨Nat.le_trans (Nat.le_of_lt hlt) hle, hstop child hchild⟩
  · rw [htoken]
    nofun
  · exact (hrow.mono (List.subset_cons_self t us)).placed

/-- Two expressions that are joined are placed together. -/
theorem Expr.allPlacedBy_join {left right : Expr} (op : BinaryOp) (hlaid : LaidOut (ts ++ us))
    (hleft : (Node.expr left).AllPlacedBy ts) (hright : (Node.expr right).AllPlacedBy us) :
    (Node.expr (left.join op right)).AllPlacedBy (ts ++ us) := by
  have hle : left.span.stop ≤ right.span.start := hlaid.stop_le_start hleft.covers hright.covers
  have hl : left.span.start < left.span.stop := hleft.covers.start_lt_stop
  have hr : right.span.start < right.span.stop := hright.covers.start_lt_stop
  have hspan : (left.join op right).span = ⟨left.span.start, right.span.stop⟩ :=
    hlaid.merge_eq hleft.covers hright.covers
  have hrow := hleft.row.append hlaid hright.row
  refine Node.forall_isIn_iff.2 ⟨⟨hlaid.covers_merge hleft.covers hright.covers, ?_, hrow.apart,
    nofun⟩, hrow.placed⟩
  intro child hchild
  show (left.join op right).span.start ≤ _ ∧ _ ≤ (left.join op right).span.stop
  rw [hspan]
  rcases hchild with _ | ⟨_, _ | ⟨_, ⟨⟩⟩⟩
  · exact ⟨Nat.le_refl _, show left.span.stop ≤ right.span.stop by omega⟩
  · exact ⟨show left.span.start ≤ right.span.start by omega, Nat.le_refl _⟩

end Nodes

/-! ### What is written is placed -/

/-- An expression that some tokens write is placed by them, in all its parts. -/
theorem Expr.Written.placed {n : Nat} {r : Rank} {ts : List Token} {e : Expr}
    (h : Expr.Written n r ts e) (hlaid : LaidOut ts) : (Node.expr e).AllPlacedBy ts := by
  induction h with
  | number | trueWord | falseWord | name =>
    refine Node.allPlacedBy_of_single hlaid rfl rfl ?_
    rintro t ⟨⟩
    rfl
  | @parens n ts e left right h ih =>
    have hinner : ts.Sublist
        (⟨.symbol .leftParen, left⟩ :: (ts ++ [⟨.symbol .rightParen, right⟩])) :=
      .cons _ (List.sublist_append_left _ _)
    exact (ih (hlaid.sublist hinner)).mono hinner.subset
  | base h ih | plain h ih | operand h ih | tighter h ih | whole h ih => exact ih hlaid
  | power span hbase hexponent ihl ihr | binary hop span hbase hexponent ihl ihr =>
    exact Expr.allPlacedBy_join _ hlaid (ihl hlaid.left)
      ((ihr hlaid.right.tail).mono (List.subset_cons_self _ _))
  | @sign n ts e op span h ih =>
    have hoperand := ih hlaid.tail
    exact Node.allPlacedBy_of_row (.expr (.unary op e (span.merge e.span))) hlaid hoperand.row rfl
      hoperand.covers (List.forall_mem_singleton.2 (Nat.le_refl _)) rfl

/-- The statements of a block are placed in front of the last of some tokens. -/
structure BlockPlaced (ss : List Stmt) (last : Span) (ts : List Token) : Prop where
  row : RowPlaced (ss.map .stmt) ts
  stop_le : ∀ n ∈ ss.map Node.stmt, n.span.stop ≤ last.stop

mutual

/-- A statement that some tokens write is placed by them, in all its parts. -/
theorem Stmt.Written.placed {n : Nat} {ts : List Token} {s : Stmt} (h : Stmt.Written n ts s)
    (hlaid : LaidOut ts) : (Node.stmt s).AllPlacedBy ts := by
  match h with
  | @Stmt.Written.expression _ ts e he =>
    have hvalue := he.placed hlaid
    refine Node.forall_isIn_iff.2 ⟨⟨hvalue.covers, ?_, hvalue.row.apart, nofun⟩, hvalue.row.placed⟩
    exact List.forall_mem_singleton.2 ⟨Nat.le_refl _, Nat.le_refl _⟩
  | @Stmt.Written.assign _ ts e name op start sign he =>
    have hvalue := (he.placed hlaid.tail.tail).mono (List.subset_cons_self ⟨op.lexeme, sign⟩ ts)
    exact Node.allPlacedBy_of_row (.stmt (.assign name op e (start.merge e.span))) hlaid hvalue.row
      rfl hvalue.covers (List.forall_mem_singleton.2 (Nat.le_refl _)) rfl
  | @Stmt.Written.print _ ts e start left right he =>
    have hinner : LaidOut (ts ++ [⟨.symbol .rightParen, right⟩]) := hlaid.tail.tail
    have hvalue := (he.placed hinner.left).row
    have hright := hinner.right.covers (List.mem_singleton_self _)
    have hsub : ts ⊆ ⟨.symbol .leftParen, left⟩ :: (ts ++ [⟨.symbol .rightParen, right⟩]) :=
      List.subset_cons_of_subset _ (List.subset_append_left _ _)
    exact Node.allPlacedBy_of_row (.stmt (.print e (start.merge right))) hlaid (hvalue.mono hsub)
      rfl (hlaid.tail.covers_last ⟨_ :: ts, rfl⟩) (hvalue.stop_le hinner hright) rfl
  | .conditional start hif => exact hif.placed rfl hlaid
  | @Stmt.Written.whileDo _ ts us c body last start hc hbody =>
    have hcondition := (hc.placed hlaid.tail.left).row
    have hblock := hbody.placed hlaid.tail.right
    have hlast := hlaid.tail.right.covers_last hbody.exists_last
    exact Node.allPlacedBy_of_row (.stmt (.whileDo c body (start.merge last))) hlaid
      (hcondition.append hlaid.tail hblock.row) rfl (hlast.mono (List.subset_append_right ts us))
      (List.forall_mem_append.2 ⟨hcondition.stop_le hlaid.tail hlast, hblock.stop_le⟩) rfl
  | .breakLoop span | .continueLoop span =>
    exact Node.allPlacedBy_of_single hlaid rfl rfl nofun
termination_by structural h

theorem Stmt.WrittenIf.placed {n : Nat} {start last : Span} {ts : List Token} {s : Stmt}
    (h : Stmt.WrittenIf n start ts s last) {t : Token} (ht : t.span = start)
    (hlaid : LaidOut (t :: ts)) : (Node.stmt s).AllPlacedBy (t :: ts) := by
  match h with
  | @Stmt.WrittenIf.ifThen _ _ last ts us c body hc hbody =>
    have hcondition := (hc.placed hlaid.tail.left).row
    have hblock := hbody.placed hlaid.tail.right
    have hlast := hlaid.tail.right.covers_last hbody.exists_last
    exact Node.allPlacedBy_of_row (.stmt (.ifThen c body (start.merge last))) hlaid
      (hcondition.append hlaid.tail hblock.row) (ht ▸ rfl)
      (hlast.mono (List.subset_append_right ts us))
      (List.forall_mem_append.2 ⟨hcondition.stop_le hlaid.tail hlast, hblock.stop_le⟩) rfl
  | @Stmt.WrittenIf.ifElse _ _ _ last ts us vs newlines c body otherwise span _ hc hbody helse =>
    have hlaid' := hlaid.tail.right
    have hlaid'' := hlaid'.right.right.tail
    have hcondition := (hc.placed hlaid.tail.left).row
    have hblock := hbody.placed hlaid'.left
    have helse' := helse.placed hlaid''
    -- what comes after the `else`, among all tokens behind the first block
    have hsub : vs ⊆ newlines ++ ⟨.keyword .elseKw, span⟩ :: vs :=
      List.subset_append_of_subset_right _ (List.subset_cons_self _ _)
    have hlast := (hlaid''.covers_last helse.exists_last).mono hsub
    have hlast' := hlast.mono (List.subset_append_right us _)
    have hrow := hblock.row.append hlaid' (helse'.row.mono hsub)
    exact Node.allPlacedBy_of_row (.stmt (.ifElse c body otherwise (start.merge last))) hlaid
      (hcondition.append hlaid.tail hrow) (ht ▸ rfl)
      (hlast'.mono (List.subset_append_right ts _))
      (List.forall_mem_append.2 ⟨hcondition.stop_le hlaid.tail hlast',
        List.forall_mem_append.2 ⟨hblock.row.stop_le hlaid' hlast, helse'.stop_le⟩⟩) rfl
termination_by structural h

theorem Stmt.WrittenElse.placed {n : Nat} {last : Span} {ts : List Token} {ss : List Stmt}
    (h : Stmt.WrittenElse n ts ss last) (hlaid : LaidOut ts) : BlockPlaced ss last ts := by
  match h with
  | @Stmt.WrittenElse.elseIf _ ts s last start hif =>
    have hlaid' : LaidOut ([⟨.keyword .ifKw, start⟩] ++ ts) := hlaid
    have hmerge : start.merge last = ⟨start.start, last.stop⟩ :=
      hlaid'.merge_eq (hlaid'.left.covers (List.mem_singleton_self _))
        (hlaid'.right.covers_last hif.exists_last)
    have hstop : s.span.stop = last.stop := by rw [hif.span_eq, hmerge]
    exact ⟨(hif.placed rfl hlaid).row, List.forall_mem_singleton.2 (Nat.le_of_eq hstop)⟩
  | .block hblock => exact hblock.placed hlaid
termination_by structural h

theorem Stmt.WrittenBlock.placed {n : Nat} {last : Span} {ts : List Token} {ss : List Stmt}
    (h : Stmt.WrittenBlock n ts ss last) (hlaid : LaidOut ts) : BlockPlaced ss last ts := by
  match h with
  | @Stmt.WrittenBlock.braces _ ts ss left last hall =>
    have hinner : LaidOut (ts ++ [⟨.symbol .rightBrace, last⟩]) := hlaid.tail
    have hrow := hall.placed hinner.left
    have hlast := hinner.right.covers (List.mem_singleton_self _)
    exact ⟨hrow.mono (List.subset_cons_of_subset _ (List.subset_append_left _ _)),
      hrow.stop_le hinner hlast⟩
termination_by structural h

theorem Stmt.WrittenAll.placed {n : Nat} {ts : List Token} {ss : List Stmt}
    (h : Stmt.WrittenAll n ts ss) (hlaid : LaidOut ts) : RowPlaced (ss.map .stmt) ts := by
  match h with
  | .nil => exact .nil _
  | .skip hsep hall => exact (hall.placed hlaid.tail).mono (List.subset_cons_self _ _)
  | .last hs => exact (hs.placed hlaid).row
  | .cons hs hsep hall =>
    exact (hs.placed hlaid.left).row.append hlaid
      ((hall.placed hlaid.right.tail).mono (List.subset_cons_self _ _))
termination_by structural h

end

end Kestrel
