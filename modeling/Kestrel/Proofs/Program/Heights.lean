import Kestrel.Proofs.Program.Nodes
import Kestrel.Proofs.Program.Parsing

/-!
# How high programs are

The limit on open levels bounds how deep the constructs of a program are nested in each other, but
not how long a chain of operators is. A chain of operators of one level, such as a long sum, groups
to the left: each operator is one step above the one before, and no level is opened for it. So the
trees of accepted programs may be of any height. If the operators of a chain are counted as one
step, the limit bounds the height.

## Main definitions

- `Expr.height`, `Stmt.heightBy`, `Node.heightBy` — the height of a tree
- `Expr.nesting` — the height when a chain of operators of one level is one step
- `Expr.chain` — the number of operators of one level in a row

## Main statements

- `Expr.height_le_of_chain` — how much higher than its nesting an expression is
- `Program.not_exists_height_bound` — no bound on the heights of accepted programs exists
- `Program.nesting_le_of_ofTokens` — a bound on their nesting, and on heights for chains of a length
-/

namespace Kestrel

/-! ### Heights -/

/-- The number of steps down from an expression to its deepest part. -/
def Expr.height : Expr → Nat
  | .number _ _ | .boolean _ _ | .name _ _ => 0
  | .unary _ operand _ => operand.height + 1
  | .binary left _ right _ => max left.height right.height + 1

/-- The operators of two expressions are of one level, and of one that groups to the left: as the
left operand of `op`, the expression goes on with its chain. -/
def Expr.Chains (op : BinaryOp) : Expr → Prop
  | .binary _ op' _ _ => op'.level? = op.level? ∧ op.level? ≠ none
  | _ => False

instance (op : BinaryOp) (e : Expr) : Decidable (e.Chains op) := by
  cases e <;> unfold Expr.Chains <;> infer_instance

/-- The number of operators of one level that follow each other from the top of an expression down
its left operands. -/
def Expr.chain : Expr → Nat
  | .number _ _ | .boolean _ _ | .name _ _ | .unary _ _ _ => 0
  | .binary left op _ _ => (if left.Chains op then left.chain else 0) + 1

/-- The height of an expression when the steps inside a chain of operators of one level are not
counted. -/
def Expr.nesting : Expr → Nat
  | .number _ _ | .boolean _ _ | .name _ _ => 0
  | .unary _ operand _ => operand.nesting + 1
  | .binary left op right _ =>
    max (if left.Chains op then left.nesting else left.nesting + 1) (right.nesting + 1)

mutual

/-- The height of a statement, when the heights of expressions are measured in some way. -/
def Stmt.heightBy (measure : Expr → Nat) : Stmt → Nat
  | .expression value _ | .assign _ _ value _ | .print value _ => measure value + 1
  | .ifThen condition body _ | .whileDo condition body _ =>
    max (measure condition) (Stmt.allHeightBy measure body) + 1
  | .ifElse condition body otherwise _ =>
    max (measure condition)
      (max (Stmt.allHeightBy measure body) (Stmt.allHeightBy measure otherwise)) + 1
  | .breakLoop _ | .continueLoop _ => 0

/-- The height of the highest of some statements. -/
def Stmt.allHeightBy (measure : Expr → Nat) : List Stmt → Nat
  | [] => 0
  | s :: rest => max (s.heightBy measure) (Stmt.allHeightBy measure rest)

end

/-- The height of a node, when the heights of expressions are measured in some way. -/
def Node.heightBy (measure : Expr → Nat) : Node → Nat
  | .expr e => measure e
  | .stmt s => s.heightBy measure

/-! ### Parts are not higher -/

theorem Stmt.heightBy_le_allHeightBy {measure : Expr → Nat} {s : Stmt} {ss : List Stmt}
    (h : s ∈ ss) : s.heightBy measure ≤ Stmt.allHeightBy measure ss := by
  induction h with
  | head rest => exact Nat.le_max_left _ _
  | tail s' _ ih => exact Nat.le_trans ih (Nat.le_max_right _ _)

/-- A measure of expressions that does not grow from an expression to its operands does not grow
from a node to the nodes in it. -/
theorem Node.IsIn.heightBy_le {measure : Expr → Nat}
    (hunary : ∀ op operand span, measure operand ≤ measure (.unary op operand span))
    (hbinary : ∀ left op right span, measure left ≤ measure (.binary left op right span) ∧
      measure right ≤ measure (.binary left op right span))
    {n root : Node} (h : n.IsIn root) : n.heightBy measure ≤ root.heightBy measure := by
  refine h.le fun root child hchild => ?_
  have hblock : ∀ {ss : List Stmt}, child ∈ ss.map Node.stmt →
      child.heightBy measure ≤ Stmt.allHeightBy measure ss := by
    intro ss hss
    obtain ⟨s, hs, rfl⟩ := List.mem_map.1 hss
    exact Stmt.heightBy_le_allHeightBy hs
  rcases root with e | s
  · cases e with
    | number | boolean | name => cases hchild
    | unary op operand span =>
      obtain rfl := List.mem_singleton.1 hchild
      exact hunary op operand span
    | binary left op right span =>
      rcases List.mem_cons.1 hchild with rfl | hchild
      · exact (hbinary left op right span).1
      · obtain rfl := List.mem_singleton.1 hchild
        exact (hbinary left op right span).2
  · cases s with
    | expression value span | assign name op value span | print value span =>
      obtain rfl := List.mem_singleton.1 hchild
      exact Nat.le_succ _
    | ifThen condition body span | whileDo condition body span =>
      show child.heightBy measure ≤ max (measure condition) (Stmt.allHeightBy measure body) + 1
      rcases List.mem_cons.1 hchild with rfl | hbody
      · exact Nat.le_succ_of_le (Nat.le_max_left _ _)
      · have hle := hblock hbody
        omega
    | ifElse condition body otherwise span =>
      show child.heightBy measure ≤ max (measure condition)
        (max (Stmt.allHeightBy measure body) (Stmt.allHeightBy measure otherwise)) + 1
      rcases List.mem_cons.1 hchild with rfl | hblocks
      · exact Nat.le_succ_of_le (Nat.le_max_left _ _)
      · rcases List.mem_append.1 hblocks with hbody | hotherwise
        · have hle := hblock hbody
          omega
        · have hle := hblock hotherwise
          omega
    | breakLoop | continueLoop => cases hchild

theorem Node.IsIn.nesting_le {n root : Node} (h : n.IsIn root) :
    n.heightBy Expr.nesting ≤ root.heightBy Expr.nesting := by
  refine h.heightBy_le (fun _ _ _ => Nat.le_succ _) fun left op right span => ?_
  simp only [Expr.nesting]
  split <;> omega

/-! ### Chains of a bounded length -/

/-- The number of operators of one level in a row at the top of a node. -/
def Node.chain : Node → Nat
  | .expr e => e.chain
  | .stmt _ => 0

/-- Nowhere in a node are more than `k` operators of one level in a row. -/
def Node.ChainsUpTo (k : Nat) (n : Node) : Prop :=
  ∀ m : Node, m.IsIn n → m.chain ≤ k

theorem Node.ChainsUpTo.child {k : Nat} {n child : Node} (h : n.ChainsUpTo k)
    (hchild : child ∈ n.children) : child.ChainsUpTo k :=
  fun m hm => h m (.under hchild hm)

theorem Expr.chain_pos_of_chains {op : BinaryOp} {e : Expr} (h : e.Chains op) : 0 < e.chain := by
  cases e with
  | binary => exact Nat.succ_pos _
  | number | boolean | name | unary => cases h

/-- With chains of at most `k` operators, each step of the nesting is at most `k` steps of the
height. Of the topmost chain only the operators that it has are needed. -/
theorem Expr.height_le_of_chain {k : Nat} (hk : 0 < k) {e : Expr}
    (h : (Node.expr e).ChainsUpTo k) :
    e.height ≤ k * e.nesting ∧ (0 < e.chain → e.height + k ≤ k * e.nesting + e.chain) := by
  induction e with
  | number | boolean | name => exact ⟨Nat.zero_le _, fun hpos => absurd hpos (Nat.lt_irrefl 0)⟩
  | unary op operand span ih =>
    have hoperand := (ih (h.child List.mem_cons_self)).1
    refine ⟨?_, fun hpos => absurd hpos (Nat.lt_irrefl 0)⟩
    rw [Expr.height, Expr.nesting, Nat.mul_succ]
    omega
  | binary left op right span ihl ihr =>
    obtain ⟨hleft, hleftChain⟩ := ihl (h.child List.mem_cons_self)
    obtain ⟨hright, -⟩ := ihr (h.child (List.mem_cons_of_mem _ List.mem_cons_self))
    have hchain : (Expr.binary left op right span).chain ≤ k := h _ (.self _)
    -- the nesting is at least that of each operand, with a step where one is counted
    have hnestingRight : k * right.nesting + k ≤ k * (Expr.binary left op right span).nesting := by
      rw [← Nat.mul_succ]
      exact Nat.mul_le_mul_left k (Nat.le_max_right _ _)
    have hstep : (Expr.binary left op right span).height + k ≤
        k * (Expr.binary left op right span).nesting + (Expr.binary left op right span).chain := by
      by_cases hop : left.Chains op
      · have hnestingLeft : k * left.nesting ≤ k * (Expr.binary left op right span).nesting := by
          refine Nat.mul_le_mul_left k ?_
          rw [Expr.nesting, if_pos hop]
          exact Nat.le_max_left _ _
        have hleftStep := hleftChain (Expr.chain_pos_of_chains hop)
        rw [Expr.height, Expr.chain, if_pos hop]
        omega
      · have hnestingLeft : k * left.nesting + k ≤
            k * (Expr.binary left op right span).nesting := by
          rw [← Nat.mul_succ]
          refine Nat.mul_le_mul_left k ?_
          rw [Expr.nesting, if_neg hop]
          exact Nat.le_max_left _ _
        rw [Expr.height, Expr.chain, if_neg hop]
        omega
    exact ⟨by omega, fun _ => hstep⟩

mutual

theorem Stmt.height_le_of_chain {k : Nat} (hk : 0 < k) {s : Stmt}
    (h : (Node.stmt s).ChainsUpTo k) :
    s.heightBy Expr.height ≤ k * s.heightBy Expr.nesting := by
  cases s with
  | expression value span | assign name op value span | print value span =>
    have hvalue := (Expr.height_le_of_chain hk (h.child List.mem_cons_self)).1
    simp only [Stmt.heightBy, Nat.mul_succ]
    omega
  | ifThen condition body span | whileDo condition body span =>
    have hcondition := (Expr.height_le_of_chain hk (h.child List.mem_cons_self)).1
    have hbody := Stmt.allHeight_le_of_chain hk fun s hs => h.child (Node.mem_children_of_body hs)
    simp only [Stmt.heightBy, Nat.mul_succ, ← Nat.mul_max_mul_left]
    omega
  | ifElse condition body otherwise span =>
    have hcondition := (Expr.height_le_of_chain hk (h.child List.mem_cons_self)).1
    have hbody := Stmt.allHeight_le_of_chain hk fun s hs =>
      h.child (Node.mem_children_of_thenBody hs)
    have hotherwise := Stmt.allHeight_le_of_chain hk fun s hs =>
      h.child (Node.mem_children_of_elseBody hs)
    simp only [Stmt.heightBy, Nat.mul_succ, ← Nat.mul_max_mul_left]
    omega
  | breakLoop span | continueLoop span => exact Nat.zero_le _

theorem Stmt.allHeight_le_of_chain {k : Nat} (hk : 0 < k) {ss : List Stmt}
    (h : ∀ s ∈ ss, (Node.stmt s).ChainsUpTo k) :
    Stmt.allHeightBy Expr.height ss ≤ k * Stmt.allHeightBy Expr.nesting ss := by
  cases ss with
  | nil => exact Nat.zero_le _
  | cons s rest =>
    have hs := Stmt.height_le_of_chain hk (h s List.mem_cons_self)
    have hrest := Stmt.allHeight_le_of_chain hk fun s' hs' => h s' (List.mem_cons_of_mem s hs')
    simp only [Stmt.allHeightBy, ← Nat.mul_max_mul_left]
    omega

end

/-! ### The limit bounds the nesting -/

/-- The most nesting that an expression of a rank has when `n` levels are free. Seven steps belong
to each level: the operators of six levels in each other, and a power or a unary operator. -/
def Rank.nestingBound (n : Nat) : Rank → Nat
  | .primary | .operand | .whole => 7 * n
  | .power | .unary => 7 * n + 1
  | .level l => 7 * n + l.index + 2

theorem OperatorLevel.nestingBound_below (n : Nat) (l : OperatorLevel) :
    l.below.nestingBound n = 7 * n + l.index + 1 := by
  cases l <;> rfl

/-- A derived expression is nested as deep as its rank allows. An expression of a level that does
not go on with a chain of this level is even one of the rank below. -/
theorem Expr.Derives.nesting_le {n : Nat} {r : Rank} {us : List Lexeme} {e : Expr}
    (h : Expr.Derives n r us e) :
    e.nesting ≤ r.nestingBound n ∧
      ∀ l op, r = .level l → op.level? = some l → ¬ e.Chains op →
        e.nesting ≤ l.below.nestingBound n := by
  induction h with
  | number | trueWord | falseWord | name => exact ⟨Nat.zero_le _, nofun⟩
  | parens h ih | base h ih => exact ⟨Nat.le_trans ih.1 (by simp [Rank.nestingBound]), nofun⟩
  | power hbase hexponent ihl ihr =>
    refine ⟨?_, nofun⟩
    have hleft := ihl.1
    have hright := ihr.1
    simp only [Rank.nestingBound, Expr.nesting] at *
    split <;> omega
  | plain h ih => exact ⟨ih.1, nofun⟩
  | sign op h ih => exact ⟨Nat.succ_le_succ ih.1, nofun⟩
  | operand h ih =>
    refine ⟨?_, nofun⟩
    have hunary := ih.1
    simp only [Rank.nestingBound] at *
    omega
  | @tighter n us e l h ih =>
    have hbelow := ih.1
    refine ⟨?_, ?_⟩
    · rw [OperatorLevel.nestingBound_below] at hbelow
      exact Nat.le_succ_of_le hbelow
    · rintro l' op ⟨⟩ - -
      exact hbelow
  | @binary n us vs left right op l hop hleft hright ihl ihr =>
    refine ⟨?_, ?_⟩
    · have hbelow := ihr.1
      rw [OperatorLevel.nestingBound_below] at hbelow
      show (Expr.binary left op right .blank).nesting ≤ 7 * n + l.index + 2
      rw [Expr.nesting]
      by_cases hchains : left.Chains op
      · have hsame : left.nesting ≤ 7 * n + l.index + 2 := ihl.1
        rw [if_pos hchains]
        omega
      · have htighter := ihl.2 l op rfl hop hchains
        rw [OperatorLevel.nestingBound_below] at htighter
        rw [if_neg hchains]
        omega
    · rintro l' op' ⟨⟩ hop' hchains
      exact absurd ⟨hop.trans hop'.symm, by simp [hop']⟩ hchains
  | whole h ih =>
    refine ⟨?_, nofun⟩
    have hlevel := ih.1
    simp only [Rank.nestingBound, OperatorLevel.index] at *
    omega

theorem Expr.Derives.nesting_le_of_whole {n : Nat} {us : List Lexeme} {e : Expr}
    (h : Expr.Derives n .whole us e) : e.nesting ≤ 7 * n :=
  h.nesting_le.1

mutual

/-- A derived statement is nested at most one step deeper than its expressions and blocks. -/
theorem Stmt.Derives.nesting_le {n : Nat} {us : List Lexeme} {s : Stmt}
    (h : Stmt.Derives n us s) : s.heightBy Expr.nesting ≤ 7 * n + 1 := by
  match h with
  | .expression he | .assign _ _ he | .print he =>
    exact Nat.succ_le_succ he.nesting_le_of_whole
  | .conditional hif => exact hif.nesting_le
  | .whileDo hc hbody =>
    exact Nat.succ_le_succ (Nat.max_le.2 ⟨hc.nesting_le_of_whole, hbody.nesting_le⟩)
  | .breakLoop | .continueLoop => exact Nat.zero_le _
termination_by structural h

theorem Stmt.DerivesIf.nesting_le {n : Nat} {us : List Lexeme} {s : Stmt}
    (h : Stmt.DerivesIf n us s) : s.heightBy Expr.nesting ≤ 7 * n + 1 := by
  match h with
  | .ifThen hc hbody =>
    exact Nat.succ_le_succ (Nat.max_le.2 ⟨hc.nesting_le_of_whole, hbody.nesting_le⟩)
  | .ifElse _ hc hbody helse =>
    refine Nat.succ_le_succ (Nat.max_le.2 ⟨hc.nesting_le_of_whole, ?_⟩)
    exact Nat.max_le.2 ⟨hbody.nesting_le, helse.nesting_le⟩
termination_by structural h

theorem Stmt.DerivesElse.nesting_le {n : Nat} {us : List Lexeme} {ss : List Stmt}
    (h : Stmt.DerivesElse n us ss) : Stmt.allHeightBy Expr.nesting ss ≤ 7 * n := by
  match h with
  | .elseIf hif =>
    have hle := hif.nesting_le
    simp only [Stmt.allHeightBy]
    omega
  | .block hblock => exact hblock.nesting_le
termination_by structural h

theorem Stmt.DerivesBlock.nesting_le {n : Nat} {us : List Lexeme} {ss : List Stmt}
    (h : Stmt.DerivesBlock n us ss) : Stmt.allHeightBy Expr.nesting ss ≤ 7 * n := by
  match h with
  | .braces hall =>
    have hle := hall.nesting_le
    omega
termination_by structural h

theorem Stmt.DerivesAll.nesting_le {n : Nat} {us : List Lexeme} {ss : List Stmt}
    (h : Stmt.DerivesAll n us ss) : Stmt.allHeightBy Expr.nesting ss ≤ 7 * n + 1 := by
  match h with
  | .nil => exact Nat.zero_le _
  | .skip _ hall => exact hall.nesting_le
  | .last hs => exact Nat.max_le.2 ⟨hs.nesting_le, Nat.zero_le _⟩
  | .cons hs _ hall => exact Nat.max_le.2 ⟨hs.nesting_le, hall.nesting_le⟩
termination_by structural h

end

/-! ### Spans do not matter -/

theorem Expr.chains_bare {op : BinaryOp} {e : Expr} : e.bare.Chains op ↔ e.Chains op := by
  cases e <;> exact Iff.rfl

theorem Expr.nesting_bare (e : Expr) : e.bare.nesting = e.nesting := by
  induction e with
  | number | boolean | name => rfl
  | unary op operand span ih => rw [Expr.bare, Expr.nesting, ih, Expr.nesting]
  | binary left op right span ihl ihr =>
    simp only [Expr.bare, Expr.nesting, ihl, ihr, Expr.chains_bare]

theorem Expr.height_bare (e : Expr) : e.bare.height = e.height := by
  induction e with
  | number | boolean | name => rfl
  | unary op operand span ih => rw [Expr.bare, Expr.height, ih, Expr.height]
  | binary left op right span ihl ihr => rw [Expr.bare, Expr.height, ihl, ihr, Expr.height]

mutual

theorem Stmt.heightBy_bare {measure : Expr → Nat} (hmeasure : ∀ e, measure e.bare = measure e)
    (s : Stmt) : s.bare.heightBy measure = s.heightBy measure := by
  cases s with
  | expression e span | assign name op e span | print e span =>
    simp only [Stmt.bare, Stmt.heightBy, hmeasure]
  | ifThen c body span | whileDo c body span =>
    simp only [Stmt.bare, Stmt.heightBy, hmeasure, Stmt.allHeightBy_allBare hmeasure body]
  | ifElse c body otherwise span =>
    simp only [Stmt.bare, Stmt.heightBy, hmeasure, Stmt.allHeightBy_allBare hmeasure body,
      Stmt.allHeightBy_allBare hmeasure otherwise]
  | breakLoop | continueLoop => rfl

theorem Stmt.allHeightBy_allBare {measure : Expr → Nat}
    (hmeasure : ∀ e, measure e.bare = measure e) (ss : List Stmt) :
    Stmt.allHeightBy measure (Stmt.allBare ss) = Stmt.allHeightBy measure ss := by
  cases ss with
  | nil => rfl
  | cons s rest =>
    simp only [Stmt.allBare, Stmt.allHeightBy, Stmt.heightBy_bare hmeasure s,
      Stmt.allHeightBy_allBare hmeasure rest]

end

/-! ### Sums of any length -/

/-- The lexemes of a sum of `n + 1` names. -/
def sumLexemes : (n : Nat) → List Lexeme
  | 0 => [.name "x"]
  | n + 1 => sumLexemes n ++ BinaryOp.add.lexeme :: [.name "x"]

/-- A sum of `n + 1` names. -/
def Expr.sumOf : (n : Nat) → Expr
  | 0 => .name "x" .blank
  | n + 1 => .binary (Expr.sumOf n) .add (.name "x" .blank) .blank

theorem Expr.height_sumOf (n : Nat) : (Expr.sumOf n).height = n := by
  induction n with
  | zero => rfl
  | succ n ih =>
    rw [Expr.sumOf, Expr.height, ih, Expr.height]
    omega

/-- A sum of any length is an expression that opens one level. -/
theorem Expr.derives_sumOf (levels n : Nat) :
    Expr.Derives (levels + 1) .whole (sumLexemes n) (Expr.sumOf n) := by
  have hproduct : Expr.Derives levels (.level .product) [.name "x"] (.name "x" .blank) :=
    .tighter (.plain (.base (.name "x")))
  have hsum : Expr.Derives levels (.level .sum) (sumLexemes n) (Expr.sumOf n) := by
    induction n with
    | zero => exact .tighter hproduct
    | succ n ih => exact .binary rfl ih hproduct
  exact .whole (.tighter (.tighter (.tighter (.tighter hsum))))

/-- A sum of any length is accepted, and it is as high as it has operators. -/
theorem Program.exists_sum (n : Nat) : ∃ ts s, Program.ofTokens ts = .ok [s] ∧
    s.heightBy Expr.height = n + 1 := by
  have hlexemes : lexemes ((sumLexemes n).map (⟨·, .blank⟩)) = sumLexemes n := by
    simp [lexemes, Function.comp_def]
  have hderives : Program.Derives (lexemes ((sumLexemes n).map (⟨·, .blank⟩)))
      [.expression (Expr.sumOf n) .blank] := by
    rw [hlexemes]
    exact .last (.expression (Expr.derives_sumOf 63 n))
  obtain ⟨read, hread, hbare⟩ := Program.ofTokens_of_derives hderives
  match read with
  | [s] =>
    have hs : s.bare = .expression (Expr.sumOf n) .blank := (List.cons.inj hbare).1
    refine ⟨_, s, hread, ?_⟩
    rw [← Stmt.heightBy_bare Expr.height_bare, hs, Stmt.heightBy, Expr.height_sumOf]
  | [] => cases hbare
  | s :: s' :: rest => cases (List.cons.inj hbare).2

/-! ### Accepted programs -/

theorem Node.height_le_of_chain {k : Nat} (hk : 0 < k) {n : Node} (h : n.ChainsUpTo k) :
    n.heightBy Expr.height ≤ k * n.heightBy Expr.nesting := by
  cases n with
  | expr e => exact (Expr.height_le_of_chain hk h).1
  | stmt s => exact Stmt.height_le_of_chain hk h

/-- The limit on open levels does not bound the heights of accepted programs. -/
theorem Program.not_exists_height_bound : ¬ ∃ bound : Nat, ∀ ts program,
    Program.ofTokens ts = .ok program → ∀ n, program.Contains n →
      n.heightBy Expr.height ≤ bound := by
  rintro ⟨bound, hbound⟩
  obtain ⟨ts, s, hread, hheight⟩ := Program.exists_sum bound
  have hle := hbound ts [s] hread (.stmt s) ⟨s, List.mem_singleton_self s, .self _⟩
  rw [Node.heightBy, hheight] at hle
  omega

/-- The limit on open levels bounds the height of all that is in an accepted program, if each chain
of operators of one level counts as one step. If all chains have at most `k` operators, it bounds
the height itself. -/
theorem Program.nesting_le_of_ofTokens {ts : List Token} {program : Program}
    (h : Program.ofTokens ts = .ok program) {n : Node} (hn : program.Contains n) :
    n.heightBy Expr.nesting ≤ 7 * maxDepth + 1 ∧
      ∀ k, 0 < k → n.ChainsUpTo k → n.heightBy Expr.height ≤ k * (7 * maxDepth + 1) := by
  obtain ⟨s, hs, hin⟩ := hn
  have hprogram : Stmt.allHeightBy Expr.nesting program ≤ 7 * maxDepth + 1 := by
    rw [← Stmt.allHeightBy_allBare Expr.nesting_bare]
    exact (Program.derives_of_ofTokens h).nesting_le
  have hnesting : n.heightBy Expr.nesting ≤ 7 * maxDepth + 1 := calc
    n.heightBy Expr.nesting ≤ s.heightBy Expr.nesting := hin.nesting_le
    _ ≤ Stmt.allHeightBy Expr.nesting program := Stmt.heightBy_le_allHeightBy hs
    _ ≤ 7 * maxDepth + 1 := hprogram
  refine ⟨hnesting, fun k hk hchain => ?_⟩
  exact Nat.le_trans (Node.height_le_of_chain hk hchain) (Nat.mul_le_mul_left k hnesting)

/-- The sum of three names is a chain of two operators. -/
theorem nesting_le_sumOfThree :
    let sum : Expr := .binary
      (.binary (.name "x" ⟨0, 1⟩) .add (.name "y" ⟨4, 5⟩) ⟨0, 5⟩) .add (.name "z" ⟨8, 9⟩) ⟨0, 9⟩
    Program.ofTokens [⟨.name "x", ⟨0, 1⟩⟩, ⟨.symbol .plus, ⟨2, 3⟩⟩, ⟨.name "y", ⟨4, 5⟩⟩,
        ⟨.symbol .plus, ⟨6, 7⟩⟩, ⟨.name "z", ⟨8, 9⟩⟩] = .ok [.expression sum ⟨0, 9⟩] ∧
      Program.Contains [.expression sum ⟨0, 9⟩] (.expr sum) ∧ (Node.expr sum).ChainsUpTo 2 ∧
      sum.nesting ≤ 7 * maxDepth + 1 ∧ sum.height ≤ 2 * (7 * maxDepth + 1) := by
  intro sum
  have hread : Program.ofTokens [⟨.name "x", ⟨0, 1⟩⟩, ⟨.symbol .plus, ⟨2, 3⟩⟩,
      ⟨.name "y", ⟨4, 5⟩⟩, ⟨.symbol .plus, ⟨6, 7⟩⟩, ⟨.name "z", ⟨8, 9⟩⟩] =
        .ok [.expression sum ⟨0, 9⟩] := by
    with_unfolding_all rfl
  have hcontains : Program.Contains [.expression sum ⟨0, 9⟩] (.expr sum) :=
    ⟨_, List.mem_singleton_self _, .under List.mem_cons_self (.self _)⟩
  have hname : ∀ text span, (Node.expr (.name text span)).ChainsUpTo 2 := by
    intro text span
    exact Node.forall_isIn_iff.2 ⟨Nat.zero_le _, nofun⟩
  have hchains : (Node.expr sum).ChainsUpTo 2 := by
    refine Node.forall_isIn_iff.2 ⟨by decide, ?_⟩
    rintro child (_ | ⟨_, _ | ⟨_, ⟨⟩⟩⟩)
    · refine Node.forall_isIn_iff.2 ⟨by decide, ?_⟩
      rintro child (_ | ⟨_, _ | ⟨_, ⟨⟩⟩⟩) <;> exact hname _ _
    · exact hname _ _
  obtain ⟨hnesting, hheight⟩ := Program.nesting_le_of_ofTokens hread hcontains
  exact ⟨hread, hcontains, hchains, hnesting, hheight 2 (by decide) hchains⟩

end Kestrel
