import Kestrel.Program.Reading

/-!
# The grammar of programs

The grammar is a relation between lists of lexemes and the trees that they stand for. It knows
neither spans nor tokens ahead nor an order of trials; its trees have the span `Span.blank`
everywhere.

## Main definitions

- `Expr.bare`, `Stmt.bare` — trees without their spans
- `OperatorLevel`, `Rank` — the levels of binary operators, and all kinds of expressions
- `Expr.Derives` — the grammar of expressions
- `Stmt.Derives`, `Stmt.DerivesAll` — the grammar of statements and of lists of them
- `Program.Derives` — the grammar of programs

## Design notes

Each relation has an index `n`, the number of nesting levels that may still be opened. What opens a
level has `n + 1` there, and its parts have `n`.
-/

namespace Kestrel

/-! ### Trees without spans -/

/-- The span of trees whose place does not matter. -/
def Span.blank : Span := ⟨0, 0⟩

/-- An expression without its spans. -/
def Expr.bare : Expr → Expr
  | .number value _ => .number value .blank
  | .boolean value _ => .boolean value .blank
  | .name text _ => .name text .blank
  | .unary op operand _ => .unary op operand.bare .blank
  | .binary left op right _ => .binary left.bare op right.bare .blank

mutual

/-- A statement without its spans. -/
def Stmt.bare : Stmt → Stmt
  | .expression value _ => .expression value.bare .blank
  | .assign name op value _ => .assign name op value.bare .blank
  | .print value _ => .print value.bare .blank
  | .ifThen condition body _ => .ifThen condition.bare (Stmt.allBare body) .blank
  | .ifElse condition body otherwise _ =>
    .ifElse condition.bare (Stmt.allBare body) (Stmt.allBare otherwise) .blank
  | .whileDo condition body _ => .whileDo condition.bare (Stmt.allBare body) .blank
  | .breakLoop _ => .breakLoop .blank
  | .continueLoop _ => .continueLoop .blank

/-- Statements without their spans. -/
def Stmt.allBare : List Stmt → List Stmt
  | [] => []
  | s :: rest => s.bare :: Stmt.allBare rest

end

/-- A program without its spans. -/
abbrev Program.bare (program : Program) : Program := Stmt.allBare program

/-! ### The signs of operators -/

/-- The lexeme that writes a unary operator. -/
def UnaryOp.lexeme : UnaryOp → Lexeme
  | .neg => .symbol .minus
  | .not => .keyword .notKw

/-- The lexeme that writes a binary operator. -/
def BinaryOp.lexeme : BinaryOp → Lexeme
  | .add => .symbol .plus
  | .sub => .symbol .minus
  | .mul => .symbol .star
  | .div => .symbol .slash
  | .mod => .symbol .percent
  | .pow => .symbol .caret
  | .eq => .symbol .equal
  | .ne => .symbol .notEqual
  | .lt => .symbol .less
  | .le => .symbol .lessEqual
  | .gt => .symbol .greater
  | .ge => .symbol .greaterEqual
  | .and => .keyword .andKw
  | .or => .keyword .orKw

/-- The lexeme that writes an assignment. -/
def AssignOp.lexeme : AssignOp → Lexeme
  | .set => .symbol .assign
  | .add => .symbol .plusAssign
  | .sub => .symbol .minusAssign
  | .mul => .symbol .starAssign
  | .div => .symbol .slashAssign

/-- The levels of the binary operators that group to the left, tightest first. -/
inductive OperatorLevel where
  | product | sum | comparison | equality | conjunction | disjunction
  deriving DecidableEq

/-- The level of an operator. The power groups to the right, and is not one of them. -/
def BinaryOp.level? : BinaryOp → Option OperatorLevel
  | .mul | .div | .mod => some .product
  | .add | .sub => some .sum
  | .lt | .le | .gt | .ge => some .comparison
  | .eq | .ne => some .equality
  | .and => some .conjunction
  | .or => some .disjunction
  | .pow => none

/-! ### Expressions -/

/-- The kinds of expressions, by what may stand in them without parentheses. -/
inductive Rank where
  | primary
  | power
  | unary
  /-- The operand of a unary operator, or an exponent. -/
  | operand
  | level (l : OperatorLevel)
  /-- A whole expression. -/
  | whole
  deriving DecidableEq

/-- What the operators of a level stand between. -/
def OperatorLevel.below : OperatorLevel → Rank
  | .product => .unary
  | .sum => .level .product
  | .comparison => .level .sum
  | .equality => .level .comparison
  | .conjunction => .level .equality
  | .disjunction => .level .conjunction

/-- The lexemes `us` write the expression `e` of this rank, with at most `n` levels open at once. -/
inductive Expr.Derives : (n : Nat) → Rank → (us : List Lexeme) → (e : Expr) → Prop
  | number {n : Nat} (value : Float) :
      Derives n .primary [.number value] (.number value .blank)
  | trueWord {n : Nat} : Derives n .primary [.keyword .trueKw] (.boolean true .blank)
  | falseWord {n : Nat} : Derives n .primary [.keyword .falseKw] (.boolean false .blank)
  | name {n : Nat} (text : String) : Derives n .primary [.name text] (.name text .blank)
  | parens {n : Nat} {us : List Lexeme} {e : Expr} (h : Derives n .whole us e) :
      Derives n .primary (.symbol .leftParen :: (us ++ [.symbol .rightParen])) e
  | base {n : Nat} {us : List Lexeme} {e : Expr} (h : Derives n .primary us e) :
      Derives n .power us e
  | power {n : Nat} {us vs : List Lexeme} {b x : Expr} (hbase : Derives n .primary us b)
      (hexponent : Derives n .operand vs x) :
      Derives n .power (us ++ BinaryOp.pow.lexeme :: vs) (.binary b .pow x .blank)
  | plain {n : Nat} {us : List Lexeme} {e : Expr} (h : Derives n .power us e) :
      Derives n .unary us e
  | sign {n : Nat} {us : List Lexeme} {e : Expr} (op : UnaryOp) (h : Derives n .operand us e) :
      Derives n .unary (op.lexeme :: us) (.unary op e .blank)
  | operand {n : Nat} {us : List Lexeme} {e : Expr} (h : Derives n .unary us e) :
      Derives (n + 1) .operand us e
  | tighter {n : Nat} {us : List Lexeme} {e : Expr} {l : OperatorLevel}
      (h : Derives n l.below us e) : Derives n (.level l) us e
  | binary {n : Nat} {us vs : List Lexeme} {left right : Expr} {op : BinaryOp} {l : OperatorLevel}
      (hop : op.level? = some l) (hleft : Derives n (.level l) us left)
      (hright : Derives n l.below vs right) :
      Derives n (.level l) (us ++ op.lexeme :: vs) (.binary left op right .blank)
  | whole {n : Nat} {us : List Lexeme} {e : Expr} (h : Derives n (.level .disjunction) us e) :
      Derives (n + 1) .whole us e

/-! ### Statements -/

mutual

/-- The lexemes write the statement, with at most `n` levels open at once. -/
inductive Stmt.Derives : (n : Nat) → List Lexeme → Stmt → Prop
  | expression {n : Nat} {us : List Lexeme} {e : Expr} (he : Expr.Derives n .whole us e) :
      Derives n us (.expression e .blank)
  | assign {n : Nat} {us : List Lexeme} {e : Expr} (name : String) (op : AssignOp)
      (he : Expr.Derives n .whole us e) :
      Derives n (.name name :: op.lexeme :: us) (.assign name op e .blank)
  | print {n : Nat} {us : List Lexeme} {e : Expr} (he : Expr.Derives n .whole us e) :
      Derives n
        (.keyword .printKw :: .symbol .leftParen :: (us ++ [.symbol .rightParen]))
        (.print e .blank)
  | conditional {n : Nat} {us : List Lexeme} {s : Stmt} (h : Stmt.DerivesIf n us s) :
      Derives n (.keyword .ifKw :: us) s
  | whileDo {n : Nat} {us vs : List Lexeme} {c : Expr} {body : List Stmt}
      (hc : Expr.Derives n .whole us c) (hbody : Stmt.DerivesBlock n vs body) :
      Derives n (.keyword .whileKw :: (us ++ vs)) (.whileDo c body .blank)
  | breakLoop {n : Nat} : Derives n [.keyword .breakKw] (.breakLoop .blank)
  | continueLoop {n : Nat} : Derives n [.keyword .continueKw] (.continueLoop .blank)

/-- The lexemes after an `if`: a condition and a block, and perhaps an `else`, which may stand on a
later line. -/
inductive Stmt.DerivesIf : (n : Nat) → List Lexeme → Stmt → Prop
  | ifThen {n : Nat} {us vs : List Lexeme} {c : Expr} {body : List Stmt}
      (hc : Expr.Derives n .whole us c) (hbody : Stmt.DerivesBlock n vs body) :
      DerivesIf n (us ++ vs) (.ifThen c body .blank)
  | ifElse {n : Nat} {us vs ws : List Lexeme} {c : Expr} {body otherwise : List Stmt}
      (newlines : Nat) (hc : Expr.Derives n .whole us c) (hbody : Stmt.DerivesBlock n vs body)
      (helse : Stmt.DerivesElse n ws otherwise) :
      DerivesIf n (us ++ (vs ++ (List.replicate newlines .newline ++ .keyword .elseKw :: ws)))
        (.ifElse c body otherwise .blank)

/-- The lexemes after an `else`: a further `if` or a block. -/
inductive Stmt.DerivesElse : (n : Nat) → List Lexeme → List Stmt → Prop
  | elseIf {n : Nat} {us : List Lexeme} {s : Stmt} (h : Stmt.DerivesIf n us s) :
      DerivesElse (n + 1) (.keyword .ifKw :: us) [s]
  | block {n : Nat} {us : List Lexeme} {ss : List Stmt} (h : Stmt.DerivesBlock n us ss) :
      DerivesElse n us ss

/-- Statements in braces. -/
inductive Stmt.DerivesBlock : (n : Nat) → List Lexeme → List Stmt → Prop
  | braces {n : Nat} {us : List Lexeme} {ss : List Stmt} (h : Stmt.DerivesAll n us ss) :
      DerivesBlock (n + 1) (.symbol .leftBrace :: (us ++ [.symbol .rightBrace])) ss

/-- Statements with at least one separator between two of them, and any number of separators at
both ends: `sep* (stmt (sep+ stmt)*)? sep*`. -/
inductive Stmt.DerivesAll : (n : Nat) → List Lexeme → List Stmt → Prop
  | nil {n : Nat} : DerivesAll n [] []
  | skip {n : Nat} {sep : Lexeme} {us : List Lexeme} {ss : List Stmt}
      (hsep : sep.isSeparator = true) (h : Stmt.DerivesAll n us ss) : DerivesAll n (sep :: us) ss
  | last {n : Nat} {us : List Lexeme} {s : Stmt} (hs : Stmt.Derives n us s) :
      DerivesAll n us [s]
  | cons {n : Nat} {sep : Lexeme} {us vs : List Lexeme} {s : Stmt} {ss : List Stmt}
      (hs : Stmt.Derives n us s) (hsep : sep.isSeparator = true) (h : Stmt.DerivesAll n vs ss) :
      DerivesAll n (us ++ sep :: vs) (s :: ss)

end

/-- The lexemes write the program. -/
def Program.Derives (us : List Lexeme) (program : Program) : Prop :=
  Stmt.DerivesAll maxDepth us program

/-! ### What the lexemes of a construct can be -/

/-- The lexemes that occur in expressions. -/
def Lexeme.isOfExpression : Lexeme → Bool
  | .number _ | .name _ => true
  | .keyword word => word ∈ [.trueKw, .falseKw, .andKw, .orKw, .notKw]
  | .symbol sign => sign ∈ [.leftParen, .rightParen, .plus, .minus, .star, .slash, .percent, .caret,
      .equal, .notEqual, .less, .lessEqual, .greater, .greaterEqual]
  | .newline | .unknown _ => false

theorem BinaryOp.isOfExpression_lexeme (op : BinaryOp) : op.lexeme.isOfExpression = true := by
  cases op <;> rfl

theorem UnaryOp.isOfExpression_lexeme (op : UnaryOp) : op.lexeme.isOfExpression = true := by
  cases op <;> rfl

/-- Nothing but operands, operators and parentheses is in an expression. -/
theorem Expr.Derives.isOfExpression {n : Nat} {r : Rank} {us : List Lexeme} {e : Expr}
    (h : Expr.Derives n r us e) : ∀ s ∈ us, s.isOfExpression = true := by
  induction h with
  | number | trueWord | falseWord | name =>
    intro s hs
    obtain rfl := List.mem_singleton.1 hs
    rfl
  | parens h ih =>
    intro s hs
    rcases List.mem_cons.1 hs with rfl | hs
    · rfl
    · rcases List.mem_append.1 hs with hs | hs
      · exact ih s hs
      · obtain rfl := List.mem_singleton.1 hs
        rfl
  | base h ih | plain h ih | operand h ih | tighter h ih | whole h ih => exact ih
  | sign op h ih =>
    intro s hs
    rcases List.mem_cons.1 hs with rfl | hs
    · exact op.isOfExpression_lexeme
    · exact ih s hs
  | power _ _ ihl ihr | binary _ _ _ ihl ihr =>
    intro s hs
    rcases List.mem_append.1 hs with hs | hs
    · exact ihl s hs
    · rcases List.mem_cons.1 hs with rfl | hs
      · exact BinaryOp.isOfExpression_lexeme _
      · exact ihr s hs

/-- What stands for an operand also stands for a whole expression. -/
theorem Expr.Derives.whole_of_primary {n : Nat} {us : List Lexeme} {e : Expr}
    (h : Expr.Derives n .primary us e) : Expr.Derives (n + 1) .whole us e := by
  have hproduct : Expr.Derives n (.level .product) us e := .tighter (.plain (.base h))
  exact .whole (.tighter (.tighter (.tighter (.tighter (.tighter hproduct)))))

theorem Expr.Derives.exists_cons {n : Nat} {r : Rank} {us : List Lexeme} {e : Expr}
    (h : Expr.Derives n r us e) : ∃ s us', us = s :: us' := by
  induction h with
  | number | trueWord | falseWord | name | parens | sign => exact ⟨_, _, rfl⟩
  | base h ih | plain h ih | operand h ih | tighter h ih | whole h ih => exact ih
  | power _ _ ihl ihr | binary _ _ _ ihl ihr =>
    obtain ⟨s, us', rfl⟩ := ihl
    exact ⟨s, _, rfl⟩

end Kestrel
