import Kestrel.Program
import Kestrel.Program.Parser

/-!
# From tokens to programs

Statements end at a newline or a semicolon. Expressions have eight levels, loosest first: `or`,
`and`, equality, comparison, sums, products, the unary operators, and powers. The binary operators
group to the left, except that the exponent of a power is a unary expression.

Some constructs open a nesting level for as long as they are read: an expression, the operand of a
unary operator, an exponent, a block, and an `if` after `else`. At most `maxDepth` levels may be
open at once.

## Main definitions

- `Deeper` — the parsers that open one more level, for a number of levels still free
- `statement` — a statement whose parts are read by such parsers
- `Program.ofTokens` — the program that a list of tokens writes down

## Design notes

`deeper n` is defined by recursion on the number `n` of free levels: with none left every opening
parser stops, and with `n + 1` left the parts of what it opens are read by `deeper n`. The limit on
nesting is thus what makes the grammar's recursion end.
-/

namespace Kestrel

/-- The most levels that may be open at once. -/
def maxDepth : Nat := 64

/-- The parsers that open one more nesting level. -/
structure Deeper where
  /-- The operand of a unary operator, or an exponent. -/
  operand : Parser Expr
  /-- A whole expression. -/
  expression : Parser Expr
  /-- An `if` after `else`, with the span of its last token. -/
  conditional : Parser (Stmt × Span)
  /-- A block after its opening brace, with the span of its closing brace. -/
  body : Parser (List Stmt × Span)

/-- No further level may be opened. -/
def Deeper.none : Deeper :=
  ⟨.fail .tooDeep, .fail .tooDeep, .fail .tooDeep, .fail .tooDeep⟩

/-! ### Expressions -/

section Expressions

variable (inner : Deeper)

/-- A number, a boolean, a name, or an expression in parentheses. The parentheses leave no trace. -/
def primary : Parser Expr :=
  .choose (fun t =>
    match t.lexeme with
    | .number value => some (pure (.number value t.span))
    | .keyword .trueKw => some (pure (.boolean true t.span))
    | .keyword .falseKw => some (pure (.boolean false t.span))
    | .name text => some (pure (.name text t.span))
    | .symbol .leftParen => some do
      let value ← inner.expression
      let _ ← Parser.expect .rightParen .closingParen
      return value
    | _ => none)
    (.fail (.expected .expression))

/-- A primary expression, perhaps with an exponent. -/
def power : Parser Expr := do
  let base ← primary inner
  .choose (fun t =>
    if t.lexeme = .symbol .caret then some do
      let exponent ← inner.operand
      return base.join .pow exponent
    else none)
    (pure base)

/-- The unary operator that a lexeme stands for. -/
def UnaryOp.ofLexeme? : Lexeme → Option UnaryOp
  | .symbol .minus => some .neg
  | .keyword .notKw => some .not
  | _ => none

/-- A unary operator with its operand, or a power. -/
def unary : Parser Expr :=
  .choose (fun t => (UnaryOp.ofLexeme? t.lexeme).map fun op => do
    let operand ← inner.operand
    return .unary op operand (t.span.merge operand.span))
    (power inner)

end Expressions

/-- Reads on after `left` as long as an operator comes next, each with an expression of the next
level after it. -/
def chainFrom (op? : Lexeme → Option BinaryOp) (next : Parser Expr) (left : Expr)
    (ts : List Token) : Except Failure (Expr × List Token) :=
  match ts with
  | [] => .ok (left, [])
  | t :: rest =>
    match op? t.lexeme with
    | none => .ok (left, t :: rest)
    | some op =>
      match h : next.run rest with
      | .error failure => .error failure
      | .ok (right, rest') =>
        have := next.length_le h
        chainFrom op? next (left.join op right) rest'
termination_by ts.length

theorem length_le_of_chainFrom {op? : Lexeme → Option BinaryOp} {next : Parser Expr} {left : Expr}
    {ts : List Token} {e : Expr} {rest : List Token}
    (h : chainFrom op? next left ts = .ok (e, rest)) : rest.length ≤ ts.length := by
  fun_induction chainFrom op? next left ts with
  | case1 => grind
  | case2 => grind
  | case3 => simp at h
  | case4 left t rest op hop right rest' hnext hle ih =>
    have := ih h
    simp only [List.length_cons]
    omega

/-- Expressions of the next level joined by the operators of this one, grouped to the left. -/
def chain (op? : Lexeme → Option BinaryOp) (next : Parser Expr) : Parser Expr := do
  let first ← next
  ⟨chainFrom op? next first, length_le_of_chainFrom⟩

/-- Products, quotients and remainders. -/
def BinaryOp.multiplicative? : Lexeme → Option BinaryOp
  | .symbol .star => some .mul
  | .symbol .slash => some .div
  | .symbol .percent => some .mod
  | _ => none

/-- Sums and differences. -/
def BinaryOp.additive? : Lexeme → Option BinaryOp
  | .symbol .plus => some .add
  | .symbol .minus => some .sub
  | _ => none

/-- Comparisons of order. -/
def BinaryOp.comparison? : Lexeme → Option BinaryOp
  | .symbol .less => some .lt
  | .symbol .lessEqual => some .le
  | .symbol .greater => some .gt
  | .symbol .greaterEqual => some .ge
  | _ => none

/-- Tests of equality. -/
def BinaryOp.equality? : Lexeme → Option BinaryOp
  | .symbol .equal => some .eq
  | .symbol .notEqual => some .ne
  | _ => none

/-- Conjunction. -/
def BinaryOp.conjunction? : Lexeme → Option BinaryOp
  | .keyword .andKw => some .and
  | _ => none

/-- Disjunction. -/
def BinaryOp.disjunction? : Lexeme → Option BinaryOp
  | .keyword .orKw => some .or
  | _ => none

/-- The levels of binary operators, tightest first. -/
def binaryLevels : List (Lexeme → Option BinaryOp) :=
  [BinaryOp.multiplicative?, BinaryOp.additive?, BinaryOp.comparison?, BinaryOp.equality?,
    BinaryOp.conjunction?, BinaryOp.disjunction?]

/-- An expression with operators of every level. -/
def anyExpression (inner : Deeper) : Parser Expr :=
  binaryLevels.foldl (fun next op? => chain op? next) (unary inner)

/-! ### Statements -/

section Statements

variable (inner : Deeper)

/-- A block, with the span of its closing brace. -/
def block : Parser (List Stmt × Span) := do
  let _ ← Parser.expect .leftBrace .openingBrace
  inner.body

/-- Takes newlines and the `else` after them; takes nothing if they are followed by anything
else. -/
def takeElse? : List Token → Option (List Token)
  | [] => none
  | t :: rest =>
    if t.lexeme = .newline then takeElse? rest
    else if t.lexeme = .keyword .elseKw then some rest
    else none

theorem length_lt_of_takeElse? {ts rest : List Token} (h : takeElse? ts = some rest) :
    rest.length < ts.length := by
  fun_induction takeElse? ts <;> grind

/-- Reads `some` branch after an `else`, possibly on a later line, or nothing. -/
def elseBranch {α : Type} (branch : Parser α) : Parser (Option α) where
  run ts := match takeElse? ts with
    | none => .ok (none, ts)
    | some rest =>
      match branch.run rest with
      | .error failure => .error failure
      | .ok (a, rest') => .ok (some a, rest')
  length_le {ts a rest} h := by
    split at h
    · cases h
      exact Nat.le_refl _
    · next rest₁ helse =>
      split at h
      · cases h
      · next a₁ rest₂ hbranch =>
        have := length_lt_of_takeElse? helse
        have := branch.length_le hbranch
        cases h
        omega

/-- What follows `else`: a further `if`, which opens a level of its own, or a block. -/
def alternative : Parser (List Stmt × Span) :=
  .look fun ts =>
    match ts with
    | ⟨.keyword .ifKw, _⟩ :: _ => do
      let (stmt, last) ← inner.conditional
      return ([stmt], last)
    | _ => block inner

/-- What follows the word `if` at `start`, with the span of the last token. -/
def conditionalAfter (start : Span) : Parser (Stmt × Span) := do
  let condition ← inner.expression
  let (body, last) ← block inner
  match ← elseBranch (alternative inner) with
  | none => return (.ifThen condition body (start.merge last), last)
  | some (otherwise, last) => return (.ifElse condition body otherwise (start.merge last), last)

/-- What follows the word `while` at `start`. -/
def loopAfter (start : Span) : Parser Stmt := do
  let condition ← inner.expression
  let (body, last) ← block inner
  return .whileDo condition body (start.merge last)

/-- What follows the word `print` at `start`. -/
def printAfter (start : Span) : Parser Stmt := do
  let _ ← Parser.expect .leftParen .parenAfterPrint
  let value ← inner.expression
  let stop ← Parser.expect .rightParen .closingParen
  return .print value (start.merge stop)

/-- The assignment that a lexeme stands for. -/
def AssignOp.ofLexeme? : Lexeme → Option AssignOp
  | .symbol .assign => some .set
  | .symbol .plusAssign => some .add
  | .symbol .minusAssign => some .sub
  | .symbol .starAssign => some .mul
  | .symbol .slashAssign => some .div
  | _ => none

/-- The name, its span and the assignment that some tokens start with. -/
def assignmentAhead? : List Token → Option (String × Span × AssignOp)
  | ⟨.name text, span⟩ :: t :: _ => (AssignOp.ofLexeme? t.lexeme).map (text, span, ·)
  | _ => none

/-- Takes up to two tokens. -/
def skipTwo : Parser Unit where
  run ts := .ok ((), ts.drop 2)
  length_le h := by
    cases h
    simp

/-- An assignment, or an expression by itself. -/
def assignmentOrExpression : Parser Stmt :=
  .look fun ts =>
    match assignmentAhead? ts with
    | some (name, span, op) => do
      skipTwo
      let value ← inner.expression
      return .assign name op value (span.merge value.span)
    | none => do
      let value ← inner.expression
      return .expression value value.span

/-- A statement. -/
def statement : Parser Stmt :=
  .choose (fun t =>
    match t.lexeme with
    | .keyword .printKw => some (printAfter inner t.span)
    | .keyword .ifKw => some do
      let (stmt, _) ← conditionalAfter inner t.span
      return stmt
    | .keyword .whileKw => some (loopAfter inner t.span)
    | .keyword .breakKw => some (pure (.breakLoop t.span))
    | .keyword .continueKw => some (pure (.continueLoop t.span))
    | _ => none)
    (assignmentOrExpression inner)

end Statements

/-- Reads the statements of a block up to and with its closing brace, after those in `before`, the
last of which is in front. No separator comes first. -/
def bodyFrom (item : Parser Stmt) (before : List Stmt) (ts : List Token) :
    Except Failure ((List Stmt × Span) × List Token) :=
  match ts with
  | [] => .error ⟨.expected .closingBrace, []⟩
  | t :: rest =>
    if t.lexeme = .symbol .rightBrace then .ok ((before.reverse, t.span), rest)
    else
      match h : item.run (t :: rest) with
      | .error failure => .error failure
      | .ok (_, []) => .error ⟨.expected .endOfStatementOrBrace, []⟩
      | .ok (stmt, t' :: rest') =>
        if t'.lexeme = .symbol .rightBrace then .ok (((stmt :: before).reverse, t'.span), rest')
        else if t'.lexeme.isSeparator then
          have := item.length_le h
          bodyFrom item (stmt :: before) (rest'.dropWhile (·.lexeme.isSeparator))
        else .error ⟨.expected .endOfStatementOrBrace, t' :: rest'⟩
termination_by ts.length
decreasing_by
  have := (List.dropWhile_suffix (l := rest') (·.lexeme.isSeparator)).length_le
  simp only [List.length_cons] at *
  omega

theorem length_le_of_bodyFrom {item : Parser Stmt} {before : List Stmt} {ts : List Token}
    {r : List Stmt × Span} {rest : List Token} (h : bodyFrom item before ts = .ok (r, rest)) :
    rest.length ≤ ts.length := by
  fun_induction bodyFrom item before ts with
  | case1 => simp at h
  | case2 before t rest₁ ht =>
    cases h
    simp
  | case3 => simp at h
  | case4 => simp at h
  | case5 before t rest₁ ht stmt t' rest' hitem ht' =>
    have := item.length_le hitem
    cases h
    simp only [List.length_cons] at *
    omega
  | case6 before t rest₁ ht stmt t' rest' hitem ht' hsep hle ih =>
    have := ih h
    have := (List.dropWhile_suffix (l := rest') (·.lexeme.isSeparator)).length_le
    simp only [List.length_cons] at *
    omega
  | case7 => simp at h

/-- A block after its opening brace. -/
def bodyAfterBrace (item : Parser Stmt) : Parser (List Stmt × Span) := do
  Parser.skipSeparators
  ⟨bodyFrom item [], length_le_of_bodyFrom⟩

/-- An `if` with all that belongs to it, and the span of its last token. -/
def ifStatement (inner : Deeper) : Parser (Stmt × Span) :=
  .choose (fun t =>
    if t.lexeme = .keyword .ifKw then some (conditionalAfter inner t.span) else none)
    (.fail (.expected .expression))

/-- One level more may be opened: the parts of what it opens are read by `inner`. -/
def Deeper.next (inner : Deeper) : Deeper where
  operand := unary inner
  expression := anyExpression inner
  conditional := ifStatement inner
  body := bodyAfterBrace (statement inner)

/-- The parsers that open one more level when `n` levels are free. -/
def deeper : (n : Nat) → Deeper
  | 0 => .none
  | n + 1 => (deeper n).next

/-- Reads statements up to the end of the tokens, after those in `before`, the last of which is in
front. No separator comes first. -/
def statementsFrom (item : Parser Stmt) (before : List Stmt) (ts : List Token) :
    Except Failure Program :=
  match ts with
  | [] => .ok before.reverse
  | t :: rest =>
    match h : item.run (t :: rest) with
    | .error failure => .error failure
    | .ok (stmt, []) => .ok (stmt :: before).reverse
    | .ok (stmt, t' :: rest') =>
      if t'.lexeme.isSeparator then
        have := item.length_le h
        statementsFrom item (stmt :: before) (rest'.dropWhile (·.lexeme.isSeparator))
      else .error ⟨.expected .endOfStatement, t' :: rest'⟩
termination_by ts.length
decreasing_by
  have := (List.dropWhile_suffix (l := rest') (·.lexeme.isSeparator)).length_le
  simp only [List.length_cons] at *
  omega

/-- The empty span at the end of the last token. -/
def endSpan (ts : List Token) : Span :=
  match ts.getLast? with
  | some t => ⟨t.span.stop, t.span.stop⟩
  | none => ⟨0, 0⟩

/-- The program that some tokens write down, or the first failure to find one. -/
def Program.ofTokens (ts : List Token) : Except SyntaxError Program :=
  let start := ts.dropWhile (·.lexeme.isSeparator)
  match statementsFrom (statement (deeper maxDepth)) [] start with
  | .ok program => .ok program
  | .error failure => .error (failure.toError (endSpan ts))

end Kestrel
