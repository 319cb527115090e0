import Kestrel.Token

/-!
# Parsers over tokens

A parser reads from the front of a list of tokens and leaves the rest. It never makes the list
longer, and this is part of its type, so that loops over parsers end.

## Main definitions

- `Expectation`, `Cause`, `Failure` — why a parser stopped, and before which tokens
- `SyntaxError` — a failure placed in the source
- `Parser` — parsers, with `pure` and `bind`
- `Parser.look`, `Parser.choose`, `Parser.expect` — inspecting and taking tokens

## Design notes

There is no backtracking: a parser decides by the next tokens, and its first failure is final.
-/

namespace Kestrel

/-- What a program should have gone on with. -/
inductive Expectation where
  | expression
  | endOfStatement
  | endOfStatementOrBrace
  | parenAfterPrint
  | closingParen
  | openingBrace
  | closingBrace
  deriving DecidableEq, Repr

/-- How messages name an expectation. -/
def Expectation.describe : Expectation → String
  | .expression => "expression"
  | .endOfStatement => "end of statement"
  | .endOfStatementOrBrace => "end of statement or '\x7d'"
  | .parenAfterPrint => "'(' after 'print'"
  | .closingParen => "')'"
  | .openingBrace => "'\x7b'"
  | .closingBrace => "'\x7d'"

/-- Why a program was not understood. -/
inductive Cause where
  | tooDeep
  | expected (what : Expectation)
  deriving DecidableEq, Repr

/-- A cause with the tokens in front of which it arose. -/
structure Failure where
  cause : Cause
  rest : List Token

/-- A failure placed in the source. -/
inductive SyntaxError where
  /-- More levels would have to be open at once than are allowed. -/
  | tooDeep (span : Span)
  /-- An expression should have started with a character that the language has no use for. -/
  | unexpectedCharacter (char : Char) (span : Span)
  /-- Something else was found, or nothing, where the program should have gone on. -/
  | expected (what : Expectation) (found : Option Lexeme) (span : Span)
  deriving DecidableEq

def SyntaxError.message : SyntaxError → String
  | .tooDeep _ => "program is nested too deeply"
  | .unexpectedCharacter char _ => "unexpected character '" ++ Text.visible char ++ "'"
  | .expected what found _ =>
    "expected " ++ what.describe ++ ", found " ++ (found.map Lexeme.describe).getD "end of input"

def SyntaxError.span : SyntaxError → Span
  | .tooDeep span | .unexpectedCharacter _ span | .expected _ _ span => span

/-- Places a failure: at the token in front of which it arose, or at `atEnd` if there is none. -/
def Failure.toError (failure : Failure) (atEnd : Span) : SyntaxError :=
  match failure.cause, failure.rest with
  | .tooDeep, [] => .tooDeep atEnd
  | .tooDeep, t :: _ => .tooDeep t.span
  | .expected what, [] => .expected what none atEnd
  | .expected what, t :: _ =>
    match what, t.lexeme with
    | .expression, .unknown char => .unexpectedCharacter char t.span
    | _, _ => .expected what (some t.lexeme) t.span

@[simp] theorem Failure.span_toError_nil (cause : Cause) (atEnd : Span) :
    (Failure.toError ⟨cause, []⟩ atEnd).span = atEnd := by
  cases cause <;> rfl

@[simp] theorem Failure.span_toError_cons (cause : Cause) (t : Token) (rest : List Token)
    (atEnd : Span) : (Failure.toError ⟨cause, t :: rest⟩ atEnd).span = t.span := by
  unfold Failure.toError
  cases cause with
  | tooDeep => rfl
  | expected what =>
    dsimp only
    split <;> rfl

/-- A reader of tokens that gives a result and the tokens it left, never more than it was given. -/
structure Parser (α : Type) where
  run : List Token → Except Failure (α × List Token)
  length_le : ∀ {ts a rest}, run ts = .ok (a, rest) → rest.length ≤ ts.length

namespace Parser

variable {α β : Type}

/-- Two parsers that read alike are equal. -/
theorem ext {p q : Parser α} (h : ∀ ts, p.run ts = q.run ts) : p = q := by
  cases p
  cases q
  congr
  exact funext h

/-- Takes nothing. -/
def ok (a : α) : Parser α where
  run ts := .ok (a, ts)
  length_le h := by
    cases h
    exact Nat.le_refl _

/-- Reads on with a parser that depends on the result so far. -/
def andThen (p : Parser α) (f : α → Parser β) : Parser β where
  run ts := match p.run ts with
    | .error failure => .error failure
    | .ok (a, rest) => (f a).run rest
  length_le {ts b rest} h := by
    split at h
    · cases h
    · next a between hp => exact Nat.le_trans ((f a).length_le h) (p.length_le hp)

instance : Monad Parser where
  pure := ok
  bind := andThen

@[simp] theorem run_pure (a : α) (ts : List Token) :
    (pure a : Parser α).run ts = .ok (a, ts) := rfl

theorem run_bind (p : Parser α) (f : α → Parser β) (ts : List Token) :
    (p >>= f).run ts = match p.run ts with
      | .error failure => .error failure
      | .ok (a, rest) => (f a).run rest := rfl

/-- Stops in front of the next token. -/
def fail (cause : Cause) : Parser α where
  run ts := .error ⟨cause, ts⟩
  length_le h := by cases h

@[simp] theorem run_fail (cause : Cause) (ts : List Token) :
    (fail cause : Parser α).run ts = .error ⟨cause, ts⟩ := rfl

/-- Decides by the tokens ahead, without taking any. -/
def look (f : List Token → Parser α) : Parser α where
  run ts := (f ts).run ts
  length_le {ts _ _} h := (f ts).length_le h

@[simp] theorem run_look (f : List Token → Parser α) (ts : List Token) :
    (look f).run ts = (f ts).run ts := rfl

/-- Takes the next token and goes on as `f` says for it; if `f` has nothing for it, or there is no
token, goes on with `otherwise` and takes none. -/
def choose (f : Token → Option (Parser α)) (otherwise : Parser α) : Parser α where
  run
    | [] => otherwise.run []
    | t :: rest =>
      match f t with
      | some p => p.run rest
      | none => otherwise.run (t :: rest)
  length_le {ts a rest} h := by
    split at h
    · exact otherwise.length_le h
    · split at h
      · exact Nat.le_succ_of_le (Parser.length_le _ h)
      · exact otherwise.length_le h

@[simp] theorem run_choose_nil (f : Token → Option (Parser α)) (otherwise : Parser α) :
    (choose f otherwise).run [] = otherwise.run [] := rfl

theorem run_choose_cons (f : Token → Option (Parser α)) (otherwise : Parser α) (t : Token)
    (rest : List Token) :
    (choose f otherwise).run (t :: rest) = match f t with
      | some p => p.run rest
      | none => otherwise.run (t :: rest) := rfl

/-- Takes a certain symbol, and gives its span. -/
def expect (sign : Symbol) (what : Expectation) : Parser Span :=
  choose (fun t => if t.lexeme = .symbol sign then some (pure t.span) else none)
    (fail (.expected what))

/-- Takes all separators that come next. -/
def skipSeparators : Parser Unit where
  run ts := .ok ((), ts.dropWhile (·.lexeme.isSeparator))
  length_le h := by
    cases h
    exact (List.dropWhile_suffix _).length_le

end Parser

end Kestrel
