import Kestrel.Number.Style
import Kestrel.Text.Escape
import Kestrel.Text.Span

/-!
# Tokens

The smallest units of a program text: numbers, names, keywords, operator and bracket symbols,
newlines, and single characters that the language has no use for.

## Main definitions

- `Keyword`, `Symbol` — the fixed words and signs of the language, each with its spelling
- `Lexeme` — what a token is
- `Token` — a lexeme with the span it was read from
-/

namespace Kestrel

/-- The reserved words. -/
inductive Keyword where
  | trueKw | falseKw | andKw | orKw | notKw | ifKw | elseKw | whileKw | breakKw | continueKw | printKw
  deriving DecidableEq, Repr

def Keyword.text : Keyword → String
  | .trueKw => "true"
  | .falseKw => "false"
  | .andKw => "and"
  | .orKw => "or"
  | .notKw => "not"
  | .ifKw => "if"
  | .elseKw => "else"
  | .whileKw => "while"
  | .breakKw => "break"
  | .continueKw => "continue"
  | .printKw => "print"

def Keyword.all : List Keyword :=
  [.trueKw, .falseKw, .andKw, .orKw, .notKw, .ifKw, .elseKw, .whileKw, .breakKw, .continueKw,
    .printKw]

/-- The keyword with this spelling. -/
def Keyword.ofText? (word : String) : Option Keyword :=
  Keyword.all.find? (·.text == word)

/-- The operator and bracket signs, and the semicolon. -/
inductive Symbol where
  | leftParen | rightParen | leftBrace | rightBrace | semicolon
  | plus | minus | star | slash | percent | caret
  | assign | plusAssign | minusAssign | starAssign | slashAssign
  | equal | notEqual | less | lessEqual | greater | greaterEqual
  deriving DecidableEq, Repr

def Symbol.text : Symbol → String
  | .leftParen => "("
  | .rightParen => ")"
  | .leftBrace => "\x7b"
  | .rightBrace => "\x7d"
  | .semicolon => ";"
  | .plus => "+"
  | .minus => "-"
  | .star => "*"
  | .slash => "/"
  | .percent => "%"
  | .caret => "^"
  | .assign => "="
  | .plusAssign => "+="
  | .minusAssign => "-="
  | .starAssign => "*="
  | .slashAssign => "/="
  | .equal => "=="
  | .notEqual => "!="
  | .less => "<"
  | .lessEqual => "<="
  | .greater => ">"
  | .greaterEqual => ">="

/-- What a token is. -/
inductive Lexeme where
  | number (value : Float)
  | name (text : String)
  | keyword (word : Keyword)
  | symbol (sign : Symbol)
  | newline
  | unknown (char : Char)
  deriving DecidableEq

/-- Whether a lexeme separates statements. -/
def Lexeme.isSeparator : Lexeme → Bool
  | .newline => true
  | .symbol .semicolon => true
  | _ => false

/-- How messages and listings name a lexeme. -/
def Lexeme.describe : Lexeme → String
  | .number value => "number " ++ Number.text value
  | .name text => "identifier '" ++ text ++ "'"
  | .keyword word => "keyword '" ++ word.text ++ "'"
  | .symbol sign => "'" ++ sign.text ++ "'"
  | .newline => "newline"
  | .unknown char => "unknown '" ++ Text.visible char ++ "'"

/-- A lexeme with the bytes it was read from. -/
structure Token where
  lexeme : Lexeme
  span : Span
  deriving DecidableEq

/-- How listings show a token. -/
def Token.describe (t : Token) : String :=
  t.lexeme.describe ++ " at " ++ t.span.describe

end Kestrel
