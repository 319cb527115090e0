import Kestrel.Token

/-!
# From text to tokens

Every text has tokens. Between them stand blanks and comments; each token is the longest one that
starts where the one before and the blanks after it end, and neighbouring newlines become one.

## Main definitions

- `skipBlanks` — passes over spaces, tabs, carriage returns and comments
- `scan` — takes one lexeme off the front of a text
- `tokenize` — the tokens of a text

## Main statements

- `scan_text_append_rest` — the characters of a lexeme and the rest after it give the text back
- `length_rest_lt_of_scan` — a lexeme takes at least one character
-/

namespace Kestrel

open Text

/-- Passes over the rest of a line, which stands at `offset`. -/
def skipLine : (offset : Nat) → List Char → Nat × List Char
  | offset, [] => (offset, [])
  | offset, c :: cs => if c = '\n' then (offset, c :: cs) else skipLine (offset + c.utf8Size) cs

/-- Passes over the blanks and comments at the front of a text, which stands at `offset`. A comment
reaches to the end of its line. -/
def skipBlanks : (offset : Nat) → List Char → Nat × List Char
  | offset, '/' :: '/' :: cs => skipLine (offset + 2) cs
  | offset, c :: cs =>
    if c = ' ' || c = '\t' || c = '\r' then skipBlanks (offset + 1) cs else (offset, c :: cs)
  | offset, [] => (offset, [])

/-- Whether a word may start with a character. -/
def startsWord (c : Char) : Bool :=
  c.isAlpha || c == '_'

/-- Whether a word may go on with a character. -/
def continuesWord (c : Char) : Bool :=
  c.isAlphanum || c == '_'

/-- The symbol written with two characters. -/
def Symbol.ofPair? : Char → Char → Option Symbol
  | '=', '=' => some .equal
  | '!', '=' => some .notEqual
  | '<', '=' => some .lessEqual
  | '>', '=' => some .greaterEqual
  | '+', '=' => some .plusAssign
  | '-', '=' => some .minusAssign
  | '*', '=' => some .starAssign
  | '/', '=' => some .slashAssign
  | _, _ => none

/-- The symbol written with one character. -/
def Symbol.ofChar? : Char → Option Symbol
  | '+' => some .plus
  | '-' => some .minus
  | '*' => some .star
  | '/' => some .slash
  | '%' => some .percent
  | '^' => some .caret
  | '=' => some .assign
  | '<' => some .less
  | '>' => some .greater
  | '(' => some .leftParen
  | ')' => some .rightParen
  | '\x7b' => some .leftBrace
  | '\x7d' => some .rightBrace
  | ';' => some .semicolon
  | _ => none

/-- A lexeme taken off the front of a text: what it is, its characters, and what follows. -/
structure Scanned where
  lexeme : Lexeme
  text : List Char
  rest : List Char

def wordLexeme (word : String) : Lexeme :=
  match Keyword.ofText? word with
  | some keyword => .keyword keyword
  | none => .name word

/-- Takes a word off the front of a text. -/
def scanWord (cs : List Char) : Scanned :=
  let word := cs.takeWhile continuesWord
  ⟨wordLexeme (String.ofList word), word, cs.dropWhile continuesWord⟩

/-- Takes a numeral off the front of a text: digits, and a point if a digit follows it. -/
def scanNumber (cs : List Char) : Scanned :=
  let whole := cs.takeWhile Char.isDigit
  match cs.dropWhile Char.isDigit with
  | '.' :: d :: rest =>
    if d.isDigit then
      let fraction := (d :: rest).takeWhile Char.isDigit
      ⟨.number (Number.Decimal.ofNumeral whole fraction).toFloat, whole ++ '.' :: fraction,
        (d :: rest).dropWhile Char.isDigit⟩
    else
      ⟨.number (Number.Decimal.ofNumeral whole []).toFloat, whole, '.' :: d :: rest⟩
  | rest => ⟨.number (Number.Decimal.ofNumeral whole []).toFloat, whole, rest⟩

/-- Takes a symbol of two characters off the front of a text. -/
def scanPair? (c : Char) : List Char → Option Scanned
  | d :: rest => (Symbol.ofPair? c d).map fun sign => ⟨.symbol sign, [c, d], rest⟩
  | [] => none

/-- Takes a single character off the front of a text: a symbol, a newline or an unknown one. -/
def scanChar (c : Char) (cs : List Char) : Scanned :=
  match Symbol.ofChar? c with
  | some sign => ⟨.symbol sign, [c], cs⟩
  | none => ⟨if c = '\n' then .newline else .unknown c, [c], cs⟩

/-- Takes one lexeme off the front of a text. -/
def scan : List Char → Option Scanned
  | [] => none
  | c :: cs =>
    if c.isDigit then some (scanNumber (c :: cs))
    else if startsWord c then some (scanWord (c :: cs))
    else some ((scanPair? c cs).getD (scanChar c cs))

theorem continuesWord_of_startsWord {c : Char} (h : startsWord c = true) :
    continuesWord c = true := by
  simp only [startsWord, continuesWord, Char.isAlphanum, Bool.or_eq_true] at h ⊢
  exact h.imp_left Or.inl

theorem scanNumber_text_append_rest (cs : List Char) :
    (scanNumber cs).text ++ (scanNumber cs).rest = cs := by
  have h := List.takeWhile_append_dropWhile (p := Char.isDigit) (l := cs)
  unfold scanNumber
  split
  · next d rest heq =>
    split
    · simp only [List.append_assoc, List.cons_append, List.takeWhile_append_dropWhile]
      rw [← heq, h]
    · simp only
      rw [← heq, h]
  · exact h

theorem scanPair?_eq_some {c : Char} {cs : List Char} {s : Scanned} (h : scanPair? c cs = some s) :
    ∃ d, s.text = [c, d] ∧ cs = d :: s.rest := by
  unfold scanPair? at h
  split at h
  · obtain ⟨_, _, rfl⟩ := Option.map_eq_some_iff.1 h
    exact ⟨_, rfl, rfl⟩
  · simp at h

theorem scanChar_text (c : Char) (cs : List Char) : (scanChar c cs).text = [c] := by
  unfold scanChar
  split <;> rfl

theorem scanChar_rest (c : Char) (cs : List Char) : (scanChar c cs).rest = cs := by
  unfold scanChar
  split <;> rfl

/-- The characters of a lexeme and the rest after it give the text back. -/
theorem scan_text_append_rest {cs : List Char} {s : Scanned} (h : scan cs = some s) :
    s.text ++ s.rest = cs := by
  unfold scan at h
  split at h
  · simp at h
  · split at h
    · obtain rfl := Option.some.inj h
      exact scanNumber_text_append_rest _
    · split at h
      · obtain rfl := Option.some.inj h
        exact List.takeWhile_append_dropWhile
      · obtain rfl := Option.some.inj h
        cases hpair : scanPair? _ _ with
        | some s =>
          obtain ⟨d, htext, rfl⟩ := scanPair?_eq_some hpair
          simp [htext]
        | none => simp [scanChar_text, scanChar_rest]

theorem scanNumber_text_ne_nil {c : Char} {cs : List Char} (h : c.isDigit = true) :
    (scanNumber (c :: cs)).text ≠ [] := by
  unfold scanNumber
  simp only [List.takeWhile_cons_of_pos h]
  grind

/-- A lexeme takes at least one character. -/
theorem length_rest_lt_of_scan {cs : List Char} {s : Scanned} (h : scan cs = some s) :
    s.rest.length < cs.length := by
  have htext : s.text ≠ [] := by
    unfold scan at h
    split at h
    · simp at h
    · split at h
      · obtain rfl := Option.some.inj h
        exact scanNumber_text_ne_nil ‹_›
      · split at h
        · next hword =>
          obtain rfl := Option.some.inj h
          simp [scanWord, List.takeWhile_cons_of_pos (continuesWord_of_startsWord hword)]
        · obtain rfl := Option.some.inj h
          cases hpair : scanPair? _ _ with
          | some s =>
            obtain ⟨d, htext, _⟩ := scanPair?_eq_some hpair
            simp [htext]
          | none => simp [scanChar_text]
  have hlen := congrArg List.length (scan_text_append_rest h)
  have hpos := List.length_pos_iff.2 htext
  rw [List.length_append] at hlen
  omega

theorem length_skipLine_le (offset : Nat) (cs : List Char) :
    (skipLine offset cs).2.length ≤ cs.length := by
  fun_induction skipLine offset cs <;> grind

theorem length_skipBlanks_le (offset : Nat) (cs : List Char) :
    (skipBlanks offset cs).2.length ≤ cs.length := by
  fun_induction skipBlanks offset cs with
  | case1 offset cs =>
    have := length_skipLine_le (offset + 2) cs
    grind
  | _ => grind

/-- Puts the tokens of a text, which stands at `offset`, in front of those found before it, the last
one in front. -/
def tokensOnto (found : List Token) (offset : Nat) (cs : List Char) : List Token :=
  match h : scan (skipBlanks offset cs).2 with
  | none => found
  | some s =>
    have := length_rest_lt_of_scan h
    let start := (skipBlanks offset cs).1
    let stop := start + byteLength s.text
    tokensOnto (⟨s.lexeme, ⟨start, stop⟩⟩ :: found) stop s.rest
termination_by cs.length
decreasing_by
  have := length_skipBlanks_le offset cs
  omega

/-- Puts a token in front of those after it; two newlines become one that covers both. -/
def joinNewline (t : Token) : List Token → List Token
  | next :: rest =>
    if t.lexeme = .newline ∧ next.lexeme = .newline then
      ⟨.newline, t.span.merge next.span⟩ :: rest
    else t :: next :: rest
  | [] => [t]

/-- The tokens of a text, in order. -/
def tokenize (source : String) : List Token :=
  (tokensOnto [] 0 source.toList).foldl (fun after t => joinNewline t after) []

end Kestrel
