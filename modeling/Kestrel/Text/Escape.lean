import Kestrel.Text.GraphemeExtend
import Kestrel.Text.Unprintable

/-!
# Characters made visible

Messages and outlines show characters so that each of them can be told from the text around it: a
few by a letter after a backslash, all that have no form of their own by their code point.

## Main definitions

- `visible` — one character, for a message that quotes it
- `quoted` — a text between double quotes
-/

namespace Kestrel.Text

/-- The code point of a character, written as an escape. -/
def codePoint (c : Char) : List Char :=
  '\\' :: 'u' :: '\x7b' :: Nat.toDigits 16 c.toNat ++ ['\x7d']

/-- A character made visible. Of the quotes, those that satisfy `quotes` are escaped. -/
def escape (quotes : Char → Bool) (c : Char) : List Char :=
  if c = '\x00' then ['\\', '0']
  else if c = '\t' then ['\\', 't']
  else if c = '\r' then ['\\', 'r']
  else if c = '\n' then ['\\', 'n']
  else if c = '\\' || quotes c then ['\\', c]
  else if isGraphemeExtend c || isUnprintable c then codePoint c
  else [c]

/-- A single character, shown without quotes around it. -/
def visible (c : Char) : String :=
  String.ofList (escape (fun c => c == '\'' || c == '"') c)

def quoted (s : String) : String :=
  "\"" ++ String.ofList (s.toList.flatMap (escape (· == '"'))) ++ "\""

end Kestrel.Text
