import Kestrel.Number.Style
import Kestrel.Program.Tree

/-!
# Programs as JSON

Every part stands on a line of its own, indented by two blanks per level. A value of one of several
kinds is an object with one member, named after the kind. A missing part and a number that is not
finite are `null`.

## Main definitions

- `Json.numbers` — how numbers are written
- `Tree.json` — a tree as JSON
- `Program.json` — a program as JSON
-/

namespace Kestrel

/-- Digits stand at their places from `1e-5` up to below `1e16`; an exponent is always signed, and
whole numbers end in `.0`. -/
def Json.numbers : Number.Style := ⟨.toEven, some (-5, 16), true, true⟩

/-- A character inside a JSON string. -/
def Json.escape (c : Char) : List Char :=
  if c = '"' then ['\\', '"']
  else if c = '\\' then ['\\', '\\']
  else if c = '\x08' then ['\\', 'b']
  else if c = '\x0c' then ['\\', 'f']
  else if c = '\n' then ['\\', 'n']
  else if c = '\r' then ['\\', 'r']
  else if c = '\t' then ['\\', 't']
  else if c.toNat < 0x20 then
    let digits := Nat.toDigits 16 c.toNat
    '\\' :: 'u' :: List.replicate (4 - digits.length) '0' ++ digits
  else [c]

/-- A JSON string. -/
def Json.string (s : String) : String :=
  "\"" ++ String.ofList (s.toList.flatMap Json.escape) ++ "\""

/-- Entries between brackets, each on a line of its own. -/
def Json.bracketed (opening closing : String) (indent : Nat) : List String → String
  | [] => opening ++ closing
  | entries =>
    opening ++ newLine (indent + 2) ++ String.intercalate ("," ++ newLine (indent + 2)) entries
      ++ newLine indent ++ closing

mutual

/-- A tree as JSON, on a line that is indented by `indent` blanks. -/
def Tree.json (indent : Nat) : Tree → String
  | .word name => Json.string name
  | .text value => Json.string value
  | .number value => if value.isFinite then Json.numbers.text value else "null"
  | .count value => toString value
  | .flag value => if value then "true" else "false"
  | .absent => "null"
  | .present value => value.json indent
  | .list items => Json.bracketed "[" "]" indent (Tree.jsonItems (indent + 2) items)
  | .record _ fields =>
    Json.bracketed "\x7b" "\x7d" indent (Tree.jsonMembers (indent + 2) fields)
  | .variant name fields =>
    Json.bracketed "\x7b" "\x7d" indent
      [Json.string name ++ ": " ++
        Json.bracketed "\x7b" "\x7d" (indent + 2) (Tree.jsonMembers (indent + 4) fields)]

/-- The items of a list as JSON. -/
def Tree.jsonItems (indent : Nat) : List Tree → List String
  | [] => []
  | item :: rest => item.json indent :: Tree.jsonItems indent rest

/-- The members of an object. -/
def Tree.jsonMembers (indent : Nat) : List (String × Tree) → List String
  | [] => []
  | (name, value) :: rest =>
    (Json.string name ++ ": " ++ value.json indent) :: Tree.jsonMembers indent rest

end

def Program.json (program : Program) : String :=
  program.tree.json 0

end Kestrel
