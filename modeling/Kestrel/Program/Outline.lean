import Kestrel.Number.Style
import Kestrel.Program.Tree
import Kestrel.Text.Escape

/-!
# Programs as outlines

An outline names every record, puts each part on a line of its own with a comma after it, and
indents by four blanks per level.

## Main definitions

- `Outline.numbers` — how numbers are written
- `Tree.outline` — a tree as an outline
- `Program.outline` — a program as an outline
-/

namespace Kestrel

/-- Digits stand at their places from `1e-4` up to below `1e16`; whole numbers end in `.0`. -/
def Outline.numbers : Number.Style := ⟨.up, some (-4, 16), true, false⟩

/-- Entries between brackets, each on a line of its own and with a comma after it. -/
def Outline.bracketed (opening closing : String) (indent : Nat) : List String → String
  | [] => opening ++ closing
  | entries =>
    opening ++ String.join (entries.map fun entry => newLine (indent + 4) ++ entry ++ ",")
      ++ newLine indent ++ closing

mutual

/-- A tree as an outline, on a line that is indented by `indent` blanks. -/
def Tree.outline (indent : Nat) : Tree → String
  | .word name => name
  | .text value => Text.quoted value
  | .number value => Outline.numbers.text value
  | .count value => toString value
  | .flag value => if value then "true" else "false"
  | .absent => "None"
  | .present value => Outline.bracketed "Some(" ")" indent [value.outline (indent + 4)]
  | .list items => Outline.bracketed "[" "]" indent (Tree.outlineItems (indent + 4) items)
  | .record name fields =>
    Outline.bracketed (name ++ " \x7b") "\x7d" indent (Tree.outlineFields (indent + 4) fields)
  | .variant name fields =>
    Outline.bracketed (name ++ " \x7b") "\x7d" indent (Tree.outlineFields (indent + 4) fields)

/-- The items of a list as outlines. -/
def Tree.outlineItems (indent : Nat) : List Tree → List String
  | [] => []
  | item :: rest => item.outline indent :: Tree.outlineItems indent rest

/-- The fields of a record as outlines. -/
def Tree.outlineFields (indent : Nat) : List (String × Tree) → List String
  | [] => []
  | (name, value) :: rest =>
    (name ++ ": " ++ value.outline indent) :: Tree.outlineFields indent rest

end

/-- A program as an outline. -/
def Program.outline (program : Program) : String :=
  program.tree.outline 0

end Kestrel
