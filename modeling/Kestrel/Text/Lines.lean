import Kestrel.Text.Slice

/-!
# The lines of a text

A `LineIndex` knows at which byte each line of a text starts, and so finds the line and column of
a byte offset.

## Main definitions

- `LineIndex.ofString` — the index of a text
- `LineIndex.position` — line and column of a byte offset
- `LineIndex.range?` — the bytes of a line, without its newline
-/

namespace Kestrel

/-- The byte offsets at which the lines of a text start, in order. The first one is zero. -/
structure LineIndex where
  starts : Array Nat
  deriving Repr

namespace LineIndex

/-- Adds the starts of the lines that begin after a newline in `cs`, which stands at `offset`. -/
def collect (starts : Array Nat) (offset : Nat) : List Char → Array Nat
  | [] => starts
  | c :: cs =>
    let next := offset + c.utf8Size
    collect (if c = '\n' then starts.push next else starts) next cs

def ofString (source : String) : LineIndex :=
  ⟨collect #[0] 0 source.toList⟩

/-- The number of lines: one more than there are newlines. -/
def lineCount (index : LineIndex) : Nat :=
  index.starts.size

/-- The last line that starts at or before a byte offset, counted from zero. -/
def lineOf (index : LineIndex) (offset : Nat) : Nat :=
  index.starts.countP (· ≤ offset) - 1

/-- Line and column of a byte offset, both counted from one, the column in characters. An offset
past the end counts as the end, one inside a character as the start of its line. -/
def position (index : LineIndex) (source : String) (offset : Nat) : Nat × Nat :=
  let line := index.lineOf offset
  let start := index.starts[line]?.getD 0
  let before := Text.slice source.toList start (min offset source.utf8ByteSize)
  (line + 1, before.length + 1)

/-- The bytes of a line, counted from one, without its newline, in a text of `size` bytes. -/
def range? (index : LineIndex) (line size : Nat) : Option (Nat × Nat) :=
  match line with
  | 0 => none
  | previous + 1 =>
    index.starts[previous]?.map fun start =>
      (start, match index.starts[line]? with
        | some next => next - 1
        | none => size)

end LineIndex

end Kestrel
