import Kestrel.Text.Slice

/-!
# Spans of source text

A `Span` is a range of bytes of a source text. Its numbers are not tied to any text: they may lie
past the end, inside a character or in the wrong order, and every operation says what it makes of
that.

## Main definitions

- `Span` — a range of bytes, with `merge` for the smallest range around two
- `Span.text` — the source text under a span
- `Location`, `Span.location` — line and column of a span's start
-/

namespace Kestrel

/-- The bytes from `start` up to `stop`. -/
structure Span where
  start : Nat
  stop : Nat
  deriving DecidableEq, Repr, Inhabited

/-- A position in a source text. Lines and columns count from one, columns in characters. -/
structure Location where
  line : Nat
  column : Nat
  offset : Nat
  deriving DecidableEq, Repr

namespace Span

/-- The smallest span that covers both. -/
def merge (a b : Span) : Span :=
  ⟨min a.start b.start, max a.stop b.stop⟩

def describe (s : Span) : String :=
  s!"{s.start}..{s.stop}"

/-- The source text under a span, cut off at the end of the source; nothing if the span starts or
stops inside a character. -/
def text (s : Span) (source : String) : String :=
  let stop := min s.stop source.utf8ByteSize
  String.ofList (Text.slice source.toList (min s.start stop) stop)

/-- Where a span starts. A start past the end counts as the end, one inside a character as the
beginning of the text. -/
def location (s : Span) (source : String) : Location :=
  let before := Text.slice source.toList 0 (min s.start source.utf8ByteSize)
  { line := before.count '\n' + 1
    column := (before.reverse.takeWhile (· != '\n')).length + 1
    offset := s.start }

end Span

/-- The spans that arise when the spans of a list are merged one after the other. -/
def Span.mergeSteps (first : Span) : List Span → List Span
  | [] => [first]
  | s :: rest => first :: mergeSteps (first.merge s) rest

end Kestrel
