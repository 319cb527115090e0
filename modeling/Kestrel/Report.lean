import Kestrel.Text.Lines
import Kestrel.Text.Span

/-!
# Reports

A report tells what went wrong. If the place is known, the report names it by line and column and
shows the line with a mark under the place.

## Main definitions

- `Report` — what a report says
- `Snippet` — a line of source text with a marked part
- `Report.render` — the report on a source text

## Design notes

A mark never reaches past its line, and it is never empty: a place without characters, such as the
end of a line, is marked by a caret alone.
-/

namespace Kestrel

/-- What a failure is about: the form of the text, the meaning of the program, or its run. -/
inductive Report.Kind where
  | form
  | meaning
  | run
  deriving DecidableEq, Repr

/-- How a report names its kind. -/
def Report.Kind.text : Report.Kind → String
  | .form => "syntax"
  | .meaning => "compile"
  | .run => "runtime"

/-- What is told about a failure. -/
structure Report where
  kind : Report.Kind
  message : String
  /-- The source text that the failure is about, if it is about a part of it. -/
  span? : Option Span
  /-- The name of the source. -/
  file : String
  notes : List String
  deriving DecidableEq, Repr

/-- A line of source text, part of which is marked. -/
structure Snippet where
  /-- The number of the line, counted from one. -/
  line : Nat
  text : List Char
  /-- How many characters stand before the mark. -/
  indent : Nat
  /-- How many characters the mark takes. -/
  marked : Nat
  deriving DecidableEq, Repr

namespace Snippet

/-- A line without the carriage returns at its end. -/
def trimEnd (line : List Char) : List Char :=
  (line.reverse.dropWhile (· == '\r')).reverse

/-- The characters of a span that lie on its first line, which ends at the byte offset `stop`. -/
def underlined (source : List Char) (span : Span) (stop : Nat) : List Char :=
  Text.slice source (min span.start stop) (max (min span.stop stop) span.start)

/-- The line on which a span starts, marked where the span covers it. -/
def ofSpan? (index : LineIndex) (source : String) (span : Span) : Option Snippet :=
  let (line, column) := index.position source span.start
  (index.range? line source.utf8ByteSize).map fun (start, stop) =>
    { line
      text := trimEnd (Text.slice source.toList start stop)
      indent := column - 1
      marked := max 1 (underlined source.toList span stop).length }

/-- The snippet as text. The number of the line stands in a gutter. -/
def render (snippet : Snippet) : String :=
  let number := toString snippet.line
  let gutter := String.ofList (List.replicate number.length ' ')
  let blanks := String.ofList (List.replicate snippet.indent ' ')
  let waves := String.ofList (List.replicate (snippet.marked - 1) '~')
  gutter ++ " |\n"
    ++ number ++ " | " ++ String.ofList snippet.text ++ "\n"
    ++ gutter ++ " | " ++ blanks ++ "^" ++ waves ++ "\n"

end Snippet

namespace Report

/-- The place of a report: the name of the source, with line, column and snippet where a part of
it is meant. -/
def place (report : Report) (source : String) : String :=
  match report.span? with
  | none => "  --> " ++ report.file ++ "\n"
  | some span =>
    let index := LineIndex.ofString source
    let (line, column) := index.position source span.start
    "  --> " ++ report.file ++ ":" ++ toString line ++ ":" ++ toString column ++ "\n"
      ++ ((Snippet.ofSpan? index source span).map Snippet.render).getD ""

/-- The report on a source text. -/
def render (report : Report) (source : String) : String :=
  "error[" ++ report.kind.text ++ "]: " ++ report.message ++ "\n"
    ++ report.place source
    ++ String.join (report.notes.map fun note => "  = note: " ++ note ++ "\n")

end Report

end Kestrel
