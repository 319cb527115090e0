import Kestrel.Report
import Kestrel.Proofs.Program.Boundaries
import Kestrel.Proofs.Text.Coordinates

/-!
# What reports show

A report on a span shows the line on which the span starts, and under it a mark for the part of the
line that the span covers. All numbers are clamped on the way, so that a report can be made for any
span at all: no subtraction falls below zero, and the line is always there.

## Main definitions

- `Report.tryRender` — a report, unless a subtraction or an access fails on the way
- `Excerpt`, `Excerpt.IsAt` — a line of a source, cut where a span starts and stops on it
- `Drawing`, `Drawing.Shows` — a line with its mark, as text

## Main statements

- `Report.tryRender_eq` — reports never fail
- `Excerpt.exists_isAt` — a span of whole characters starts on a line
- `Report.shows_excerpt` — a report never fails, and shows the line and marks what the span covers

## Design notes

The two slices that are only counted may be missing, and then nothing is counted: that is so where
a span starts or stops inside a character or past the end. The slice of the line is never missing.
-/

namespace Kestrel

open Text

/-! ### Reports that may fail -/

/-- A subtraction that fails below zero. -/
def minus? (a b : Nat) : Option Nat :=
  if b ≤ a then some (a - b) else none

theorem minus?_of_le {a b : Nat} (h : b ≤ a) : minus? a b = some (a - b) :=
  if_pos h

namespace LineIndex

/-- Line and column of a byte offset, unless a subtraction or an access fails. -/
def tryPosition (index : LineIndex) (source : String) (offset : Nat) : Option (Nat × Nat) := do
  let line ← minus? (index.starts.countP (· ≤ offset)) 1
  let start ← index.starts[line]?
  let before := slice source.toList start (min offset source.utf8ByteSize)
  return (line + 1, before.length + 1)

/-- The bytes of a line, unless there is no such line or a subtraction fails. -/
def tryRange (index : LineIndex) (line size : Nat) : Option (Nat × Nat) := do
  let previous ← minus? line 1
  let start ← index.starts[previous]?
  let stop ← match index.starts[line]? with
    | some next => minus? next 1
    | none => some size
  return (start, stop)

end LineIndex

/-- The line on which a span starts, unless a subtraction or an access fails or the line is not
there. -/
def Snippet.tryOfSpan (index : LineIndex) (source : String) (span : Span) : Option Snippet := do
  let (line, column) ← index.tryPosition source span.start
  let (start, stop) ← index.tryRange line source.utf8ByteSize
  let text ← slice? source.toList start stop
  let indent ← minus? column 1
  return {
    line
    text := trimEnd text
    indent
    marked := max 1 (underlined source.toList span stop).length }

/-- A snippet as text, unless a subtraction fails. -/
def Snippet.tryRender (snippet : Snippet) : Option String := do
  let number := toString snippet.line
  let gutter := String.ofList (List.replicate number.length ' ')
  let blanks := String.ofList (List.replicate snippet.indent ' ')
  let waves := String.ofList (List.replicate (← minus? snippet.marked 1) '~')
  return gutter ++ " |\n"
    ++ number ++ " | " ++ String.ofList snippet.text ++ "\n"
    ++ gutter ++ " | " ++ blanks ++ "^" ++ waves ++ "\n"

namespace Report

/-- The place of a report, unless a subtraction or an access fails or a line is not there. -/
def tryPlace (report : Report) (source : String) : Option String :=
  match report.span? with
  | none => some ("  --> " ++ report.file ++ "\n")
  | some span => do
    let index := LineIndex.ofString source
    let (line, column) ← index.tryPosition source span.start
    let snippet ← Snippet.tryOfSpan index source span
    return "  --> " ++ report.file ++ ":" ++ toString line ++ ":" ++ toString column ++ "\n"
      ++ (← snippet.tryRender)

/-- The report on a source text, unless its place cannot be shown. -/
def tryRender (report : Report) (source : String) : Option String := do
  return "error[" ++ report.kind.text ++ "]: " ++ report.message ++ "\n"
    ++ (← report.tryPlace source)
    ++ String.join (report.notes.map fun note => "  = note: " ++ note ++ "\n")

end Report

section Totality

variable (source : String) (offset : Nat)

namespace LineIndex

/-- The first line starts at or before every offset. -/
theorem countP_starts_pos : 0 < (ofString source).starts.countP (· ≤ offset) := by
  rw [← Array.countP_toList, toList_starts, List.countP_cons_of_pos (by simp)]
  exact Nat.succ_pos _

theorem lineOf_lt_size : (ofString source).lineOf offset < (ofString source).starts.size := by
  have hpos := countP_starts_pos source offset
  have hle : (ofString source).starts.countP (· ≤ offset) ≤ (ofString source).starts.size :=
    Array.countP_le_size
  rw [lineOf]
  omega

theorem size_starts : (ofString source).starts.size = source.toList.count '\n' + 1 := by
  rw [← Array.length_toList, toList_starts, List.length_cons, length_startsFrom]

/-- The line of every offset is a line of the source. -/
theorem exists_isLine_of_lineOf : ∃ front line behind,
    IsLine source.toList ((ofString source).lineOf offset + 1) front line behind := by
  have hlt := lineOf_lt_size source offset
  rw [size_starts] at hlt
  exact exists_isLine (Nat.le_of_lt_succ hlt)

theorem tryPosition_eq :
    (ofString source).tryPosition source offset =
      some ((ofString source).position source offset) := by
  have hsub := minus?_of_le (countP_starts_pos source offset)
  obtain ⟨start, hstart⟩ : ∃ start,
      (ofString source).starts[(ofString source).lineOf offset]? = some start :=
    ⟨_, Array.getElem?_eq_getElem (lineOf_lt_size source offset)⟩
  rw [lineOf] at hstart
  simp only [tryPosition, position, lineOf, hsub, hstart, Option.bind_eq_bind, Option.bind_some,
    Option.getD_some]
  rfl

/-- No line but the first starts at zero. -/
theorem pos_of_getElem?_starts {i start : Nat}
    (h : (ofString source).starts[i + 1]? = some start) : 0 < start := by
  rw [← Array.getElem?_toList, toList_starts, List.getElem?_cons_succ] at h
  exact (lt_of_mem_startsFrom (List.mem_of_getElem? h)).1

theorem tryRange_eq (i size : Nat) :
    (ofString source).tryRange (i + 1) size = (ofString source).range? (i + 1) size := by
  have hsub : minus? (i + 1) 1 = some i := minus?_of_le (Nat.le_add_left 1 i)
  simp only [tryRange, range?, hsub, Option.bind_eq_bind, Option.bind_some]
  cases (ofString source).starts[i]? with
  | none => rfl
  | some start =>
    cases hnext : (ofString source).starts[i + 1]? with
    | none => rfl
    | some next =>
      simp only [minus?_of_le (pos_of_getElem?_starts source hnext)]
      rfl

end LineIndex

namespace Snippet

/-- Every span has a snippet. -/
theorem tryOfSpan_eq (span : Span) :
    tryOfSpan (.ofString source) source span = ofSpan? (.ofString source) source span := by
  obtain ⟨front, line, behind, hline⟩ :=
    LineIndex.exists_isLine_of_lineOf source span.start
  have hrange := LineIndex.range?_of_isLine hline
  have hslice := slice?_of_eq hline.cut
  have hindent (n : Nat) : minus? (n + 1) 1 = some (n + 1 - 1) :=
    minus?_of_le (Nat.le_add_left 1 n)
  simp only [tryOfSpan, ofSpan?, LineIndex.tryPosition_eq, LineIndex.position,
    LineIndex.tryRange_eq, hrange, hslice, hindent, slice, Option.bind_eq_bind, Option.bind_some,
    Option.map_some, Option.getD_some]
  rfl

theorem exists_ofSpan? (span : Span) :
    ∃ snippet, ofSpan? (.ofString source) source span = some snippet ∧ 1 ≤ snippet.marked := by
  obtain ⟨front, line, behind, hline⟩ :=
    LineIndex.exists_isLine_of_lineOf source span.start
  have hrange := LineIndex.range?_of_isLine hline
  have hsnippet : ofSpan? (.ofString source) source span = _ := congrArg (Option.map _) hrange
  exact ⟨_, hsnippet, Nat.le_max_left 1 _⟩

end Snippet
end Totality

theorem Snippet.tryRender_eq {snippet : Snippet} (h : 1 ≤ snippet.marked) :
    snippet.tryRender = some snippet.render := by
  simp only [tryRender, minus?_of_le h, Option.bind_eq_bind, Option.bind_some]
  rfl

namespace Report

variable (report : Report) (source : String)

theorem tryPlace_eq : report.tryPlace source = some (report.place source) := by
  unfold tryPlace place
  cases report.span? with
  | none => rfl
  | some span =>
    obtain ⟨snippet, hsnippet, hmarked⟩ := Snippet.exists_ofSpan? source span
    simp only [LineIndex.tryPosition_eq, Snippet.tryOfSpan_eq, hsnippet,
      Snippet.tryRender_eq hmarked, Option.bind_eq_bind, Option.bind_some, Option.map_some,
      Option.getD_some]
    rfl

/-- Reports never fail. -/
theorem tryRender_eq : report.tryRender source = some (report.render source) := by
  rw [tryRender, tryPlace_eq]
  rfl

end Report

/-! ### The line of a span -/

/-- A line of a source, cut where a span starts and stops on it. -/
structure Excerpt where
  number : Nat
  before : List Char
  /-- What the span covers of the line. -/
  marked : List Char
  after : List Char

def Excerpt.line (excerpt : Excerpt) : List Char :=
  excerpt.before ++ (excerpt.marked ++ excerpt.after)

/-- A span starts on the line of an excerpt, behind what is in front of the mark, and covers what is
marked: its characters up to the first newline. -/
structure Excerpt.IsAt (excerpt : Excerpt) (source : String) (span : Span) : Prop where
  exists_isLine : ∃ front behind, IsLine source.toList excerpt.number front excerpt.line behind ∧
    span.start = byteLength (front ++ excerpt.before)
  exists_covered : ∃ covered, slice? source.toList span.start span.stop = some covered ∧
    excerpt.marked = covered.takeWhile (· != '\n')

/-- The source text under a span of whole characters. -/
theorem Span.OnBoundaries.exists_slice? {source : String} {span : Span}
    (h : span.OnBoundaries source) :
    ∃ covered, slice? source.toList span.start span.stop = some covered := by
  obtain ⟨_, _, front, rest, behind, hsource, hstart, -⟩ := exists_isPlace h.start_valid
  obtain ⟨_, _, front', rest', behind', hsource', hstop, -⟩ := exists_isPlace h.stop_valid
  have hle := h.start_le_stop
  rw [← hstart, ← hstop] at hle ⊢
  rcases List.append_eq_append_iff.1 (hsource.symm.trans hsource') with
    ⟨covered, hcovered, rfl⟩ | ⟨back, hback, rfl⟩
  · rw [hcovered, byteLength_append _ covered]
    exact ⟨covered, slice?_of_eq hsource⟩
  · -- the stop is in front of the start only if nothing lies between them
    have hnil : back = [] := by
      by_contra hne
      have hpos := byteLength_pos hne
      rw [hback, byteLength_append] at hle
      omega
    have hempty : source.toList = (front' ++ rest') ++ ([] ++ (back ++ behind)) := hsource'
    rw [hback, hnil, List.append_nil]
    exact ⟨[], slice?_of_eq hempty⟩

namespace Excerpt

/-- A span of whole characters starts on a line. -/
theorem exists_isAt {source : String} {span : Span} (h : span.OnBoundaries source) :
    ∃ excerpt : Excerpt, excerpt.IsAt source span := by
  obtain ⟨_, _, front, before, rest, hsource, hstart, hfront, hbefore, -, -⟩ :=
    exists_isPlace h.start_valid
  obtain ⟨covered, hcovered⟩ := h.exists_slice?
  have hslice := hcovered
  rw [← hstart, slice?_behind_iff hsource] at hslice
  obtain ⟨post, rfl, hstop⟩ := hslice
  obtain ⟨marked, tail, rfl, hmarked, htail⟩ := exists_atLineEnd covered
  have htake := htail.takeWhile_append hmarked
  -- the line goes on behind the span, unless it ends within the span
  obtain ⟨after, behind, hrest, hafter, hbehind⟩ : ∃ after behind, tail ++ post = after ++ behind ∧
      '\n' ∉ after ∧ AtLineEnd behind := by
    rcases htail with rfl | ⟨more, rfl⟩
    · exact exists_atLineEnd post
    · exact ⟨[], '\n' :: more ++ post, rfl, List.not_mem_nil, .inr ⟨more ++ post, rfl⟩⟩
  refine ⟨⟨front.count '\n' + 1, before, marked, after⟩, ⟨front, behind, ?_, hstart.symm⟩,
    ⟨marked ++ tail, hcovered, htake.symm⟩⟩
  refine ⟨?_, hfront, ?_, hbehind, rfl⟩
  · rw [hsource, line, List.append_assoc marked tail post, hrest]
    simp only [List.append_assoc]
  · simp only [line, List.mem_append, not_or]
    exact ⟨hbefore, hmarked, hafter⟩

variable {excerpt : Excerpt} {source : String} {span : Span}

theorem IsAt.position_eq (h : excerpt.IsAt source span) :
    (LineIndex.ofString source).position source span.start =
      (excerpt.number, excerpt.before.length + 1) := by
  obtain ⟨front, behind, hline, hstart⟩ := h.exists_isLine
  have hbefore : '\n' ∉ excerpt.before := fun hmem =>
    hline.newline_notMem (List.mem_append_left _ hmem)
  apply IsPlace.position_eq
  refine ⟨front, excerpt.before, (excerpt.marked ++ excerpt.after) ++ behind, ?_, hstart.symm,
    hline.front_endsLines, hbefore, ?_, rfl⟩
  · rw [hline.cut, Excerpt.line]
    simp only [List.append_assoc]
  · rw [count_newline hbefore, hline.number_eq]

/-- The clamped slice under the mark is what is marked. -/
theorem IsAt.underlined_eq {front behind : List Char} (h : excerpt.IsAt source span)
    (hline : IsLine source.toList excerpt.number front excerpt.line behind)
    (hstart : span.start = byteLength (front ++ excerpt.before)) :
    Snippet.underlined source.toList span (byteLength front + byteLength excerpt.line) =
      excerpt.marked := by
  obtain ⟨covered, hcovered, hmarked⟩ := h.exists_covered
  have hcut : source.toList =
      (front ++ excerpt.before) ++ (excerpt.marked ++ (excerpt.after ++ behind)) := by
    rw [hline.cut, Excerpt.line]
    simp only [List.append_assoc]
  have hstop : byteLength front + byteLength excerpt.line =
      span.start + byteLength excerpt.marked + byteLength excerpt.after := by
    simp only [hstart, Excerpt.line, byteLength_append]
    omega
  rw [hstart, slice?_behind_iff hcut, ← hstart] at hcovered
  obtain ⟨post, hbehind, hspan⟩ := hcovered
  obtain ⟨marked, tail, rfl, hnewline, htail⟩ := exists_atLineEnd covered
  rw [htail.takeWhile_append hnewline] at hmarked
  subst hmarked
  rw [List.append_assoc, List.append_cancel_left_eq] at hbehind
  -- where the span goes on behind the mark, the line does not
  have hclamp : max (min span.stop (byteLength front + byteLength excerpt.line)) span.start =
      span.start + byteLength excerpt.marked := by
    rw [byteLength_append] at hspan
    rcases htail with rfl | ⟨more, rfl⟩
    · rw [byteLength_nil] at hspan
      omega
    · have hafter : excerpt.after = [] := by
        cases hafter : excerpt.after with
        | nil => rfl
        | cons c cs =>
          rw [hafter, List.cons_append, List.cons_append] at hbehind
          have hmem : '\n' ∈ excerpt.line := by
            simp [Excerpt.line, hafter, (List.cons.inj hbehind).1]
          exact absurd hmem hline.newline_notMem
      rw [hafter, byteLength_nil] at hstop
      omega
  have hmin : min span.start (byteLength front + byteLength excerpt.line) = span.start := by
    omega
  rw [Snippet.underlined, hclamp, hmin, hstart]
  exact slice_of_eq hcut

end Excerpt

/-! ### Lines with a mark -/

/-- A line with a mark under it, as text. -/
structure Drawing where
  gutter : List Char
  quoted : List Char
  blanks : List Char
  waves : List Char

/-- The drawing of a line with a number. -/
def Drawing.text (drawing : Drawing) (number : Nat) : String :=
  String.ofList drawing.gutter ++ " |\n"
    ++ toString number ++ " | " ++ String.ofList drawing.quoted ++ "\n"
    ++ String.ofList drawing.gutter ++ " | " ++ String.ofList drawing.blanks ++ "^"
    ++ String.ofList drawing.waves ++ "\n"

/-- A drawing shows the line of an excerpt, and its mark is under what is marked. -/
structure Drawing.Shows (drawing : Drawing) (excerpt : Excerpt) : Prop where
  /-- The gutters are blank and as wide as the number. -/
  gutter_eq : drawing.gutter = List.replicate (toString excerpt.number).length ' '
  /-- Of the line, only carriage returns at its end are left out. -/
  exists_returns : ∃ n, excerpt.line = drawing.quoted ++ List.replicate n '\r'
  getLast?_quoted : drawing.quoted.getLast? ≠ some '\r'
  /-- In front of the mark, there is a blank for each character. -/
  blanks_eq : drawing.blanks = List.replicate excerpt.before.length ' '
  /-- The mark takes as much space as what is marked, but at least the caret. -/
  length_mark : ('^' :: drawing.waves).length = max 1 excerpt.marked.length
  waves_eq : ∀ c ∈ drawing.waves, c = '~'
  /-- The mark ends one place behind the line at the latest. -/
  length_le : drawing.blanks.length + ('^' :: drawing.waves).length ≤ excerpt.line.length + 1

theorem Snippet.exists_returns (line : List Char) :
    ∃ n, line = trimEnd line ++ List.replicate n '\r' := by
  have hall : ∀ c ∈ line.reverse.takeWhile (· == '\r'), c = '\r' := by
    intro c hc
    simpa using List.all_eq_true.1 List.all_takeWhile c hc
  refine ⟨(line.reverse.takeWhile (· == '\r')).length, ?_⟩
  rw [trimEnd, ← List.reverse_inj, List.reverse_append, List.reverse_replicate,
    ← List.eq_replicate_of_mem hall, List.reverse_reverse, List.takeWhile_append_dropWhile]

theorem Snippet.getLast?_trimEnd (line : List Char) : (trimEnd line).getLast? ≠ some '\r' := by
  intro h
  rw [trimEnd, List.getLast?_reverse] at h
  have hnot := List.head?_dropWhile_not (· == '\r') line.reverse
  rw [h] at hnot
  simp at hnot

/-- The snippet of a span draws its line. -/
theorem Snippet.exists_drawing {excerpt : Excerpt} {source : String} {span : Span}
    (h : excerpt.IsAt source span) : ∃ drawing : Drawing, drawing.Shows excerpt ∧
      ((ofSpan? (.ofString source) source span).map render).getD "" =
        drawing.text excerpt.number := by
  obtain ⟨front, behind, hline, hstart⟩ := h.exists_isLine
  have hrange := LineIndex.range?_of_isLine hline
  have hunder := h.underlined_eq hline hstart
  have htext := slice_of_eq hline.cut
  refine ⟨⟨List.replicate (toString excerpt.number).length ' ', trimEnd excerpt.line,
    List.replicate excerpt.before.length ' ',
    List.replicate (max 1 excerpt.marked.length - 1) '~'⟩, ?_, ?_⟩
  · refine ⟨rfl, exists_returns _, getLast?_trimEnd _, rfl, ?_, ?_, ?_⟩
    · simp only [List.length_cons, List.length_replicate]
      omega
    · exact fun c hc => List.eq_of_mem_replicate hc
    · simp only [List.length_cons, List.length_replicate, Excerpt.line, List.length_append]
      omega
  · simp only [ofSpan?, h.position_eq, hrange, hunder, htext, Option.map_some, Option.getD_some]
    rfl

/-- A report never fails, whatever its span. If the span is one of whole characters, the report
names the line on which it starts and the column behind the characters in front of it, and draws the
line with a mark under what the span covers of it. -/
theorem Report.shows_excerpt (report : Report) (source : String) :
    report.tryRender source = some (report.render source) ∧
    ∀ span, report.span? = some span → span.OnBoundaries source →
      ∃ (excerpt : Excerpt) (drawing : Drawing), excerpt.IsAt source span ∧
        drawing.Shows excerpt ∧
        report.render source =
          "error[" ++ report.kind.text ++ "]: " ++ report.message ++ "\n" ++
          ("  --> " ++ report.file ++ ":" ++ toString excerpt.number ++ ":" ++
            toString (excerpt.before.length + 1) ++ "\n" ++ drawing.text excerpt.number) ++
          String.join (report.notes.map fun note => "  = note: " ++ note ++ "\n") := by
  refine ⟨report.tryRender_eq source, ?_⟩
  intro span hspan h
  obtain ⟨excerpt, hat⟩ := Excerpt.exists_isAt h
  obtain ⟨drawing, hshows, hdrawing⟩ := Snippet.exists_drawing hat
  refine ⟨excerpt, drawing, hat, hshows, ?_⟩
  simp only [render, place, hspan, hat.position_eq, hdrawing]

/-- A span that goes on to the next line: the mark ends with the carriage return, which is not
quoted. -/
theorem shows_excerpt_sum :
    Span.OnBoundaries "x = 1\r\nä + é\r\n" ⟨10, 16⟩ ∧
    ∃ (excerpt : Excerpt) (drawing : Drawing),
      excerpt.IsAt "x = 1\r\nä + é\r\n" ⟨10, 16⟩ ∧ drawing.Shows excerpt ∧
      excerpt.number = 2 ∧ excerpt.before.length = 2 ∧ excerpt.marked = ['+', ' ', 'é', '\r'] := by
  have hstart : "x = 1\r\nä + é\r\n".toList =
      ['x', ' ', '=', ' ', '1', '\r', '\n', 'ä', ' '] ++ ['+', ' ', 'é', '\r', '\n'] := by
    decide
  have hstop : "x = 1\r\nä + é\r\n".toList = "x = 1\r\nä + é\r\n".toList ++ [] := by
    decide
  have h : Span.OnBoundaries "x = 1\r\nä + é\r\n" ⟨10, 16⟩ :=
    ⟨by decide, by decide, isValid_of_append hstart, isValid_of_append hstop⟩
  obtain ⟨excerpt, drawing, hat, hshows, -⟩ :=
    (Report.shows_excerpt ⟨.form, "bad sum", some ⟨10, 16⟩, "x.kes", []⟩ _).2 ⟨10, 16⟩ rfl h
  have hposition : (LineIndex.ofString "x = 1\r\nä + é\r\n").position "x = 1\r\nä + é\r\n" 10 =
      (2, 3) := by
    decide +kernel
  obtain ⟨hnumber, hbefore⟩ := Prod.mk.inj (hat.position_eq.symm.trans hposition)
  obtain ⟨covered, hcovered, hmarked⟩ := hat.exists_covered
  have hslice : slice? "x = 1\r\nä + é\r\n".toList 10 16 = some ['+', ' ', 'é', '\r', '\n'] := by
    decide +kernel
  obtain rfl := Option.some.inj (hslice.symm.trans hcovered)
  exact ⟨h, excerpt, drawing, hat, hshows, hnumber, Nat.succ.inj hbefore, hmarked⟩

/-- A report on a span inside a character marks a single place, in the first column. -/
example : Report.render ⟨.form, "bad name", some ⟨1, 9⟩, "x.kes", ["at the start"]⟩ "ä\r" =
    "error[syntax]: bad name\n  --> x.kes:1:1\n  |\n1 | ä\n  | ^\n  = note: at the start\n" := by
  decide +kernel

end Kestrel
