import Kestrel.Machine

/-!
# Writing lines

## Main definitions

- `Writer.lines` — the state of a writer after some lines
- `Writer.FlushKeeps` — a flush does not change what was written
- `Writer.Accepts` — a writer never refuses a line or a flush
- `Writer.Records` — besides, all that was written can be seen as one text
- `Writer.Lists`, `Writer.FillsUp` — writers whose lines can be seen, without refusals and with
  room for some lines only
- `Writer.RefusesCleanly` — a writer writes nothing of a line that it refuses
- `Writer.inParts` — a writer of lines that come to it in parts

## Main statements

- `Writer.lines_append` — lines are written one after the other
- `Writer.records_keeping` — the writer that keeps all lines is one whose text can be seen
- `Writer.written_refused_inParts` — of a line in parts, those in front of the one that was refused
  are written
-/

namespace Kestrel.Writer

variable {σ : Type}

/-- Writes lines, one after the other, up to the first that is refused. -/
def lines (writer : Writer σ) : List String → σ → Except String σ
  | [], output => .ok output
  | text :: rest, output => (writer.line text output).bind (writer.lines rest)

/-- A flush that is not refused does not change what was written, as `written` shows it. -/
def FlushKeeps {α : Type} (writer : Writer σ) (written : σ → α) : Prop :=
  ∀ output output', writer.flush output = .ok output' → written output' = written output

theorem FlushKeeps.of_exists {α : Type} {writer : Writer σ} {written : σ → α}
    (h : ∀ output, ∃ output', writer.flush output = .ok output' ∧
      written output' = written output) : writer.FlushKeeps written := by
  intro output output' hflush
  obtain ⟨flushed, hok, hwritten⟩ := h output
  obtain rfl := Except.ok.inj (hok.symm.trans hflush)
  exact hwritten

/-- What is written at the end of a run was written by the run itself. -/
theorem FlushKeeps.written_interpret {α : Type} {writer : Writer σ} {written : σ → α}
    (hwriter : writer.FlushKeeps written) (limit : Nat) (code : Code) (output : σ) :
    written (interpret writer limit code output).2 =
      written (runFor writer code limit limit (.start output)).1.output := by
  simp only [interpret]
  split
  · next hflush => exact hwriter _ _ hflush
  · rfl

/-- Nothing is ever refused. -/
structure Accepts (writer : Writer σ) : Prop where
  line : ∀ text output, ∃ output', writer.line text output = .ok output'
  flush : ∀ output, ∃ output', writer.flush output = .ok output'

theorem Accepts.line_ne_error {writer : Writer σ} (hwriter : writer.Accepts) (text : String)
    (output : σ) (reason : String) : writer.line text output ≠ .error reason := by
  intro hrefused
  obtain ⟨output', hline⟩ := hwriter.line text output
  rw [hline] at hrefused
  cases hrefused

theorem Accepts.of_exists {writer : Writer σ} {R : String → σ → σ → Prop} {S : σ → σ → Prop}
    (hline : ∀ text output, ∃ output', writer.line text output = .ok output' ∧
      R text output output')
    (hflush : ∀ output, ∃ output', writer.flush output = .ok output' ∧ S output output') :
    writer.Accepts where
  line text output := by
    obtain ⟨output', hok, -⟩ := hline text output
    exact ⟨output', hok⟩
  flush output := by
    obtain ⟨output', hok, -⟩ := hflush output
    exact ⟨output', hok⟩

theorem accepts_keeping : Writer.keeping.Accepts :=
  ⟨fun text written => ⟨text :: written, rfl⟩, fun written => ⟨written, rfl⟩⟩

/-- Nothing is ever refused, and `written` is the text that was written so far: a line comes behind
it, and a flush leaves it as it is. -/
structure Records (writer : Writer σ) (written : σ → String) : Prop where
  line : ∀ text output, ∃ output', writer.line text output = .ok output' ∧
    written output' = written output ++ (text ++ "\n")
  flush : ∀ output, ∃ output', writer.flush output = .ok output' ∧ written output' = written output

theorem Records.accepts {writer : Writer σ} {written : σ → String}
    (hwriter : writer.Records written) : writer.Accepts :=
  .of_exists hwriter.line hwriter.flush

theorem Records.flushKeeps {writer : Writer σ} {written : σ → String}
    (hwriter : writer.Records written) : writer.FlushKeeps written :=
  .of_exists hwriter.flush

/-- The text of some lines, the last one in front. -/
def keptText (lines : List String) : String :=
  String.join (lines.reverse.map (· ++ "\n"))

theorem records_keeping : Writer.keeping.Records keptText where
  line text written := ⟨text :: written, rfl, by simp [keptText]⟩
  flush written := ⟨written, rfl, rfl⟩

/-- Nothing is ever refused, and `lines` are the lines that were written so far. -/
structure Lists (writer : Writer σ) (lines : σ → List String) : Prop where
  line : ∀ text output, ∃ output', writer.line text output = .ok output' ∧
    lines output' = lines output ++ [text]
  flush : ∀ output, ∃ output', writer.flush output = .ok output' ∧ lines output' = lines output

theorem Lists.accepts {writer : Writer σ} {lines : σ → List String}
    (hwriter : writer.Lists lines) : writer.Accepts :=
  .of_exists hwriter.line hwriter.flush

theorem Lists.flushKeeps {writer : Writer σ} {lines : σ → List String}
    (hwriter : writer.Lists lines) : writer.FlushKeeps lines :=
  .of_exists hwriter.flush

theorem lists_keeping : Writer.keeping.Lists List.reverse where
  line text written := ⟨text :: written, rfl, List.reverse_cons⟩
  flush written := ⟨written, rfl, rfl⟩

/-- As many lines are taken as there is room for. All others are refused, for the same reason when
they come again, and nothing of them is written. A flush may be refused at any time. -/
structure FillsUp (writer : Writer σ) (lines : σ → List String) (room : σ → Nat) : Prop where
  line : ∀ text output left, room output = left + 1 → ∃ output',
    writer.line text output = .ok output' ∧ lines output' = lines output ++ [text] ∧
      room output' = left
  refuses : ∀ text output, room output = 0 → ∃ reason, writer.line text output = .error reason ∧
    writer.line text (writer.refused text output) = .error reason ∧
      lines (writer.refused text output) = lines output
  flushKeeps : writer.FlushKeeps lines

/-- The writer that keeps so many lines, the last one in front, and refuses all others. -/
def keepingUpTo (capacity : Nat) : Writer (List String) where
  line text written := if written.length < capacity then .ok (text :: written) else .error "full"
  flush written := .ok written

theorem fillsUp_keepingUpTo (capacity : Nat) :
    (keepingUpTo capacity).FillsUp List.reverse (capacity - ·.length) where
  line text written left hroom := by
    have hlt : written.length < capacity := by omega
    refine ⟨text :: written, by simp [keepingUpTo, hlt], List.reverse_cons, ?_⟩
    simp only [List.length_cons]
    omega
  refuses text written hroom := by
    have hnot : ¬ written.length < capacity := by omega
    exact ⟨"full", by simp [keepingUpTo, hnot], by simp [keepingUpTo, hnot], rfl⟩
  flushKeeps written written' hflush := by
    cases hflush
    rfl

theorem lines_append (writer : Writer σ) (texts texts' : List String) (output : σ) :
    writer.lines (texts ++ texts') output =
      (writer.lines texts output).bind (writer.lines texts') := by
  induction texts generalizing output with
  | nil => rfl
  | cons text rest ih =>
    simp only [List.cons_append, lines]
    cases writer.line text output with
    | error reason => rfl
    | ok output' => exact ih output'

theorem lines_concat {writer : Writer σ} {texts : List String} {text : String}
    {output output₁ output₂ : σ} (h : writer.lines texts output = .ok output₁)
    (hline : writer.line text output₁ = .ok output₂) :
    writer.lines (texts ++ [text]) output = .ok output₂ := by
  rw [lines_append, h]
  simp only [lines, Except.bind, hline]

/-! ### Lines of which a part may be written -/

/-- Nothing is written of a line that is refused, as `written` shows it. -/
def RefusesCleanly {α : Type} (writer : Writer σ) (written : σ → α) : Prop :=
  ∀ text output reason, writer.line text output = .error reason →
    written (writer.refused text output) = written output

section Parts

variable (write : String → σ → Except String σ)

/-- Writes parts, one after the other, up to the first that is refused: the state that is left, and
the reason of the refusal. -/
def writeParts : List String → σ → σ × Option String
  | [], output => (output, none)
  | part :: rest, output =>
    match write part output with
    | .ok output' => writeParts rest output'
    | .error reason => (output, some reason)

/-- The writer that takes the parts of a line one after the other. A part that it refuses it does
not write, but then it has written those in front of it. -/
def inParts (parts : String → List String) (flush : σ → Except String σ) : Writer σ where
  line text output :=
    match writeParts write (parts text) output with
    | (output', none) => .ok output'
    | (_, some reason) => .error reason
  flush
  refused text output := (writeParts write (parts text) output).1

/-- The writer with room for so many characters, to which a line comes as its text and its end. -/
def keepingChars (capacity : Nat) : Writer String :=
  inParts (fun part written =>
      if (written ++ part).length ≤ capacity then .ok (written ++ part) else .error "full")
    (fun text => [text, "\n"]) .ok

variable {write} {written : σ → String}

/-- What is written of some parts and what is left of them make up all of them, and something is
left if and only if one was refused. -/
theorem writeParts_append (hwrite : ∀ part output output', write part output = .ok output' →
    written output' = written output ++ part) (parts : List String) (output : σ) :
    ∃ front rest, front ++ rest = parts ∧
      written (writeParts write parts output).1 = written output ++ String.join front ∧
      (rest = [] ↔ (writeParts write parts output).2 = none) := by
  induction parts generalizing output with
  | nil => exact ⟨[], [], rfl, by simp [writeParts], by simp [writeParts]⟩
  | cons part parts ih =>
    cases hpart : write part output with
    | error reason =>
      refine ⟨[], part :: parts, rfl, ?_, ?_⟩
      · simp [writeParts, hpart]
      · simp [writeParts, hpart]
    | ok output' =>
      obtain ⟨front, rest, happend, hwritten, hrest⟩ := ih output'
      refine ⟨part :: front, rest, by rw [List.cons_append, happend], ?_, ?_⟩
      · simp only [writeParts, hpart, hwritten, hwrite part output output' hpart]
        rw [String.join_cons, String.append_assoc]
      · simpa only [writeParts, hpart] using hrest

/-- Of a line that is refused, the parts in front of the one that was refused are written. -/
theorem written_refused_inParts (hwrite : ∀ part output output', write part output = .ok output' →
    written output' = written output ++ part) {parts : String → List String}
    {flush : σ → Except String σ} {text reason : String} {output : σ}
    (hline : (inParts write parts flush).line text output = .error reason) :
    ∃ front rest, front ++ rest = parts text ∧ rest ≠ [] ∧
      written ((inParts write parts flush).refused text output) =
        written output ++ String.join front := by
  obtain ⟨front, rest, happend, hwritten, hrest⟩ := writeParts_append hwrite (parts text) output
  refine ⟨front, rest, happend, ?_, hwritten⟩
  intro hnil
  simp only [inParts] at hline
  generalize writeParts write (parts text) output = result at hline hrest
  obtain ⟨output', refused?⟩ := result
  obtain rfl : refused? = none := hrest.1 hnil
  cases hline

/-- A writer that takes a line as one part refuses cleanly. -/
theorem refusesCleanly_inParts (hwrite : ∀ part output output', write part output = .ok output' →
    written output' = written output ++ part) {parts : String → List String}
    (hparts : ∀ text, (parts text).length ≤ 1) (flush : σ → Except String σ) :
    (inParts write parts flush).RefusesCleanly written := by
  intro text output reason hline
  obtain ⟨front, rest, happend, hrest, hwritten⟩ := written_refused_inParts hwrite hline
  have hlength := hparts text
  rw [← happend, List.length_append] at hlength
  have hpos := List.length_pos_iff.2 hrest
  obtain rfl : front = [] := List.eq_nil_of_length_eq_zero (by omega)
  rw [hwritten]
  exact String.append_empty

end Parts

end Kestrel.Writer
