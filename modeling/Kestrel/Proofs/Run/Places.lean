import Kestrel.Proofs.Bytecode.Objections
import Kestrel.Proofs.Program.Boundaries
import Kestrel.Proofs.Program.Statements
import Kestrel.Proofs.Text.Positions
import Kestrel.Proofs.Run.Outcome

/-!
# Where failures are

A source that is turned down is turned down at a place. The span of the failure comes from the spans
of tokens, so it starts and stops at characters, and there spans and line indices agree: the failure
in one line and the report on it name the same line and column.

## Main definitions

- `StageFailure.PointsAt` — all that is told about a failure names one place

## Main statements

- `Stages.onBoundaries_of_code?` — a text is turned down at a span that does
- `Stages.exists_pointsAt_of_error` — it is turned down at one place
-/

namespace Kestrel

open Text

/-! ### Failures -/

/-- The span of an error in a program is a span of the program. -/
theorem Program.span_of_compile {good : Span → Prop} {program : Program}
    (h : Stmt.AllSpansIn good program) {e : CompileError} (he : program.compile = .error e) :
    good e.span := by
  rcases program.compile_cases with ⟨scope, -, hcode, -⟩ | ⟨e', he', hfirst⟩
  · rw [he] at hcode
    cases hcode
  · rw [he] at he'
    cases he'
    obtain ⟨before, site, after, hwalk, hobjection, -⟩ := hfirst
    rw [hobjection.span_eq]
    have hmem : site ∈ program.walk := by
      rw [hwalk]
      exact List.mem_append_right _ List.mem_cons_self
    exact h.of_mem_walkAll hmem

/-- A source that is turned down is turned down for a span of it. -/
theorem Stages.onBoundaries_of_code? {interpret : Code → Id Ending} {source : String}
    {failure : StageFailure} (h : (Stages.standard interpret).code? source = .error failure) :
    ∃ span, failure.span? = some span ∧ span.OnBoundaries source := by
  have hspans := Program.spans_of_ofTokens (Span.OnBoundaries.merge source)
    (onBoundaries_of_mem_tokenize source) (onBoundaries_endSpan source)
  rw [Stages.standard_code?] at h
  change Code.ofSource source = .error failure at h
  unfold Code.ofSource Program.ofSource at h
  cases hparse : Program.ofTokens (tokenize source) with
  | error e =>
    rw [hparse] at h hspans
    cases h
    exact ⟨e.span, rfl, hspans⟩
  | ok program =>
    rw [hparse] at h hspans
    cases hcompile : program.compile with
    | error e =>
      simp only [hcompile, mapError_ok, mapError_error] at h
      cases h
      exact ⟨e.span, rfl, Program.span_of_compile hspans hcompile⟩
    | ok code =>
      simp only [hcompile, mapError_ok] at h
      cases h

/-- All that is told about a failure names one place of the source: the start of its span, which is
one of whole characters. -/
structure StageFailure.PointsAt (failure : StageFailure) (source : String) (span : Span)
    (line column : Nat) : Prop where
  span?_eq : failure.span? = some span
  onBoundaries : span.OnBoundaries source
  isPlace : IsPlace source span.start line column
  location_eq : span.location source = ⟨line, column, span.start⟩
  position_eq : (LineIndex.ofString source).position source span.start = (line, column)
  locate_eq : failure.locate source =
    failure.describe ++ " (line " ++ toString line ++ ", column " ++ toString column ++ ")"
  render_eq : ∀ file, ∃ rest, (failure.report file).render source =
    "error[" ++ (failure.report file).kind.text ++ "]: " ++ (failure.report file).message ++ "\n" ++
      "  --> " ++ file ++ ":" ++ toString line ++ ":" ++ toString column ++ "\n" ++ rest

theorem StageFailure.span?_report (failure : StageFailure) (file : String) :
    (failure.report file).span? = failure.span? := by
  cases failure <;> rfl

theorem StageFailure.file_report (failure : StageFailure) (file : String) :
    (failure.report file).file = file := by
  cases failure <;> rfl

/-- At the start of a span of whole characters, all computations of line and column agree. -/
theorem StageFailure.exists_pointsAt {failure : StageFailure} {source : String} {span : Span}
    (hspan : failure.span? = some span) (h : span.OnBoundaries source) :
    ∃ line column, failure.PointsAt source span line column := by
  obtain ⟨line, column, hplace⟩ := exists_isPlace h.start_valid
  refine ⟨line, column, hspan, h, hplace, hplace.location_eq, hplace.position_eq, ?_, ?_⟩
  · simp only [StageFailure.locate, hspan, hplace.location_eq]
  · intro file
    simp only [Report.render, Report.place, failure.span?_report file, failure.file_report file,
      hspan, hplace.position_eq]
    refine ⟨
      ((Snippet.ofSpan? (LineIndex.ofString source) source span).map Snippet.render).getD "" ++
      String.join ((failure.report file).notes.map fun note => "  = note: " ++ note ++ "\n"), ?_⟩
    simp only [String.append_assoc]

/-- A source that is turned down is turned down at one place. -/
theorem Stages.exists_pointsAt_of_error {interpret : Code → Id Ending} {source : String}
    {failure : StageFailure} (h : (Stages.standard interpret).code? source = .error failure) :
    ∃ span line column, failure.PointsAt source span line column := by
  obtain ⟨span, hspan, hboundaries⟩ := Stages.onBoundaries_of_code? h
  obtain ⟨line, column, hpoints⟩ := StageFailure.exists_pointsAt hspan hboundaries
  exact ⟨span, line, column, hpoints⟩

/-! ### A character without use -/

theorem run_statement_unknown (n : Nat) (char : Char) (span : Span) (rest : List Token) :
    (statement (deeper (n + 1))).run (⟨.unknown char, span⟩ :: rest) =
      .error ⟨.expected .expression, ⟨.unknown char, span⟩ :: rest⟩ := rfl

/-- No program starts with a character that the language has no use for. -/
theorem Program.ofTokens_unknown {ts rest : List Token} {char : Char} {span : Span}
    (h : ts.dropWhile (·.lexeme.isSeparator) = ⟨.unknown char, span⟩ :: rest) :
    Program.ofTokens ts = .error (.unexpectedCharacter char span) := by
  have hread : statementsFrom (statement (deeper maxDepth)) [] (⟨.unknown char, span⟩ :: rest) =
      .error ⟨.expected .expression, ⟨.unknown char, span⟩ :: rest⟩ :=
    statementsFrom_of_error (run_statement_unknown 63 char span rest)
  simp only [Program.ofTokens, h, hread]
  rfl

theorem code?_accented (interpret : Code → Id Ending) :
    (Stages.standard interpret).code? "// é\n  é" =
      .error (.parse ⟨"unexpected character '" ++ Text.visible 'é' ++ "'", some ⟨8, 10⟩⟩) := by
  have htokens : tokenize "// é\n  é" = [⟨.newline, ⟨5, 6⟩⟩, ⟨.unknown 'é', ⟨8, 10⟩⟩] := by
    decide +kernel
  have hparse : Program.ofTokens [⟨.newline, ⟨5, 6⟩⟩, ⟨.unknown 'é', ⟨8, 10⟩⟩] =
      .error (.unexpectedCharacter 'é' ⟨8, 10⟩) := Program.ofTokens_unknown rfl
  rw [Stages.standard_code?, Code.ofSource, Program.ofSource, htokens, hparse]
  rfl

/-- Behind a line with a character of two bytes, another one is turned down in the third column of
the second line. -/
theorem pointsAt_accented : ∃ failure : StageFailure,
    (Stages.standard fun code => (interpret Writer.keeping defaultStepLimit code []).1.ending :
      Stages Id).code? "// é\n  é" = .error failure ∧
    failure.PointsAt "// é\n  é" ⟨8, 10⟩ 2 3 := by
  have hcode := code?_accented fun code =>
    (interpret Writer.keeping defaultStepLimit code []).1.ending
  obtain ⟨span, line, column, hpoints⟩ := Stages.exists_pointsAt_of_error hcode
  obtain rfl : ⟨8, 10⟩ = span := Option.some.inj hpoints.span?_eq
  have hlocation : Span.location ⟨8, 10⟩ "// é\n  é" = ⟨2, 3, 8⟩ := by decide +kernel
  obtain ⟨rfl, rfl, -⟩ := Location.mk.inj (hlocation.symm.trans hpoints.location_eq)
  exact ⟨_, hcode, hpoints⟩

end Kestrel
