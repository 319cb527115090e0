import Kestrel.Proofs.Run.Watching

/-!
# Which stages a run calls

Whatever the stages are, a run calls them in order, hands each one what the one before gave, and
calls none behind the first that fails. Its trace has a section for each stage that was called, with
the items of the stage if it succeeded.

## Main definitions

- `CodeStaged`, `ProgramStaged`, `TokensStaged`, `SourceStaged` — the calls of a run and its result
- `StageCall.title`, `StageCall.items` — the section of a trace for a call
- `Trace.sectionsFrom`, `Trace.closing` — the sections of some calls, and the end of a trace

## Main statements

- `SourceStaged.titles_prefix` — the banners of a run are the first ones of five
- `execute_staged` — calls, result and trace of a run
-/

namespace Kestrel

/-! ### Calls and results -/

/-- The call of a run that starts from code, with its result. -/
inductive CodeStaged (code : Code) : List StageCall → Except StageFailure Store → Prop
  | breaksOff {ending : Ending} {breakdown : Breakdown}
      (h : ending.breakdown? = some breakdown) :
      CodeStaged code [.interpret code ending] (.error (.interpret breakdown))
  | ends {ending : Ending} (h : ending.breakdown? = none) :
      CodeStaged code [.interpret code ending] (.ok ending.store)

/-- The calls of a run that starts from a program, with its result. -/
inductive ProgramStaged (program : Program) : List StageCall → Except StageFailure Store → Prop
  | fails {rejection : Rejection} :
      ProgramStaged program [.compile program (.error rejection)] (.error (.compile rejection))
  | succeeds {code : Code} {calls : List StageCall} {result : Except StageFailure Store}
      (h : CodeStaged code calls result) :
      ProgramStaged program (.compile program (.ok code) :: calls) result

/-- The calls of a run that starts from tokens, with its result. -/
inductive TokensStaged (tokens : List Token) : List StageCall → Except StageFailure Store → Prop
  | fails {rejection : Rejection} :
      TokensStaged tokens [.parse tokens (.error rejection)] (.error (.parse rejection))
  | succeeds {program : Program} {calls : List StageCall} {result : Except StageFailure Store}
      (h : ProgramStaged program calls result) :
      TokensStaged tokens (.parse tokens (.ok program) :: calls) result

/-- The calls of a whole run, with its result. -/
inductive SourceStaged (source : String) : List StageCall → Except StageFailure Store → Prop
  | succeeds {tokens : List Token} {calls : List StageCall} {result : Except StageFailure Store}
      (h : TokensStaged tokens calls result) :
      SourceStaged source (.lex source tokens :: calls) result

/-! ### Traces -/

/-- The title of the section for a call. -/
def StageCall.title : StageCall → String
  | .lex _ _ => "Start lexer"
  | .parse _ _ => "Start parser"
  | .compile _ _ => "Start bytecode compiler"
  | .interpret _ _ => "Start bytecode interpreter"

/-- The items of the section for a call: what the stage made, one per line, and nothing if it
failed. -/
def StageCall.items : StageCall → List String
  | .lex _ tokens => ("Number of tokens: " ++ toString tokens.length) :: tokens.map Token.describe
  | .parse _ (.ok program) => "Parsed AST:" :: program.map Stmt.summary
  | .parse _ (.error _) => []
  | .compile _ (.ok code) => listing code
  | .compile _ (.error _) => []
  | .interpret _ ending =>
    match ending.breakdown? with
    | some _ => []
    | none =>
      ["Stack at end of execution:", ending.store.stackText,
        "Registers at end of execution:", ending.store.registersText]

/-- What can be seen of a traced run while it makes some calls, with so many sections before them:
for each call its banner, the call itself, and then its items. -/
def Trace.sectionsFrom (sections : Nat) : List StageCall → List Sighting
  | [] => []
  | call :: calls =>
    (Trace.banner sections call.title).map .line ++ .call call :: call.items.map .line
      ++ Trace.sectionsFrom (sections + 1) calls

/-- The line that tells of a failure, with its line and column if it is about a part of the
source. -/
def Trace.closing (source : String) : Except StageFailure Store → List String
  | .ok _ => []
  | .error failure =>
    match failure.span? with
    | none => [failure.describe]
    | some span =>
      [failure.describe ++ " (line " ++ toString (span.location source).line ++ ", column "
        ++ toString (span.location source).column ++ ")"]

/-- The banners of a run are the first ones of five. -/
theorem SourceStaged.titles_prefix {source : String} {calls : List StageCall}
    {result : Except StageFailure Store} (h : SourceStaged source calls result) :
    "Source code" :: calls.map StageCall.title <+:
      ["Source code", "Start lexer", "Start parser", "Start bytecode compiler",
        "Start bytecode interpreter"] := by
  cases h with
  | succeeds h =>
    cases h with
    | fails => exact ⟨["Start bytecode compiler", "Start bytecode interpreter"], rfl⟩
    | succeeds h =>
      cases h with
      | fails => exact ⟨["Start bytecode interpreter"], rfl⟩
      | succeeds h =>
        cases h with
        | breaksOff | ends => exact List.prefix_refl _

/-! ### What a tracer writes -/

namespace Tracer

variable {m : Type → Type}

/-- The notes on the start of a section: its banner and the call. -/
def opened (tracer : Tracer m) (call : StageCall) : List Sighting :=
  tracer.written (Trace.banner tracer.sections call.title) ++ [.call call]

/-- The notes on some calls, whether the tracer is on or off. -/
def log (tracer : Tracer m) : List StageCall → List Sighting
  | [] => []
  | call :: calls =>
    tracer.opened call ++ (tracer.begun.written call.items ++ tracer.begun.log calls)

/-- The notes on a call that failed. -/
theorem log_of_failed (tracer : Tracer m) {call : StageCall} (h : call.items = []) :
    tracer.log [call] = tracer.opened call ++ [] := by
  simp [log, written, h]

theorem log_of_enabled {tracer : Tracer m} (h : tracer.isEnabled = true) (calls : List StageCall) :
    tracer.log calls = Trace.sectionsFrom tracer.sections calls := by
  induction calls generalizing tracer with
  | nil => rfl
  | cons call calls ih =>
    have hbegun : tracer.begun.sections = tracer.sections + 1 := by simp [begun, h]
    rw [log, Trace.sectionsFrom, ih (tracer.isEnabled_begun.trans h), hbegun]
    simp [opened, written_of_enabled h, written_of_enabled (tracer.isEnabled_begun.trans h)]

theorem log_of_disabled {tracer : Tracer m} (h : tracer.isEnabled = false)
    (calls : List StageCall) : tracer.log calls = calls.map .call := by
  induction calls generalizing tracer with
  | nil => rfl
  | cons call calls ih =>
    rw [log, ih (tracer.isEnabled_begun.trans h)]
    simp [opened, written_of_disabled h, written_of_disabled (tracer.isEnabled_begun.trans h)]

end Tracer

/-! ### Runs -/

section Runs

variable {σ : Type} (stages : Stages (StateM σ)) (observer : Observer (StateM σ))
  (tracer : Tracer (StateM σ))

/-- A section starts with its banner and the call of its stage. -/
theorem watches_stage {α β : Type} (call : α → StageCall) {title : String}
    (htitle : ∀ a, (call a).title = title) {x : StateM σ α}
    {F : Tracer (Watched σ) → α → Watched σ β} {f : Tracer (StateM σ) → α → StateM σ β}
    {notes : β → List Sighting → Prop}
    (h : ∀ a, Watches (F tracer.begun.watched a) (f tracer.begun a) fun b after =>
      notes b (tracer.opened (call a) ++ after)) :
    Watches
      (tracer.watched.banner title >>= fun begun =>
        watch (fun a => .call (call a)) x >>= fun a => F begun a)
      (tracer.banner title >>= fun begun => x >>= fun a => f begun a) notes := by
  refine tracer.watches_banner title ((Watches.watch _ x).bind ?_)
  rintro a _ rfl
  refine (h a).mono fun b after hnotes => ?_
  rwa [Tracer.opened, htitle, List.append_assoc] at hnotes

/-- Behind a stage that succeeded, an event is announced and the items of the stage are written. -/
theorem watches_items {α : Type} {event : Event} {texts : Unit → List String}
    {X : Watched σ α} {x : StateM σ α} {notes : α → List Sighting → Prop}
    (h : Watches X x fun a after => notes a (tracer.written (texts ()) ++ after)) :
    Watches (observer.watched.announce event >>= fun _ => tracer.watched.lines texts >>= fun _ => X)
      (observer.announce event >>= fun _ => tracer.lines texts >>= fun _ => x) notes := by
  refine (Watches.lift (observer.announce event)).bind ?_
  rintro _ _ rfl
  refine (tracer.watches_lines texts).bind ?_
  rintro _ _ rfl
  exact h

theorem watches_executeCode (code : Code) :
    Watches (executeCode stages.watched observer.watched tracer.watched code)
      (executeCode stages observer tracer code)
      fun result seen => ∃ calls, CodeStaged code calls result ∧ seen = tracer.log calls := by
  refine watches_stage tracer (.interpret code) (fun _ => rfl) fun ending => ?_
  cases hend : ending.breakdown? with
  | some breakdown =>
    have hitems : (StageCall.interpret code ending).items = [] := by simp [StageCall.items, hend]
    exact .pure ⟨_, .breaksOff hend, (tracer.log_of_failed hitems).symm⟩
  | none =>
    have hitems : (StageCall.interpret code ending).items =
        ["Stack at end of execution:", ending.store.stackText,
          "Registers at end of execution:", ending.store.registersText] := by
      simp [StageCall.items, hend]
    refine watches_items observer tracer.begun (.pure ⟨_, .ends hend, ?_⟩)
    rw [← hitems]
    rfl

theorem watches_executeProgram (program : Program) :
    Watches (executeProgram stages.watched observer.watched tracer.watched program)
      (executeProgram stages observer tracer program)
      fun result seen => ∃ calls, ProgramStaged program calls result ∧
        seen = tracer.log calls := by
  refine watches_stage tracer (.compile program) (fun _ => rfl) fun result => ?_
  cases result with
  | error rejection => exact .pure ⟨_, .fails, (tracer.log_of_failed rfl).symm⟩
  | ok code =>
    refine watches_items observer tracer.begun ?_
    refine (watches_executeCode stages observer tracer.begun code).mono ?_
    rintro result _ ⟨calls, hcalls, rfl⟩
    exact ⟨_, .succeeds hcalls, rfl⟩

theorem watches_executeTokens (tokens : List Token) :
    Watches (executeTokens stages.watched observer.watched tracer.watched tokens)
      (executeTokens stages observer tracer tokens)
      fun result seen => ∃ calls, TokensStaged tokens calls result ∧ seen = tracer.log calls := by
  refine watches_stage tracer (.parse tokens) (fun _ => rfl) fun result => ?_
  cases result with
  | error rejection => exact .pure ⟨_, .fails, (tracer.log_of_failed rfl).symm⟩
  | ok program =>
    refine watches_items observer tracer.begun ?_
    refine (watches_executeProgram stages observer tracer.begun program).mono ?_
    rintro result _ ⟨calls, hcalls, rfl⟩
    exact ⟨_, .succeeds hcalls, rfl⟩

theorem watches_executeSource (source : String) :
    Watches (executeSource stages.watched observer.watched tracer.watched source)
      (executeSource stages observer tracer source)
      fun result seen => ∃ calls, SourceStaged source calls result ∧ seen = tracer.log calls := by
  refine watches_stage tracer (.lex source) (fun _ => rfl) fun tokens => ?_
  refine watches_items observer tracer.begun ?_
  refine (watches_executeTokens stages observer tracer.begun tokens).mono ?_
  rintro result _ ⟨calls, hcalls, rfl⟩
  exact ⟨_, .succeeds hcalls, rfl⟩

theorem Trace.closing_error (source : String) (failure : StageFailure) :
    Trace.closing source (.error failure) = [failure.locate source] := by
  cases hspan : failure.span? with
  | none => simp only [Trace.closing, StageFailure.locate, hspan]
  | some span => simp only [Trace.closing, StageFailure.locate, hspan]

theorem watches_tellFailure (source : String) (result : Except StageFailure Store) :
    Watches (tellFailure observer.watched tracer.watched source result)
      (tellFailure observer tracer source result)
      fun _ seen => seen = tracer.written (Trace.closing source result) := by
  cases result with
  | ok store => exact .pure (by simp [Trace.closing, Tracer.written])
  | error failure =>
    rw [Trace.closing_error]
    refine (Watches.lift (observer.announce (.stopped failure))).bind ?_
    rintro _ _ rfl
    exact tracer.watches_lines fun _ => [failure.locate source]

/-- The clock is read in a traced run only, and nobody notes that down. -/
theorem watches_clock {α : Type} {F : Nat → Watched σ α} {f : Nat → StateM σ α}
    {notes : α → List Sighting → Prop} (h : ∀ time, Watches (F time) (f time) notes) :
    Watches (if tracer.watched.isEnabled then observer.watched.clock >>= F else pure 0 >>= F)
      (if tracer.isEnabled then observer.clock >>= f else pure 0 >>= f) notes := by
  rw [Tracer.isEnabled_watched]
  split
  · refine (Watches.lift observer.clock).bind ?_
    rintro time _ rfl
    exact h time
  · exact h 0

/-- What is noted down of a whole run. -/
theorem watches_execute (source : String) :
    Watches (execute stages.watched observer.watched tracer.watched source)
      (execute stages observer tracer source)
      fun result seen => ∃ calls duration, SourceStaged source calls result ∧
        seen = tracer.written (Trace.banner tracer.sections "Source code") ++
          (tracer.begun.written ((Text.pieces '\n' source.toList).map String.ofList) ++
            (tracer.begun.log calls ++ (tracer.begun.written (Trace.closing source result) ++
              tracer.begun.written (Trace.elapsed duration)))) := by
  refine (Watches.lift (observer.announce (.started source.utf8ByteSize))).bind ?_
  rintro _ _ rfl
  refine watches_clock observer tracer fun started => ?_
  refine tracer.watches_banner _ ?_
  refine (tracer.begun.watches_lines _).bind ?_
  rintro _ _ rfl
  refine (watches_executeSource stages observer tracer.begun source).bind ?_
  rintro result _ ⟨calls, hcalls, rfl⟩
  refine (watches_tellFailure observer tracer.begun source result).bind ?_
  rintro _ _ rfl
  refine watches_clock observer tracer.begun fun stopped => ?_
  refine (tracer.begun.watches_lines fun _ => Trace.elapsed (stopped - started)).bind ?_
  rintro _ _ rfl
  exact .pure ⟨calls, stopped - started, hcalls, by simp⟩

end Runs

/-- Whatever the stages, the observer and the sink are, a run calls the stages in order up to the
first that fails. It gives the failure of that stage, or what the last one computed. If it is
traced, its lines are the source, a section for each call, a line for a failure, and the time. -/
theorem execute_staged {σ : Type} (stages : Stages (StateM σ)) (observer : Observer (StateM σ))
    (sink : String → StateM σ Unit) (enabled : Bool) (source : String) (s : σ) :
    ∃ result s' calls seen,
      (execute stages observer (.new enabled sink) source).run s = (result, s') ∧
      ((execute stages.watched observer.watched (.new enabled (watchedSink sink)) source).run
        []).run s = ((result, seen), s') ∧
      SourceStaged source calls result ∧
      "Source code" :: calls.map StageCall.title <+:
        ["Source code", "Start lexer", "Start parser", "Start bytecode compiler",
          "Start bytecode interpreter"] ∧
      (enabled = false → seen = calls.map .call) ∧
      (enabled = true → ∃ duration,
        seen = (Trace.banner 0 "Source code" ++
            (Text.pieces '\n' source.toList).map String.ofList).map .line ++
          Trace.sectionsFrom 1 calls ++
          (Trace.closing source result ++ Trace.elapsed duration).map .line) := by
  obtain ⟨seen, hrun, calls, duration, hcalls, rfl⟩ :=
    watches_execute stages observer (.new enabled sink) source [] s
  rw [Tracer.watched_new] at hrun
  refine ⟨_, _, calls, _, rfl, hrun, hcalls, hcalls.titles_prefix, ?_, ?_⟩
  · rintro rfl
    have hoff : (Tracer.new false sink).isEnabled = false := rfl
    have hoff' : (Tracer.new false sink).begun.isEnabled = false := rfl
    simp only [Tracer.written_of_disabled hoff, Tracer.written_of_disabled hoff',
      Tracer.log_of_disabled hoff', List.nil_append, List.append_nil]
  · rintro rfl
    have hon : (Tracer.new true sink).isEnabled = true := rfl
    have hon' : (Tracer.new true sink).begun.isEnabled = true := rfl
    refine ⟨duration, ?_⟩
    simp only [Tracer.written_of_enabled hon, Tracer.written_of_enabled hon',
      Tracer.log_of_enabled hon', List.nil_append, List.map_append, List.append_assoc]
    rfl

end Kestrel
