import Kestrel.CommandLine.Perform
import Kestrel.Proofs.Run.Erasure

/-!
# Commands on a console

A console keeps what is written to the two outputs. It stands on a system with a state of its own,
for its files, its input and its clock. What a run prints and its trace go to the output only, so to
the error output a traced run is the same as any other.

## Main definitions

- `Console`, `Console.world` — a console, and what commands can do there
- `Console.after` — the exit status of a command, and the console behind it
- `Console.erasure` — all that is written to the output can be erased

## Main statements

- `loadSource_lift` — sources are loaded in the same way in another world
- `World.withCode_eq`, `World.showProgram_eq`, `World.runFile_quiet` — what commands make of a
  source
- `Console.exists_run_runFile` — runs end in the same way whether they are traced or not
-/

namespace Kestrel

/-! ### Commands in any world -/

/-- Sources are loaded in the same way by files whose actions are those of other files, in another
world. -/
theorem loadSource_lift {m n : Type → Type} [Monad m] [Monad n] (lift : ∀ {α : Type}, m α → n α)
    (hpure : ∀ {α : Type} (a : α), lift (pure a) = pure a)
    (hbind : ∀ {α β : Type} (x : m α) (f : α → m β),
      lift (x >>= f) = lift x >>= fun a => lift (f a))
    {files : Files m} {files' : Files n} (hread : ∀ path, files'.read path = lift (files.read path))
    (hinput : files'.input = lift files.input) (file : String) :
    loadSource files' file = lift (loadSource files file) := by
  unfold loadSource loadFile
  split
  · simp only [hbind, hpure, hinput]
  · rw [hbind, hread]
    congr 1
    funext result
    cases result <;> rw [hpure]

section Worlds

variable {m : Type → Type} [Monad m] [LawfulMonad m] (world : World m) (file : String)

theorem World.withCode_eq (go : Code → m UInt32) :
    world.withCode file go = world.withSource file fun source =>
      match Code.ofSource source with
      | .error failure => world.reportFailure failure file source
      | .ok code => go code := by
  simp only [withCode, stages, Stages.standard_code?, pure_bind]
  congr 1
  funext source
  cases Code.ofSource source <;> rfl

theorem World.showProgram_eq (json : Bool) :
    world.showProgram file json = world.withSource file fun source =>
      match Program.ofSource source with
      | .error failure => world.reportFailure failure file source
      | .ok program => do
        world.out ((if json then program.json else program.outline) ++ "\n")
        return 0 := by
  simp only [showProgram, stages, Stages.standard_program?, pure_bind]
  congr 1
  funext source
  cases Program.ofSource source <;> rfl

/-- Ends a run with its exit status, and tells of its failure. -/
def World.conclude (source : String) : Except StageFailure Unit → m UInt32
  | .ok () => return 0
  | .error failure => world.reportFailure failure file source

/-- A run without a trace lowers the source to code and runs that. -/
theorem World.runFile_quiet :
    world.runFile file false = world.withSource file fun source =>
      match Code.ofSource source with
      | .error failure => world.reportFailure failure file source
      | .ok code => world.stages.runCode code >>= fun result =>
        world.conclude file source (FailurePolicy.propagate.apply result) := by
  have hsilent : world.observer = .silent world.clock := rfl
  simp only [runFile, run, Tracer.new_false, hsilent, execute_silent]
  congr 1
  funext source
  rw [stages, Stages.standard_runSource]
  cases Code.ofSource source with
  | error failure => simp only [pure_bind, FailurePolicy.apply]
  | ok code =>
    simp only [bind_assoc, pure_bind]
    rfl

end Worlds

/-! ### Consoles -/

/-- What was written to the two outputs, on a system in some state. -/
structure Console (φ : Type) where
  system : φ
  out : String
  err : String

namespace Console

variable {φ : Type}

/-- Nothing was written yet. -/
def start (system : φ) : Console φ := ⟨system, "", ""⟩

/-- An action of the system below a console. -/
def onSystem {α : Type} (x : StateM φ α) : StateM (Console φ) α := fun c =>
  ((x.run c.system).1, { c with system := (x.run c.system).2 })

/-- What commands can do on a console, with the files, the input and the clock of its system. -/
def world (files : Files (StateM φ)) (clock : StateM φ Nat) : World (StateM (Console φ)) where
  files :=
    { read := fun path => onSystem (files.read path)
      write := fun path text => onSystem (files.write path text)
      input := onSystem files.input }
  out text := modify fun c => { c with out := c.out ++ text }
  err text := modify fun c => { c with err := c.err ++ text }
  clock := onSystem clock

variable (files : Files (StateM φ)) (clock : StateM φ Nat)

/-- The exit status of a command on a fresh console, and the console behind it. -/
def after (system : φ) (command : Command) : UInt32 × Console φ :=
  (command.perform (world files clock)).run (start system)

variable {files clock} {file source : String} {c : Console φ} {system : φ}

theorem onSystem_bind {α β : Type} (x : StateM φ α) (f : α → StateM φ β) :
    onSystem (x >>= f) = onSystem x >>= fun a => onSystem (f a) := rfl

theorem run_onSystem {α : Type} {x : StateM φ α} {a : α} (h : x.run c.system = (a, system)) :
    (onSystem x).run c = (a, { c with system := system }) := by
  simp only [onSystem, StateT.run] at h ⊢
  rw [h]

/-- Sources are loaded by the system. -/
theorem loadSource_world :
    loadSource (world files clock).files file = onSystem (loadSource files file) :=
  loadSource_lift onSystem (fun _ => rfl) onSystem_bind (fun _ => rfl) rfl file

/-- A command on a source that cannot be loaded. -/
theorem run_withSource_error {e : LoadError}
    (h : (loadSource files file).run c.system = (.error e, system))
    (go : String → StateM (Console φ) UInt32) :
    ((world files clock).withSource file go).run c =
      (1, ⟨system, c.out, c.err ++ ("Error: " ++ e.message ++ "\n")⟩) := by
  unfold World.withSource
  rw [loadSource_world, StateT.run_bind, run_onSystem h]
  rfl

/-- A command on a source that can be loaded. -/
theorem run_withSource_ok (h : (loadSource files file).run c.system = (.ok source, system))
    (go : String → StateM (Console φ) UInt32) :
    ((world files clock).withSource file go).run c =
      (go source).run { c with system := system } := by
  unfold World.withSource
  rw [loadSource_world, StateT.run_bind, run_onSystem h]
  rfl

/-- Code is written to another file, and either output tells what came of it. -/
theorem run_writeCode_eq {result : Except FileError Unit} {output : String} {code : Code}
    (h : (files.write output (serialize code)).run c.system = (result, system)) :
    ((world files clock).writeCode file output code).run c =
      match result with
      | .ok () =>
        (0, ⟨system, c.out ++ ("Compiled '" ++ file ++ "' to '" ++ output ++ "'\n"), c.err⟩)
      | .error e =>
        (1, ⟨system, c.out,
          c.err ++ ("Error writing to '" ++ output ++ "': " ++ e.message ++ "\n")⟩) := by
  have hrun : ((world files clock).writeCode file output code).run c = _ :=
    StateT.run_bind (onSystem (files.write output (serialize code))) _ c
  rw [hrun, run_onSystem h]
  cases result <;> rfl

/-- Code is written to another file, or that file cannot be written. -/
theorem run_writeCode (file output : String) (code : Code) (c : Console φ) :
    (((world files clock).writeCode file output code).run c).1 = 0 ∨
      ∃ e : FileError, (((world files clock).writeCode file output code).run c).2.err =
        c.err ++ ("Error writing to '" ++ output ++ "': " ++ e.message ++ "\n") := by
  cases hwrite : (files.write output (serialize code)).run c.system with
  | mk result system =>
    rw [run_writeCode_eq hwrite]
    cases result with
    | ok _ => exact .inl rfl
    | error e => exact .inr ⟨e, rfl⟩

/-! ### The error output -/

/-- What is written to the output can be erased: an action that leaves the error output alone gives
what another one gives. -/
def erasure : Erasure (StateM (Console φ)) Id where
  Quiet x := ∀ c, (x.run c).2.err = c.err
  Erases x y := ∀ c, (x.run c).1 = y ∧ (x.run c).2.err = c.err
  quiet_pure _ _ := rfl
  quiet_bind hx hf c := (hf _ _).trans (hx c)
  pure _ _ := ⟨rfl, rfl⟩
  bind {_ _ x y f g} hx hf c := by
    obtain ⟨hresult, herr⟩ := hx c
    obtain ⟨hresult', herr'⟩ := hf (x.run c).1 (x.run c).2
    exact ⟨hresult'.trans (congrArg g hresult), herr'.trans herr⟩
  skip {_ _ x f y} hx hf c := by
    obtain ⟨hresult, herr⟩ := hf (x.run c).1 (x.run c).2
    exact ⟨hresult, herr.trans (hx c)⟩

/-- What goes on behind an action only sees what was erased, and the error output as it was. -/
theorem exists_run_bind {α β : Type} {x : StateM (Console φ) α} {y : Id α}
    (h : erasure.Erases x y) (f : α → StateM (Console φ) β) (c : Console φ) :
    ∃ c', (x >>= f).run c = (f y).run c' ∧ c'.err = c.err := by
  obtain ⟨hresult, herr⟩ := h c
  exact ⟨(x.run c).2, congrArg (fun a => (f a).run (x.run c).2) hresult, herr⟩

/-- What runs of code come to on every console. -/
def pureStages : Stages Id :=
  .standard fun code => (interpret .keeping defaultStepLimit code []).1.ending

section Erasing

variable (files clock)

theorem quiet_out (text : String) : erasure.Quiet ((world files clock).out text) := fun _ => rfl

theorem quiet_observer : erasure.QuietObserver (world files clock).observer where
  announce _ _ := rfl
  clock _ := rfl

theorem quiet_tracer (verbose : Bool) :
    erasure.QuietTracer (.new verbose fun line => (world files clock).out (line ++ "\n")) := by
  intro sink hsink text
  cases verbose with
  | false => cases hsink
  | true =>
    obtain rfl := Option.some.inj hsink
    exact quiet_out files clock _

theorem keeps_stages : erasure.Keeps (world files clock).stages pureStages where
  lex _ := erasure.pure _
  parse _ := erasure.pure _
  compile _ := erasure.pure _
  interpret _ :=
    erasure.skip (Erasure.quiet_forM (fun line => quiet_out files clock (line ++ "\n")) _)
      fun _ => erasure.pure _

/-- A run, traced or not, comes to the same on every console. -/
theorem erases_run (verbose : Bool) (source : String) :
    erasure.Erases
      (run (world files clock).stages (world files clock).observer
        (fun line => (world files clock).out (line ++ "\n")) ⟨verbose, .propagate⟩ source)
      (do return FailurePolicy.propagate.apply (← pureStages.runSource source)) :=
  erasure.bind (Erasure.erases_execute (keeps_stages files clock) (quiet_observer files clock)
    (quiet_tracer files clock verbose) source) fun _ => erasure.pure _

end Erasing

/-- A run ends in the same way whether it is traced or not, as far as the exit status and the error
output go. -/
theorem exists_run_runFile (clock : StateM φ Nat) (c : Console φ)
    (h : (loadSource files file).run c.system = (.ok source, system)) (verbose : Bool) :
    ∃ c', c'.err = c.err ∧ ((world files clock).runFile file verbose).run c =
      ((world files clock).conclude file source
        (FailurePolicy.propagate.apply (pureStages.runSource source))).run c' := by
  obtain ⟨c', hrun, herr⟩ := exists_run_bind (erases_run files clock verbose source)
    ((world files clock).conclude file source) { c with system := system }
  exact ⟨c', herr, (run_withSource_ok h _).trans hrun⟩

end Console

end Kestrel
