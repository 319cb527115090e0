import Kestrel.Proofs.CommandLine.Console
import Kestrel.Proofs.Run.Legality

/-!
# Which files are legal

Commands on a file go separate ways, but agree on whether it is legal. What one of them turns down,
all of them turn down with the same text, except that reading a program says nothing about its
meaning. A legal file can only fail while it runs, or while its code is written to another file.

## Main definitions

- `CommandAgreement` — the commands on a file agree

## Main statements

- `CommandAgreement.of_turnedDown`, `CommandAgreement.of_code` — so they do if the file is turned
  down, and if it has code
- `sources_and_commands_agree` — reading, lowering and running a source agree, and so do the
  commands on every file
-/

namespace Kestrel

variable {φ : Type} {files : Files (StateM φ)} {clock : StateM φ Nat} {system system' : φ}
  {file source : String}

namespace Console

/-- A command on a source without code. -/
theorem run_withCode_error {failure : StageFailure} {c : Console φ}
    (hload : (loadSource files file).run c.system = (.ok source, system))
    (hcode : Code.ofSource source = .error failure) (go : Code → StateM (Console φ) UInt32) :
    ((world files clock).withCode file go).run c =
      (1, ⟨system, c.out, c.err ++ (failure.report (displayName file)).render source⟩) := by
  rw [World.withCode_eq, run_withSource_ok hload, hcode]
  rfl

/-- A command on a source with code. -/
theorem run_withCode_ok {code : Code} {c : Console φ}
    (hload : (loadSource files file).run c.system = (.ok source, system))
    (hcode : Code.ofSource source = .ok code) (go : Code → StateM (Console φ) UInt32) :
    ((world files clock).withCode file go).run c = (go code).run { c with system := system } := by
  rw [World.withCode_eq, run_withSource_ok hload, hcode]

end Console

open Console

/-- What is told if code could not be written to a file. -/
inductive WriteFailureText : String → Prop
  | noPath : WriteFailureText "Error: Cannot compile from stdin without --output flag\n"
  | refused (output : String) (e : FileError) :
      WriteFailureText ("Error writing to '" ++ output ++ "': " ++ e.message ++ "\n")

/-- The commands on a file agree on whether it is legal. -/
structure CommandAgreement (files : Files (StateM φ)) (clock : StateM φ Nat) (system : φ)
    (file : String) : Prop where
  /-- To check a file says that it is legal, or fails. -/
  checked_iff : (after files clock system (.check file)).1 = 0 ↔
    (after files clock system (.check file)).2.out = "Check: OK\n"
  /-- A legal file is run to its end, or its run breaks off. -/
  run_of_checked : (after files clock system (.check file)).2.out = "Check: OK\n" →
    ∃ source, ((loadSource files file).run system).1 = .ok source ∧ ∀ verbose,
      (after files clock system (.run file verbose)).1 = 0 ∧
        (after files clock system (.run file verbose)).2.err = "" ∨
      ∃ breakdown, (after files clock system (.run file verbose)).1 = 1 ∧
        (after files clock system (.run file verbose)).2.err =
          ((StageFailure.interpret breakdown).report (displayName file)).render source
  /-- A file that is turned down is not run, and nothing is printed. -/
  run_of_failed : (after files clock system (.check file)).1 ≠ 0 →
    (after files clock system (.check file)).1 = 1 ∧
    (after files clock system (.check file)).2.out = "" ∧
    after files clock system (.run file false) = after files clock system (.check file)
  /-- It is also turned down if its run is to be traced. -/
  traced_of_failed : (after files clock system (.check file)).1 ≠ 0 →
    (after files clock system (.run file true)).1 = 1 ∧
    (after files clock system (.run file true)).2.err =
      (after files clock system (.check file)).2.err
  /-- The code of a legal file can be shown, and if it cannot be written that is a matter of the
  other file. -/
  code_of_checked : (after files clock system (.check file)).1 = 0 →
    (after files clock system (.bytecode file)).1 = 0 ∧
    ∀ output?, (after files clock system (.compile file output?)).1 = 0 ∨
      WriteFailureText (after files clock system (.compile file output?)).2.err
  code_of_failed : (after files clock system (.check file)).1 ≠ 0 →
    after files clock system (.bytecode file) = after files clock system (.check file) ∧
    ∀ output?, after files clock system (.compile file output?) =
      after files clock system (.check file)
  /-- A file that cannot even be read as a program is turned down everywhere. -/
  failed_of_read : ∀ json, (after files clock system (.ast file json)).1 ≠ 0 →
    after files clock system (.check file) = after files clock system (.ast file json)

namespace CommandAgreement

/-- The commands agree on a file that is turned down wherever its code is needed. -/
theorem of_turnedDown (turned : Console φ) (hout : turned.out = "")
    (hcode : ∀ go, ((world files clock).withCode file go).run (start system) = (1, turned))
    (hrun : ((world files clock).runFile file false).run (start system) = (1, turned))
    (htraced : (((world files clock).runFile file true).run (start system)).1 = 1 ∧
      (((world files clock).runFile file true).run (start system)).2.err = turned.err)
    (hread : ∀ json, ((world files clock).showProgram file json).run (start system) = (1, turned) ∨
      (((world files clock).showProgram file json).run (start system)).1 = 0) :
    CommandAgreement files clock system file := by
  have hcheck : after files clock system (.check file) = (1, turned) := hcode _
  have hbytecode : after files clock system (.bytecode file) = (1, turned) := hcode _
  have hcompile (output? : Option String) :
      after files clock system (.compile file output?) = (1, turned) := hcode _
  have hrun' : after files clock system (.run file false) = (1, turned) := hrun
  constructor
  case checked_iff =>
    rw [hcheck, hout]
    simp
  case run_of_checked =>
    intro hok
    rw [hcheck, hout] at hok
    exact absurd hok (by decide)
  case run_of_failed =>
    intro _
    rw [hcheck]
    exact ⟨rfl, hout, hrun'⟩
  case traced_of_failed =>
    intro _
    rw [hcheck]
    exact htraced
  case code_of_checked =>
    intro hok
    rw [hcheck] at hok
    exact absurd hok (by simp)
  case code_of_failed =>
    intro _
    rw [hcheck]
    exact ⟨hbytecode, hcompile⟩
  case failed_of_read =>
    intro json hfailed
    rw [hcheck]
    exact ((hread json).resolve_right hfailed).symm

/-- A file that cannot be loaded. -/
theorem of_unloaded {e : LoadError}
    (hload : (loadSource files file).run system = (.error e, system')) :
    CommandAgreement files clock system file := by
  refine of_turnedDown ⟨system', "", "" ++ ("Error: " ++ e.message ++ "\n")⟩ rfl ?_ ?_ ?_ ?_
  · intro go
    exact run_withSource_error hload _
  · exact run_withSource_error hload _
  · have hrun : ((world files clock).runFile file true).run (start system) = _ :=
      run_withSource_error hload _
    rw [hrun]
    exact ⟨rfl, rfl⟩
  · intro json
    exact .inl (run_withSource_error hload _)

/-- A file whose source has no code. -/
theorem of_rejected {failure : StageFailure}
    (hload : (loadSource files file).run system = (.ok source, system'))
    (hcode : Code.ofSource source = .error failure) :
    CommandAgreement files clock system file := by
  refine of_turnedDown
    ⟨system', "", "" ++ (failure.report (displayName file)).render source⟩ rfl ?_ ?_ ?_ ?_
  · intro go
    exact run_withCode_error hload hcode go
  · rw [World.runFile_quiet, run_withSource_ok hload, hcode]
    rfl
  · have hsource : pureStages.runSource source = .error failure := by
      rw [pureStages, Stages.standard_runSource, hcode]
      rfl
    obtain ⟨c', herr, hrun⟩ := exists_run_runFile clock (start system) hload true
    rw [hrun, hsource, show c' = ⟨c'.system, c'.out, ""⟩ from congrArg (Console.mk _ _) herr]
    exact ⟨rfl, rfl⟩
  · intro json
    rw [World.showProgram_eq, run_withSource_ok hload]
    obtain ⟨rejection, hread, hcode'⟩ | ⟨program, rejection, hread, -⟩ | ⟨_, code, -, hcode'⟩ :=
      Code.ofSource_cases source
    · obtain rfl : .parse rejection = failure := Except.error.inj (hcode'.symm.trans hcode)
      rw [hread]
      exact .inl rfl
    · rw [hread]
      exact .inr rfl
    · rw [hcode] at hcode'
      cases hcode'

section Legal

variable {code : Code} (hload : (loadSource files file).run system = (.ok source, system'))
  (hcode : Code.ofSource source = .ok code)

include hload hcode

/-- Code is run to its end, or its run breaks off. -/
theorem run_of_code (verbose : Bool) :
    (after files clock system (.run file verbose)).1 = 0 ∧
      (after files clock system (.run file verbose)).2.err = "" ∨
    ∃ breakdown, (after files clock system (.run file verbose)).1 = 1 ∧
      (after files clock system (.run file verbose)).2.err =
        ((StageFailure.interpret breakdown).report (displayName file)).render source := by
  have hsource : pureStages.runSource source =
      (interpret .keeping defaultStepLimit code []).1.ending.result := by
    rw [pureStages, Stages.standard_runSource, hcode]
    rfl
  obtain ⟨c', herr, hrun⟩ := exists_run_runFile clock (start system) hload verbose
  have hafter : after files clock system (.run file verbose) = _ := hrun
  rw [hafter, hsource]
  cases hresult : (interpret .keeping defaultStepLimit code []).1.ending.result with
  | ok store => exact .inl ⟨rfl, herr⟩
  | error failure =>
    obtain ⟨breakdown, rfl⟩ := Ending.exists_breakdown_of_result hresult
    refine .inr ⟨breakdown, rfl, ?_⟩
    show c'.err ++ _ = _
    rw [herr]
    exact String.empty_append

/-- Code is written to another file, unless that cannot be done. -/
theorem compile_of_code (output? : Option String) :
    (after files clock system (.compile file output?)).1 = 0 ∨
      WriteFailureText (after files clock system (.compile file output?)).2.err := by
  have hcompile : after files clock system (.compile file output?) = _ :=
    run_withCode_ok hload hcode _
  rw [hcompile]
  cases outputPath file output? with
  | none => exact .inr .noPath
  | some output =>
    refine (run_writeCode file output code _).imp_right ?_
    rintro ⟨e, herr⟩
    rw [herr]
    exact .refused output e

theorem ast_of_code (json : Bool) : (after files clock system (.ast file json)).1 = 0 := by
  obtain ⟨program, hprogram⟩ := Program.exists_of_code hcode
  show (((world files clock).showProgram file json).run (start system)).1 = 0
  rw [World.showProgram_eq, run_withSource_ok hload, hprogram]
  rfl

/-- The commands agree on a file whose source has code. -/
theorem of_code : CommandAgreement files clock system file := by
  have hcheck : after files clock system (.check file) =
      (0, ⟨system', "" ++ "Check: OK\n", ""⟩) := run_withCode_ok hload hcode _
  have hpassed : (after files clock system (.check file)).1 = 0 := congrArg Prod.fst hcheck
  have hbytecode : after files clock system (.bytecode file) = _ := run_withCode_ok hload hcode _
  constructor
  case checked_iff =>
    rw [hcheck]
    simp
  case run_of_checked =>
    intro _
    exact ⟨source, congrArg Prod.fst hload, run_of_code hload hcode⟩
  case run_of_failed => exact fun hfailed => absurd hpassed hfailed
  case traced_of_failed => exact fun hfailed => absurd hpassed hfailed
  case code_of_checked =>
    intro _
    rw [hbytecode]
    exact ⟨rfl, compile_of_code hload hcode⟩
  case code_of_failed => exact fun hfailed => absurd hpassed hfailed
  case failed_of_read =>
    intro json hfailed
    exact absurd (ast_of_code hload hcode json) hfailed

end Legal

end CommandAgreement

/-- The commands on every file agree. -/
theorem commandAgreement (files : Files (StateM φ)) (clock : StateM φ Nat) (system : φ)
    (file : String) : CommandAgreement files clock system file := by
  cases hload : (loadSource files file).run system with
  | mk loaded system' =>
    cases loaded with
    | error e => exact .of_unloaded hload
    | ok source =>
      cases hcode : Code.ofSource source with
      | error failure => exact .of_rejected hload hcode
      | ok code => exact .of_code hload hcode

/-- Reading a source, lowering it to code and running it agree on whether it is legal, whatever runs
the code and whoever is told of the run. So do the commands on every file. -/
theorem sources_and_commands_agree {σ ε : Type} (interpret : Code → StateM σ Ending)
    (observer : Observer (StateM ε)) (tracer : Tracer (StateM ε)) (source : String) (s : σ × ε)
    (files : Files (StateM φ)) (clock : StateM φ Nat) (system : φ) (file : String) :
    Agreement s.1 (fun code => (interpret code).run s.1)
      (((Stages.standard interpret).program? source).run s.1).1
      (((Stages.standard interpret).code? source).run s.1).1
      (((execute (Stages.standard interpret).inside observer.outside tracer.outside source).run
          s).1,
        ((execute (Stages.standard interpret).inside observer.outside tracer.outside source).run
          s).2.1) ∧
    CommandAgreement files clock system file :=
  ⟨Stages.agreement_standard interpret observer tracer source s,
    commandAgreement files clock system file⟩

end Kestrel
