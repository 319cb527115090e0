import Kestrel.Proofs.CommandLine.Legality
import Kestrel.Proofs.Files.Following
import Kestrel.Proofs.Run.Places
import Kestrel.Proofs.Token.Munch

/-!
# Compiling files

The code of a file is written beside it, under another extension, and all other files stay as they
are. So does the file itself, unless it has the extension of code already: then its code replaces
the source, and the file is no source any more.

## Main definitions

- `Files.noting` — files that note down what they are asked to write
- `FileTree.asFiles` — a tree as what commands read and write
- `CompilesBeside` — what is left of a file tree when one of its files is compiled

## Main statements

- `Code.ofSource_serialize` — code in a file is no source
- `compile_asks_once` — compiling a file asks any files for one write or for none
- `compile_writes_beside` — what compiling a file does to all files of a tree

## Design notes

A file tree has no links, so different places hold different files. In a tree where a file stands at
the place of a directory, which no system allows, that file is not written.
-/

namespace Kestrel

open Console Text

/-! ### Code in a file -/

theorem scan_bracket (cs : List Char) : scan ('[' :: cs) = some ⟨.unknown '[', ['['], cs⟩ := by
  cases cs <;> rfl

/-- Code in a file starts with a bracket. -/
theorem exists_serialize (code : Code) : ∃ cs, serialize code = String.ofList ('[' :: cs) := by
  unfold serialize
  split
  · exact ⟨[']'], rfl⟩
  · simp only [← String.toList_inj, String.toList_append, String.toList_ofList]
    exact ⟨_, rfl⟩

/-- Code in a file is no source: it starts with a bracket. -/
theorem Code.ofSource_serialize (code : Code) : Code.ofSource (serialize code) =
    .error (.parse (SyntaxError.unexpectedCharacter '[' ⟨0, 1⟩).rejection) := by
  obtain ⟨cs, htext⟩ := exists_serialize code
  have hskip : skipBlanks 0 ('[' :: cs) = (0, '[' :: cs) := rfl
  have hscan : scan (skipBlanks 0 ('[' :: cs)).2 = some ⟨.unknown '[', ['['], cs⟩ := by
    rw [hskip]
    exact scan_bracket cs
  have htokens : tokenize (serialize code) = ⟨.unknown '[', ⟨0, 1⟩⟩ :: tokensFrom 1 cs := by
    rw [htext, tokenize_ofList, tokensFrom_of_some hscan, hskip]
    exact joinNewline_of_ne (by simp) _
  have hparse : Program.ofTokens (tokenize (serialize code)) =
      .error (.unexpectedCharacter '[' ⟨0, 1⟩) := Program.ofTokens_unknown (by rw [htokens]; rfl)
  rw [Code.ofSource, Program.ofSource, hparse]
  rfl

/-- No source with code is code in a file. -/
theorem serialize_ne {source : String} {code : Code} (h : Code.ofSource source = .ok code)
    (other : Code) : serialize other ≠ source := by
  rintro rfl
  rw [Code.ofSource_serialize] at h
  cases h

/-! ### What is asked for -/

section Noting

variable {φ : Type}

/-- An action of files, beside what they have noted down. -/
def besideNotes {α : Type} (x : StateM φ α) : StateM (φ × List (String × String)) α := fun s =>
  ((x.run s.1).1, ((x.run s.1).2, s.2))

/-- Files that note down what they are asked to write, in order: the path and the text. -/
def Files.noting (files : Files (StateM φ)) : Files (StateM (φ × List (String × String))) where
  read path := besideNotes (files.read path)
  write path text := do
    modify fun s => (s.1, s.2 ++ [(path, text)])
    besideNotes (files.write path text)
  input := besideNotes files.input

theorem loadSource_noting (files : Files (StateM φ)) (file : String) :
    loadSource files.noting file = besideNotes (loadSource files file) :=
  loadSource_lift besideNotes (fun _ => rfl) (fun _ _ => rfl) (fun _ => rfl) rfl file

/-- What is to be written when a source is compiled: its code, if it has any, to one path, if there
is one for it. -/
def codeToWrite (file : String) (output? : Option String) :
    Except LoadError String → List (String × String)
  | .error _ => []
  | .ok source =>
    match Code.ofSource source, outputPath file output? with
    | .ok code, some output => [(output, serialize code)]
    | _, _ => []

/-- Compiling a file asks the files for this write and for no other one, whatever they answer. -/
theorem compile_asks_once (files : Files (StateM φ))
    (clock : StateM (φ × List (String × String)) Nat) (system : φ) (file : String)
    (output? : Option String) :
    (after files.noting clock (system, []) (.compile file output?)).2.system.2 =
      codeToWrite file output? ((loadSource files file).run system).1 := by
  have hload : (loadSource files.noting file).run (system, []) =
      (((loadSource files file).run system).1, (((loadSource files file).run system).2, [])) := by
    rw [loadSource_noting]
    rfl
  generalize (loadSource files file).run system = result at hload ⊢
  obtain ⟨loaded, system'⟩ := result
  cases loaded with
  | error e =>
    have hafter : after files.noting clock (system, []) (.compile file output?) = _ :=
      run_withSource_error hload _
    rw [hafter]
    rfl
  | ok source =>
    cases hcode : Code.ofSource source with
    | error failure =>
      have hafter : after files.noting clock (system, []) (.compile file output?) = _ :=
        run_withCode_error hload hcode _
      rw [hafter, codeToWrite, hcode]
    | ok code =>
      have hafter : after files.noting clock (system, []) (.compile file output?) = _ :=
        run_withCode_ok hload hcode _
      rw [hafter, codeToWrite, hcode]
      cases outputPath file output? with
      | none => rfl
      | some output =>
        dsimp only
        have hwrite : (files.noting.write output (serialize code)).run (system', []) =
            (((files.write output (serialize code)).run system').1,
              (((files.write output (serialize code)).run system').2,
                [(output, serialize code)])) := rfl
        -- the note is taken before the files answer
        generalize (files.write output (serialize code)).run system' = answer at hwrite
        obtain ⟨result, system''⟩ := answer
        rw [run_writeCode_eq hwrite]
        cases result <;> rfl

end Noting

/-! ### The files of a tree -/

/-- The files of a tree, and an input, as what commands read and write. -/
def FileTree.asFiles (input : ByteArray) : Files (StateM FileTree) where
  read path tree := (tree.read path, tree)
  write path text tree :=
    match tree.write path text.toUTF8 with
    | .ok tree' => (.ok (), tree')
    | .error e => (.error e, tree)
  input tree := (input, tree)

/-- A write that is refused changes nothing. -/
theorem run_write_asFiles (input : ByteArray) (tree : FileTree) (path text : String) :
    ((FileTree.asFiles input).write path text).run tree =
      match tree.write path text.toUTF8 with
      | .ok tree' => (.ok (), tree')
      | .error e => (.error e, tree) := rfl

variable {input : ByteArray} {clock : StateM FileTree Nat} {tree tree' : FileTree}
  {file output source : String} {code : Code} {place : Place}

/-- A text stands for the bytes that it was decoded from. -/
theorem toUTF8_of_decodeText {bytes : ByteArray} (h : decodeText bytes = .ok source) :
    source.toUTF8 = bytes := by
  unfold decodeText String.fromUTF8? at h
  by_cases hbytes : bytes.IsValidUTF8
  · simp only [dif_pos hbytes] at h
    obtain rfl := Except.ok.inj h
    rfl
  · simp [dif_neg hbytes] at h

/-- A source that is not the input is read from its file, and nothing is changed. -/
theorem loadSource_asFiles (input : ByteArray) (tree : FileTree) (hfile : file ≠ inputPath) :
    ∃ loaded, (loadSource (FileTree.asFiles input) file).run tree = (loaded, tree) ∧
      ∀ source, loaded = .ok source → tree.read file = .ok source.toUTF8 := by
  have hrun : ((FileTree.asFiles input).read file).run tree = (tree.read file, tree) := rfl
  rw [loadSource, if_neg hfile, loadFile, StateT.run_bind, hrun]
  cases tree.read file with
  | error cause =>
    refine ⟨.error ⟨file, cause⟩, rfl, ?_⟩
    intro source h
    cases h
  | ok bytes =>
    refine ⟨loadInput file bytes, rfl, ?_⟩
    intro source h
    cases hdecoded : decodeText bytes with
    | error cause =>
      rw [loadInput, hdecoded] at h
      cases h
    | ok text =>
      rw [loadInput, hdecoded] at h
      obtain rfl := Except.ok.inj h
      rw [toUTF8_of_decodeText hdecoded]

/-! ### Compiling -/

/-- What is left of a file tree when a file is compiled and no path is given for its code. The
source of the file was loaded, or could not be. A tree has no links and no permissions, and it is
never full: a file that is there can always be written, and a write that is refused changes
nothing. -/
structure CompilesBeside (tree tree' : FileTree) (file : String)
    (loaded : Except LoadError String) (status : UInt32) : Prop where
  /-- Without code, nothing is written. -/
  unwritten : (∀ source code, loaded = .ok source → Code.ofSource source ≠ .ok code) →
    status = 1 ∧ tree' = tree
  /-- Code is written to one place, to which the path under the other extension leads, or nothing is
  written. -/
  written : ∀ source code, loaded = .ok source → Code.ofSource source = .ok code →
    ∃ output, outputPath file none = some output ∧
      (status = 1 ∧ tree' = tree ∨ status = 0 ∧ ∃ place, tree'.resolve output = .ok place ∧
        tree' = tree.put place (serialize code).toUTF8)
  /-- That is another path, unless the file has the extension of code already, or no name at all. -/
  output_eq_iff : outputPath file none = some file ↔
    Path.name? file.toList = none ∨ Path.HasExtension file.toList ['k', 'b', 'c']
  /-- A source is kept unless there is code of it and the file has the extension of code. -/
  kept_iff : ∀ place, tree.resolve file = .ok place →
    (tree'.contents? place = tree.contents? place ↔
      ¬ (Path.HasExtension file.toList ['k', 'b', 'c'] ∧ tree.isDirectory place = false ∧
        ∃ source code, loaded = .ok source ∧ Code.ofSource source = .ok code))

theorem outputPath_eq_self_iff (hfile : file ≠ inputPath) : outputPath file none = some file ↔
    Path.name? file.toList = none ∨ Path.HasExtension file.toList ['k', 'b', 'c'] := by
  rw [outputPath, if_neg hfile, Option.some.injEq, ← String.toList_inj, String.toList_ofList,
    Path.withExtension_eq_self_iff (by decide) (by decide) (by decide)]

namespace CompilesBeside

/-- Nothing is written. -/
theorem of_unwritten (hfile : file ≠ inputPath) {loaded : Except LoadError String}
    (h : ∀ source code, loaded = .ok source → Code.ofSource source ≠ .ok code) :
    CompilesBeside tree tree file loaded 1 where
  unwritten _ := ⟨rfl, rfl⟩
  written source code hsource hcode := absurd hcode (h source code hsource)
  output_eq_iff := outputPath_eq_self_iff hfile
  kept_iff place _ := by
    refine iff_of_true rfl ?_
    rintro ⟨-, -, source, code, hsource, hcode⟩
    exact h source code hsource hcode

section Written

variable (hfile : file ≠ inputPath) (hread : tree.read file = .ok source.toUTF8)
  (hcode : Code.ofSource source = .ok code) (houtput : outputPath file none = some output)

include hfile houtput

theorem output_eq (h : Path.HasExtension file.toList ['k', 'b', 'c']) : output = file :=
  Option.some.inj (houtput.symm.trans ((outputPath_eq_self_iff hfile).2 (.inr h)))

theorem toList_output : output.toList = Path.withExtension file.toList ['k', 'b', 'c'] := by
  rw [outputPath, if_neg hfile] at houtput
  rw [← Option.some.inj houtput, String.toList_ofList]

/-- The file of the code cannot be written. -/
theorem of_refused {e : FileError}
    (hwrite : tree.write output (serialize code).toUTF8 = .error e) :
    CompilesBeside tree tree file (.ok source) 1 where
  unwritten _ := ⟨rfl, rfl⟩
  written _ _ _ _ := ⟨output, houtput, .inl ⟨rfl, rfl⟩⟩
  output_eq_iff := outputPath_eq_self_iff hfile
  kept_iff place hplace := by
    refine iff_of_true rfl ?_
    rintro ⟨hextension, hfree, -⟩
    obtain rfl := output_eq hfile houtput hextension
    rw [FileTree.write_of_resolve hplace hfree] at hwrite
    cases hwrite

include hread hcode

/-- Code is written, over its source if that has the same path. -/
theorem of_written (hwrite : tree.write output (serialize code).toUTF8 = .ok tree') :
    CompilesBeside tree tree' file (.ok source) 0 where
  unwritten h := absurd hcode (h source code rfl)
  written source' code' hsource hcode' := by
    obtain rfl := Except.ok.inj hsource
    obtain rfl := Except.ok.inj (hcode.symm.trans hcode')
    obtain ⟨directory, name, hnames, -, rfl⟩ := FileTree.exists_names_of_write hwrite
    exact ⟨output, houtput, .inr ⟨rfl, _, (hnames.put _ _).resolve (by simp), rfl⟩⟩
  output_eq_iff := outputPath_eq_self_iff hfile
  kept_iff place hplace := by
    obtain ⟨directory, name, hnames, hfree, rfl⟩ := FileTree.exists_names_of_write hwrite
    by_cases hsame : output = file
    · subst hsame
      obtain rfl := hnames.eq_of_resolve hplace
      have hextension :=
        ((outputPath_eq_self_iff hfile).1 houtput).resolve_left hnames.name?_ne_none
      refine iff_of_false ?_ (not_not_intro ⟨hextension, hfree, source, code, rfl, hcode⟩)
      obtain ⟨place, hplace', hsource⟩ := FileTree.read_eq_ok_iff.1 hread
      obtain rfl := Except.ok.inj (hplace.symm.trans hplace')
      rw [FileTree.contents?_put_self, hsource]
      intro heq
      exact serialize_ne hcode code (String.toByteArray_inj.1 (Option.some.inj heq))
    · refine iff_of_true ?_ fun h => hsame (output_eq hfile houtput h.1)
      apply FileTree.contents?_put_of_ne
      rintro rfl
      obtain ⟨directory', name', hsource, hplace'⟩ := FileTree.exists_names_of_resolve hplace hfree
      exact hsame (hsource.withExtension_eq hnames (toList_output hfile houtput) (by decide)
        hplace'.symm)

end Written

/-- There is code of the source, so all depends on whether it can be written. -/
theorem of_code (hfile : file ≠ inputPath)
    (hload : (loadSource (FileTree.asFiles input) file).run tree = (.ok source, tree))
    (hread : tree.read file = .ok source.toUTF8) (hcode : Code.ofSource source = .ok code) :
    CompilesBeside tree (after (FileTree.asFiles input) clock tree (.compile file none)).2.system
      file (.ok source) (after (FileTree.asFiles input) clock tree (.compile file none)).1 := by
  obtain ⟨output, houtput⟩ : ∃ output, outputPath file none = some output := ⟨_, if_neg hfile⟩
  have hafter : after (FileTree.asFiles input) clock tree (.compile file none) = _ :=
    run_withCode_ok hload hcode _
  rw [hafter, houtput]
  dsimp only
  have hsystem := run_write_asFiles input tree output (serialize code)
  cases hwrite : tree.write output (serialize code).toUTF8 with
  | ok tree' =>
    rw [hwrite] at hsystem
    rw [run_writeCode_eq hsystem]
    exact .of_written hfile hread hcode houtput hwrite
  | error e =>
    rw [hwrite] at hsystem
    rw [run_writeCode_eq hsystem]
    exact .of_refused hfile houtput hwrite

end CompilesBeside

/-- Compiling a file writes its code to one other file or to none, unless the file has the extension
of code already: then the code replaces its source. -/
theorem compile_writes_beside (input : ByteArray) (clock : StateM FileTree Nat) (tree : FileTree)
    (hfile : file ≠ inputPath) :
    CompilesBeside tree (after (FileTree.asFiles input) clock tree (.compile file none)).2.system
      file ((loadSource (FileTree.asFiles input) file).run tree).1
      (after (FileTree.asFiles input) clock tree (.compile file none)).1 := by
  obtain ⟨loaded, hload, hread⟩ := loadSource_asFiles input tree hfile
  rw [hload]
  cases loaded with
  | error e =>
    have hafter : after (FileTree.asFiles input) clock tree (.compile file none) = _ :=
      run_withSource_error hload _
    rw [hafter]
    apply CompilesBeside.of_unwritten hfile
    intro source code hsource
    cases hsource
  | ok source =>
    cases hcode : Code.ofSource source with
    | error failure =>
      have hafter : after (FileTree.asFiles input) clock tree (.compile file none) = _ :=
        run_withCode_error hload hcode _
      rw [hafter]
      apply CompilesBeside.of_unwritten hfile
      intro source' code hsource hcode'
      obtain rfl := Except.ok.inj hsource
      rw [hcode] at hcode'
      cases hcode'
    | ok code => exact .of_code hfile hload (hread source rfl) hcode

/-- A source with an extension of its own is kept. -/
theorem compile_keeps_kes : "m.kes" ≠ inputPath ∧
    (after (FileTree.asFiles .empty) (pure 0) ⟨[], [(["m.kes"], "print(true)".toUTF8)]⟩
      (.compile "m.kes" none)).2.system.contents? ["m.kes"] = some "print(true)".toUTF8 := by
  have hfile : "m.kes" ≠ inputPath := by decide
  have hbeside := compile_writes_beside .empty (pure 0)
    ⟨[], [(["m.kes"], "print(true)".toUTF8)]⟩ hfile
  have hkept := (hbeside.kept_iff ["m.kes"] rfl).2 fun h =>
    absurd (hbeside.output_eq_iff.2 (.inr h.1)) (by decide)
  exact ⟨hfile, hkept⟩

/-- A source with the extension of code is replaced by its code. -/
theorem compile_overwrites_kbc : "m.kbc" ≠ inputPath ∧ outputPath "m.kbc" none = some "m.kbc" ∧
    (after (FileTree.asFiles .empty) (pure 0) ⟨[], [(["m.kbc"], "print(true)".toUTF8)]⟩
      (.compile "m.kbc" none)).2.system.contents? ["m.kbc"] =
        some "[\n    Push(Bool(true)),\n    Print,\n    Halt,\n]".toUTF8 ∧
    "[\n    Push(Bool(true)),\n    Print,\n    Halt,\n]".toUTF8 ≠ "print(true)".toUTF8 := by
  have htokens : tokenize "print(true)" = [⟨.keyword .printKw, ⟨0, 5⟩⟩,
      ⟨.symbol .leftParen, ⟨5, 6⟩⟩, ⟨.keyword .trueKw, ⟨6, 10⟩⟩,
      ⟨.symbol .rightParen, ⟨10, 11⟩⟩] := by decide +kernel
  have hparse : Program.ofTokens (tokenize "print(true)") =
      .ok [.print (.boolean true ⟨6, 10⟩) ⟨0, 11⟩] := by
    rw [htokens]
    with_unfolding_all rfl
  have hcode : Code.ofSource "print(true)" = .ok #[.push (.boolean true), .print, .halt] := by
    rw [Code.ofSource, Program.ofSource, hparse]
    rfl
  have hload : (loadSource (FileTree.asFiles .empty) "m.kbc").run
      ⟨[], [(["m.kbc"], "print(true)".toUTF8)]⟩ = (.ok "print(true)", _) := rfl
  have hafter : after (FileTree.asFiles .empty) (pure 0)
      ⟨[], [(["m.kbc"], "print(true)".toUTF8)]⟩ (.compile "m.kbc" none) = _ :=
    run_withCode_ok hload hcode _
  refine ⟨by decide, by decide, ?_, by decide⟩
  rw [hafter]
  rfl

end Kestrel
