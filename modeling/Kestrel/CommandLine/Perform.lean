import Kestrel.Bytecode.Serialized
import Kestrel.CommandLine.Command
import Kestrel.Files.Loading
import Kestrel.Files.Path
import Kestrel.Program.Json
import Kestrel.Program.Outline
import Kestrel.Run.Staged

/-!
# Carrying out commands

Every command reads a source first. Results go to the output, and what went wrong goes to the error
output.

## Main definitions

- `World` — all that commands can do outside the program
- `outputPath` — where code is written to
- `Command.perform` — carries out a command, with its exit status
-/

namespace Kestrel

/-- What a command can do outside the program: with files and the input, on its two outputs, and
with a clock in nanoseconds. -/
structure World (m : Type → Type) where
  files : Files m
  out : String → m Unit
  err : String → m Unit
  clock : m Nat

/-- Where the code of a file is written to, if no other place is given: beside the file, under
another extension. The input has no such place. -/
def outputPath (file : String) : Option String → Option String
  | some output => some output
  | none =>
    if file = inputPath then none
    else some (String.ofList (Path.withExtension file.toList ['k', 'b', 'c']))

/-- What there is to say about the program as a whole. This text stands for every kind of help: an
option that asks for help, also behind the name of a command, is not answered with a text of its
own. -/
def helpText : String :=
  "Kestrel programming language\n" ++
  "\n" ++
  "Usage: kestrel-cli [FILE] [COMMAND]\n" ++
  "\n" ++
  "Commands:\n" ++
  "  run      Execute a Kestrel script\n" ++
  "  check    Lex, parse and compile a script without executing it\n" ++
  "  compile  Compile a Kestrel script to a .kbc bytecode file\n" ++
  "\n" ++
  "Arguments:\n" ++
  "  [FILE]  The file to run (default if no subcommand), or \"-\" for stdin\n" ++
  "\n" ++
  "Options:\n" ++
  "  -h, --help     Print help\n" ++
  "  -V, --version  Print version\n" ++
  "\n"

/-- The name and the version of the program, without the revision that it was built from. -/
def versionText : String := "kestrel-cli 0.1.0\n"

section Performing

variable {m : Type → Type} [Monad m] (world : World m)

/-- Runs code and writes the lines that it prints. -/
def World.interpret (code : Code) : m Ending := do
  let (execution, lines) := Kestrel.interpret .keeping defaultStepLimit code []
  lines.reverse.forM fun line => world.out (line ++ "\n")
  return execution.ending

/-- The stages of the language, whose programs write to the output. -/
def World.stages : Stages m := .standard world.interpret

/-- Nobody is told of the events of a run. -/
def World.observer : Observer m := ⟨fun _ => pure (), world.clock⟩

/-- Tells of the failure of a stage. -/
def World.reportFailure (failure : StageFailure) (file source : String) : m UInt32 := do
  world.err ((failure.report (displayName file)).render source)
  return 1

/-- Goes on with a source, if it can be loaded. -/
def World.withSource (file : String) (go : String → m UInt32) : m UInt32 := do
  match ← loadSource world.files file with
  | .ok source => go source
  | .error e =>
    world.err ("Error: " ++ e.message ++ "\n")
    return 1

/-- Goes on with the code of a source, if it has any. -/
def World.withCode (file : String) (go : Code → m UInt32) : m UInt32 :=
  world.withSource file fun source => do
    match ← world.stages.code? source with
    | .ok code => go code
    | .error failure => world.reportFailure failure file source

def World.runFile (file : String) (verbose : Bool) : m UInt32 :=
  world.withSource file fun source => do
    let sink (line : String) : m Unit := world.out (line ++ "\n")
    match ← run world.stages world.observer sink ⟨verbose, .propagate⟩ source with
    | .ok () => return 0
    | .error failure => world.reportFailure failure file source

/-- Writes code to a file. All code can be serialized, so only the file can be in the way. -/
def World.writeCode (file output : String) (code : Code) : m UInt32 := do
  match ← world.files.write output (serialize code) with
  | .ok () =>
    world.out ("Compiled '" ++ file ++ "' to '" ++ output ++ "'\n")
    return 0
  | .error e =>
    world.err ("Error writing to '" ++ output ++ "': " ++ e.message ++ "\n")
    return 1

/-- Writes the code of a source to a file. -/
def World.compileFile (file : String) (output? : Option String) : m UInt32 :=
  world.withCode file fun code => do
    match outputPath file output? with
    | some output => world.writeCode file output code
    | none =>
      world.err "Error: Cannot compile from stdin without --output flag\n"
      return 1

/-- Shows a source as a program. All programs can be written as JSON. -/
def World.showProgram (file : String) (json : Bool) : m UInt32 :=
  world.withSource file fun source => do
    match ← world.stages.program? source with
    | .ok program =>
      world.out ((if json then program.json else program.outline) ++ "\n")
      return 0
    | .error failure => world.reportFailure failure file source

def World.showCode (file : String) : m UInt32 :=
  world.withCode file fun code => do
    (listing code).forM fun line => world.out (line ++ "\n")
    return 0

/-- Carries out a command. The exit status is zero if all went well. -/
def Command.perform (command : Command) : m UInt32 :=
  match command with
  | .run file verbose => world.runFile file verbose
  | .check file =>
    world.withCode file fun _ => do
      world.out "Check: OK\n"
      return 0
  | .compile file output? => world.compileFile file output?
  | .ast file json => world.showProgram file json
  | .bytecode file => world.showCode file
  | .help => do
    world.out helpText
    return 0
  | .version => do
    world.out versionText
    return 0

end Performing

end Kestrel
