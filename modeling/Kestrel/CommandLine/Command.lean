import Kestrel.CommandLine.Arguments

/-!
# Commands

## Main definitions

- `Command` — what can be asked of the program
- `Command.ofArguments` — the command in some arguments

## Design notes

Without the name of a command, a file is run. A file in front of the name of a command is not looked
at. The name of a command is one only where it is not needed otherwise: behind a command, and behind
two dashes, it is the name of a file.
-/

namespace Kestrel

/-- What can be asked of the program. -/
inductive Command where
  /-- Run a file, and perhaps trace every stage. -/
  | run (file : String) (verbose : Bool)
  /-- See whether a file has code. -/
  | check (file : String)
  /-- Write the code of a file to another one. -/
  | compile (file : String) (output? : Option String)
  /-- Show a file as a program, as an outline or as JSON. -/
  | ast (file : String) (json : Bool)
  /-- Show the code of a file. -/
  | bytecode (file : String)
  /-- Show the help text. -/
  | help
  /-- Show the version. -/
  | version
  deriving DecidableEq, Repr

/-- A command that is named: its options, and what it is with what was given to it. -/
structure CommandForm where
  options : Options
  command : String → Given → Command

namespace CommandForm

def run : CommandForm :=
  ⟨⟨some ⟨['v', 'e', 'r', 'b', 'o', 's', 'e'], some 'v'⟩, none⟩, fun file given => .run file given.isOn⟩

def check : CommandForm := ⟨⟨none, none⟩, fun file _ => .check file⟩

def compile : CommandForm :=
  ⟨⟨none, some ⟨['o', 'u', 't', 'p', 'u', 't'], some 'o'⟩⟩,
    fun file given => .compile file given.value?⟩

def ast : CommandForm :=
  ⟨⟨some ⟨['j', 's', 'o', 'n'], none⟩, none⟩, fun file given => .ast file given.isOn⟩

def bytecode : CommandForm := ⟨⟨none, none⟩, fun file _ => .bytecode file⟩

def ofName? : String → Option CommandForm
  | "run" => some run
  | "check" => some check
  | "compile" => some compile
  | "ast" => some ast
  | "bytecode" => some bytecode
  | _ => none

/-- The command that the arguments behind a name make. -/
def read (form : CommandForm) (arguments : List String) : Except Refusal Command := do
  let given ← form.options.read .nothing arguments
  match given.file? with
  | some file => return form.command file given
  | none => throw .usage

end CommandForm

namespace Command

/-- The command that a file makes by itself, if there is one. -/
def ofFile? : Option String → Command
  | some file => .run file false
  | none => .help

/-- The command in the arguments that follow a file, if there was one. -/
def read (given : Given) : List String → Except Refusal Command
  | [] => .ok (ofFile? given.file?)
  | argument :: rest =>
    match CommandForm.ofName? argument with
    | some form => form.read rest
    | none =>
      match Argument.of argument.toList with
      | .onlyNames => do return ofFile? (← rest.foldlM Given.takeFile given).file?
      | .plain => do read (← given.takeFile argument) rest
      | .long name none =>
        .error (if name = ['v', 'e', 'r', 's', 'i', 'o', 'n'] then .version else askedByName name)
      | .short (letter :: _) => .error (if letter = 'V' then .version else askedByLetter letter)
      | _ => .error .usage

/-- The command in some arguments; there is none if they cannot be understood, whatever the reason
is. Where help is asked for makes no difference. -/
def ofArguments (arguments : List String) : Option Command :=
  match read .nothing arguments with
  | .ok command => some command
  | .error .help => some .help
  | .error .version => some .version
  | .error .usage => none

end Command

end Kestrel
