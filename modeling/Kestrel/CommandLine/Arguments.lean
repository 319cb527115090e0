/-!
# Command line arguments

A command takes the name of a file and, depending on the command, an option that is on or off or an
option with a value. Options have a long name behind two dashes, and they may have a short one, a
letter behind one dash. A single dash is no option but a name.

## Main definitions

- `Refusal` — why arguments have no meaning as they stand
- `Argument` — what a single argument looks like
- `Options`, `Given` — the options that a command knows, and what was given to it
- `Options.read` — the meaning of some arguments for a command

## Design notes

Letters may share a dash: all but the last have to be options without a value, and what follows an
option with a value is its value, behind an equals sign or not. Without a value of its own an option
takes the next argument, unless that looks like an option. Nothing may be given twice. Behind two
dashes alone, every argument is a name.
-/

namespace Kestrel

/-- Why arguments are not carried out as a command. -/
inductive Refusal where
  /-- They cannot be understood. -/
  | usage
  /-- They ask for the help text. -/
  | help
  /-- They ask for the version. -/
  | version
  deriving DecidableEq, Repr

/-- What a single argument looks like. -/
inductive Argument where
  /-- Two dashes: only names follow. -/
  | onlyNames
  /-- The name of a long option, perhaps with a value. -/
  | long (name : List Char) (value? : Option (List Char))
  /-- The letters of short options. -/
  | short (letters : List Char)
  /-- No option. -/
  | plain
  deriving DecidableEq, Repr

/-- The look of an argument. -/
def Argument.of : List Char → Argument
  | ['-', '-'] => .onlyNames
  | '-' :: '-' :: rest =>
    match rest.span (· != '=') with
    | (name, []) => .long name none
    | (name, _ :: value) => .long name (some value)
  | '-' :: c :: rest => .short (c :: rest)
  | _ => .plain

/-- How an option is called. -/
structure OptionName where
  long : List Char
  short? : Option Char

/-- The options that a command knows: one that is on or off, and one that has a value. -/
structure Options where
  switch? : Option OptionName
  valued? : Option OptionName

/-- What was given to a command. -/
structure Given where
  file? : Option String
  isOn : Bool
  value? : Option String
  deriving DecidableEq, Repr

namespace Given

def nothing : Given := ⟨none, false, none⟩

def takeFile (given : Given) (file : String) : Except Refusal Given :=
  if given.file?.isSome then .error .usage else .ok { given with file? := some file }

/-- Takes the option that is on or off. -/
def turnOn (given : Given) : Except Refusal Given :=
  if given.isOn then .error .usage else .ok { given with isOn := true }

/-- Takes the value of the option that has one. -/
def takeValue (given : Given) (value : List Char) : Except Refusal Given :=
  if given.value?.isSome then .error .usage
  else .ok { given with value? := some (String.ofList value) }

end Given

/-- What an option that every command knows asks for. -/
def askedByName (name : List Char) : Refusal :=
  if name = ['h', 'e', 'l', 'p'] then .help else .usage

@[inherit_doc askedByName]
def askedByLetter (letter : Char) : Refusal :=
  if letter = 'h' then .help else .usage

/-- What is known after an option: all about it, or all but its value. -/
inductive Progression where
  | complete (given : Given)
  | awaitsValue (given : Given)

namespace Options

/-- Takes a long option, perhaps with a value. -/
def takeLong (options : Options) (given : Given) (name : List Char) (value? : Option (List Char)) :
    Except Refusal Progression :=
  let isCalled (option : OptionName) : Bool := option.long == name
  if options.switch?.any isCalled then
    match value? with
    | none => .complete <$> given.turnOn
    | some _ => .error .usage
  else if options.valued?.any isCalled then
    match value? with
    | none => .ok (.awaitsValue given)
    | some value => .complete <$> given.takeValue value
  else .error (askedByName name)

/-- Takes the options of some letters. -/
def takeShort (options : Options) : Given → List Char → Except Refusal Progression
  | given, [] => .ok (.complete given)
  | given, letter :: rest =>
    let isCalled (option : OptionName) : Bool := option.short? == some letter
    if options.switch?.any isCalled then do takeShort options (← given.turnOn) rest
    else if options.valued?.any isCalled then
      match rest with
      | [] => .ok (.awaitsValue given)
      | '=' :: value => .complete <$> given.takeValue value
      | value => .complete <$> given.takeValue value
    else .error (askedByLetter letter)

/-- What some arguments give to a command with these options, beside what was given before. -/
def read (options : Options) : Given → List String → Except Refusal Given
  | given, [] => .ok given
  | given, argument :: rest => do
    let progression ← match Argument.of argument.toList with
      | .onlyNames => return ← rest.foldlM Given.takeFile given
      | .plain => .complete <$> given.takeFile argument
      | .long name value? => options.takeLong given name value?
      | .short letters => options.takeShort given letters
    match progression, rest with
    | .complete given, rest => read options given rest
    | .awaitsValue _, [] => throw .usage
    | .awaitsValue given, value :: rest =>
      match Argument.of value.toList with
      | .plain => do read options (← given.takeValue value.toList) rest
      | _ => throw .usage

end Options

end Kestrel
