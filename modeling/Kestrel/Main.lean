import Kestrel.CommandLine.Perform

/-!
# The program

The program carries out the command in its arguments with the files and streams of the machine that
it runs on.
-/

namespace Kestrel

/-- The error that the operating system tells by a number, which some calls give negated. -/
def FileError.ofCode? (code : UInt32) : Option FileError :=
  match min code (0 - code) with
  | 2 => some .notFound
  | 20 => some .notDirectory
  | 21 => some .isDirectory
  | 36 => some .nameTooLong
  | _ => none

/-- What went wrong with a file. -/
def FileError.ofSystem (e : IO.Error) : FileError :=
  let known? := match e with
    | .noFileOrDirectory _ code _ => FileError.ofCode? code
    | .inappropriateType _ code _ => FileError.ofCode? code
    | .invalidArgument _ code _ => FileError.ofCode? code
    | _ => none
  known?.getD (.other (toString e))

/-- Does something with the file of a path, which may not hold the character that ends paths. -/
def withPath {α : Type} (path : String) (act : IO α) : IO (Except FileError α) := do
  if path.toList.contains '\x00' then return .error .nulInPath
  try
    return .ok (← act)
  catch e => return .error (FileError.ofSystem e)

/-- Reads a stream to its end, behind what is already read. -/
partial def readToEnd (stream : IO.FS.Stream) (read : ByteArray) : IO ByteArray := do
  let bytes ← stream.read 65536
  if bytes.isEmpty then return read else readToEnd stream (read ++ bytes)

/-- The files and streams of the machine. -/
def machineWorld : World IO where
  files :=
    { read := fun path => withPath path (IO.FS.readBinFile path)
      write := fun path text => withPath path (IO.FS.writeFile path text)
      input := do readToEnd (← IO.getStdin) .empty }
  out := fun text => do (← IO.getStdout).putStr text
  err := fun text => do (← IO.getStderr).putStr text
  clock := IO.monoNanosNow

end Kestrel

/-- Carries out the command in the arguments; the exit status is two if there is none. -/
def main (arguments : List String) : IO UInt32 :=
  match Kestrel.Command.ofArguments arguments with
  | some command => command.perform Kestrel.machineWorld
  | none => do
    IO.eprintln "error: invalid arguments; see --help"
    return 2
