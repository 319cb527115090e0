import Kestrel.Files.Error

/-!
# Loading sources

A source is read whole, from a file or from the input, and has to be text.

## Main definitions

- `Files` — how files are read and written and the input is read
- `LoadError` — why a source could not be loaded
- `loadFile`, `loadInput` — a source from a file, and one from bytes
- `loadSource` — a source from a file, or from the input under the name `-`
-/

namespace Kestrel

/-- How files are read and written, and how the rest of the input is read. -/
structure Files (m : Type → Type) where
  read : String → m (Except FileError ByteArray)
  write : String → String → m (Except FileError Unit)
  input : m ByteArray

/-- Why the source of a name could not be loaded. -/
structure LoadError where
  path : String
  cause : FileError
  deriving DecidableEq, Repr

def LoadError.message (e : LoadError) : String :=
  "failed to read '" ++ e.path ++ "': " ++ e.cause.message

def inputPath : String := "-"

/-- How messages name the input. -/
def inputName : String := "<stdin>"

/-- How messages name a source. -/
def displayName (path : String) : String :=
  if path = inputPath then inputName else path

def decodeText (bytes : ByteArray) : Except FileError String :=
  match String.fromUTF8? bytes with
  | some text => .ok text
  | none => .error .notText

/-- The source in some bytes, under a name for messages. -/
def loadInput (name : String) (bytes : ByteArray) : Except LoadError String :=
  (decodeText bytes).mapError fun cause => ⟨name, cause⟩

section Loading

variable {m : Type → Type} [Monad m] (files : Files m)

def loadFile (path : String) : m (Except LoadError String) := do
  match ← files.read path with
  | .ok bytes => return loadInput path bytes
  | .error cause => return .error ⟨path, cause⟩

/-- The source under a name: a path, or `-` for the input. -/
def loadSource (path : String) : m (Except LoadError String) := do
  if path = inputPath then return loadInput inputName (← files.input)
  else loadFile files path

end Loading

end Kestrel
