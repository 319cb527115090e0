import Kestrel.Files.Loading
import Kestrel.Run.Staged

/-!
# Runs of files

## Main definitions

- `RunError` — why a file was not run to its end
- `runFile` — loads a file and runs it

## Design notes

The policy of a run is about the failures of stages. A file that cannot be loaded is told of under
every policy.
-/

namespace Kestrel

/-- Why a file was not run to its end. -/
inductive RunError where
  | load (e : LoadError)
  | stage (failure : StageFailure)
  deriving DecidableEq, Repr

/-- Loads a file and runs it. -/
def runFile {m : Type → Type} [Monad m] (files : Files m) (stages : Stages m)
    (observer : Observer m) (sink : String → m Unit) (config : RunConfig) (path : String) :
    m (Except RunError Unit) := do
  match ← loadFile files path with
  | .error e => return .error (.load e)
  | .ok source => return (← run stages observer sink config source).mapError .stage

end Kestrel
