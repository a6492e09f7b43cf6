/-
What the program needs of the system it runs on.

The program is written over any monad that has these operations, so it can run on a real system and on a made-up one.
Results and errors that an action of the machine has written are passed on when the action has ended.
-/
import LispMachine.Manifest.Settings

namespace LispMachine

structure Host (m : Type → Type) where
  /-- the value of an environment variable -/
  getVariable : String → m (Option String)
  workingDirectory : m String
  /-- the contents of a file -/
  load : String → m (Except FileProblem (List UInt8))
  /-- write a file -/
  save : String → List UInt8 → m (Except FileProblem Unit)
  /-- the next line of the standard input with its line feed; empty at the end -/
  readLine : m (List UInt8)
  /-- what is left of the standard input -/
  readInput : m (List UInt8)
  putOut : String → m Unit
  putErr : String → m Unit
  /-- a clock that counts nanoseconds -/
  clock : m Int

/-- the text that a byte string encodes, if it encodes one -/
def decodeText? (bs : List UInt8) : Option String := String.fromUTF8? ⟨bs.toArray⟩

namespace Host

variable {m : Type → Type} [Monad m]

/-- pass on what was written -/
def emit (host : Host m) : List (Channel × String) → m Unit
  | [] => pure ()
  | (.out, s) :: rest => do
    host.putOut s
    emit host rest
  | (_, s) :: rest => do
    host.putErr s
    emit host rest

/-- run an action of the machine; the result is its outcome with what it has written -/
def capture {α : Type} (x : Act α) : StateT Machine m (Except Failure α × List (Channel × String)) := do
  let r ← modifyGet fun machine =>
    match x machine with
    | .ok a machine => (.ok a, machine)
    | .error e machine => (.error e, machine)
  let written ← modifyGet fun machine =>
    (machine.console.written.toList, { machine with console := { machine.console with written := #[] } })
  return (r, written)

/-- run an action of the machine and pass on what it writes -/
def perform {α : Type} (host : Host m) (x : Act α) : StateT Machine m (Except Failure α) := do
  let (r, written) ← capture x
  host.emit written
  return r

/-! ## The manifest -/

/-- the environment variables that settings may come from -/
def variableNames : List String :=
  ["PHOEBE_STACK_CAPACITY", "PHOEBE_LOG_VERBOSITY", "PHOEBE_GC_THRESHOLD", "PHOEBE_GC_INTERVAL", "PHOEBE_GC_MODE",
    "PHOEBE_ALLOCATOR", "PHOEBE_HISTORY"]

def environment (host : Host m) : m Manifest.Environment := do
  let values ← variableNames.mapM host.getVariable
  let table := variableNames.zip values
  return fun name => (table.lookup name).join

/-- the manifest in a directory -/
def loadManifest (host : Host m) (dir : String) : m (Except ManifestError Manifest) := do
  match ← host.load (Manifest.pathIn dir) with
  | .error problem => return .error (.unreadable (Manifest.pathIn dir) problem)
  | .ok bytes => return Manifest.ofText (← host.environment) (← host.workingDirectory) dir (decodeText? bytes)

/-- the manifest in the first of some directories that has one -/
def findManifest (host : Host m) : List String → m (Option (Except ManifestError Manifest))
  | [] => pure none
  | dir :: dirs => do
    match ← host.load (Manifest.pathIn dir) with
    | .ok _ | .error .isDirectory => some <$> host.loadManifest dir
    | .error _ => findManifest host dirs

/-- the manifest in the given directory; if it is empty, in the working directory or one around it, or the defaults -/
def manifest (host : Host m) (dir : String) : m (Except ManifestError Manifest) := do
  if dir ≠ "" then host.loadManifest dir
  else match ← host.findManifest (Path.ancestors (← host.workingDirectory)) with
    | some r => return r
    | none => return Manifest.withoutFile (← host.environment)

end Host

end LispMachine
