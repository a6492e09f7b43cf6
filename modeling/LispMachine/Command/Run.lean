/-
A run of the program.

The manifest is loaded and put into effect, the primitives are installed, and then the files to load first, the scripts
and, if it is asked for or there are no scripts, the standard input or the interactive loop are run on one thread.
Scripts that run in parallel have a thread each. The first file that cannot be opened ends the run. A report is written
at the end, however the run ends.
-/
import LispMachine.Command.Interactive
import LispMachine.Command.Options
import LispMachine.Stats.Report

namespace LispMachine.Command

variable {m : Type → Type} [Monad m]

/-- end with an error message and the exit code for errors -/
def complain (host : Host m) (text : String) : m Nat := do
  host.putErr ("Error: " ++ text ++ "\n")
  return 1

/-- run files in order with a way to run one; the result is the exit code of the first that fails -/
def runFiles (host : Host m) (one : List UInt8 → Act Unit) : List String → StateT Machine m (Option Nat)
  | [] => return none
  | path :: paths => do
    match ← host.load path with
    | .error problem => return some (← (complain host (problem.onLoad path) : m Nat))
    | .ok bytes =>
      match ← host.perform (one bytes) with
      | .error f => return some (← Interactive.report host f)
      | .ok _ => runFiles host one paths

/-- Run every file with a way to run one; the result is the message and the exit code of the first that fails. What is
written to be looked at while a file runs is passed on at once; results and errors are held back until all have ended. -/
def runEvery (host : Host m) (one : List UInt8 → Act Unit) :
    List String → List (Channel × String) → StateT Machine m (Option (String × Nat))
  | [], held => do
    host.emit held
    return none
  | path :: paths, held => do
    let (failed, written) ← match ← host.load path with
      | .error problem => pure (some ("Error: " ++ problem.onLoad path ++ "\n", 1), [])
      | .ok bytes => do
        match ← Host.capture (one bytes) with
        | (.error f, written) => pure (some (Interactive.failure (← get) f), written)
        | (.ok _, written) => pure (none, written)
    host.emit (written.filter (·.1 = .debug))
    return failed <|> (← runEvery host one paths (held ++ written.filter (·.1 ≠ .debug)))

/-- run the scripts; the result is an exit code if one of them fails -/
def runScripts (host : Host m) (fuel : Nat) (th : ThreadId) (o : Options) : StateT Machine m (Option Nat) := do
  if o.parallel then
    match ← runEvery host (fun bytes => Act.replRun fuel false (.ofBytes bytes)) o.scripts [] with
    | none => return none
    | some (text, code) =>
      host.putErr text
      return some code
  else runFiles host (fun bytes => Act.replLoop fuel th false (.ofBytes bytes)) o.scripts

/-- run the standard input, without prompts or as the interactive loop -/
def runInput (host : Host m) (fuel : Nat) (th : ThreadId) (o : Options) (manifest : Manifest) :
    StateT Machine m Nat := do
  if o.noPrompt then
    let bytes ← host.readInput
    match ← host.perform (Act.replLoop fuel th false (.ofBytes bytes)) with
    | .error f => Interactive.report host f
    | .ok _ => return 0
  else Interactive.run host fuel th manifest

/-- what runs once the machine is configured -/
def runMachine (host : Host m) (fuel : Nat) (o : Options) (manifest : Manifest) : StateT Machine m Nat := do
  match ← host.perform Act.install with
  | .error (.raised c) =>
    host.putErr ("Error installing builtins: " ++ c.text ++ "\n")
    return 1
  | .error f => Interactive.report host f
  | .ok _ =>
    match ← host.perform Act.openDefaultThread with
    | .error f => Interactive.report host f
    | .ok th =>
      match ← runFiles host (fun bytes => Act.replLoop fuel th false (.ofBytes bytes)) manifest.preloadPaths with
      | some code => return code
      | none =>
        match ← runScripts host fuel th o with
        | some code => return code
        | none => if o.interactive ∨ o.scripts = [] then runInput host fuel th o manifest else return 0

/-- write the report, if a file is given for it -/
def writeReport (host : Host m) (path : String) : StateT Machine m Unit := do
  if path ≠ "" then
    match ← host.save path (← get).report.encode with
    | .ok _ => pure ()
    | .error problem => host.putErr ("Error writing GC stats: " ++ problem.onSave path ++ "\n")

/-- configure the machine, run, and write the report -/
def runConfigured (host : Host m) (fuel : Nat) (o : Options) (manifest : Manifest) (r : Request) :
    StateT Machine m Nat := do
  let _ ← host.perform (Act.configure r)
  let code ← runMachine host fuel o manifest
  writeReport host o.statsFile
  return code

/-- run the program with its arguments; the result is the exit code -/
def run (host : Host m) (args : List String) : m Nat := do
  match Options.parse {} args with
  | .error e =>
    host.putErr (e.text ++ Options.usage)
    return e.exitCode
  | .ok o =>
    match ← host.manifest o.config with
    | .error e => complain host e.text
    | .ok manifest =>
      match manifest.request with
      | .error e => complain host e.text
      | .ok r => do
        let (code, _) ← (runConfigured host Repl.defaultFuel o manifest r).run Machine.initial
        return code

end LispMachine.Command
