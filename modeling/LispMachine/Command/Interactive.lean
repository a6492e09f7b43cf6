/-
The interactive loop.

Lines are read until they hold only whole forms, which are then evaluated together. A few words that begin with a colon
are commands of the loop itself. What was evaluated is kept in a history file, one entry a line.
-/
import LispMachine.Command.Host
import LispMachine.Command.Line
import LispMachine.Repl.Loop
import LispMachine.Text.Blank
import LispMachine.Text.Control

namespace LispMachine

/-! ## History -/

namespace History

/-- the most entries that are kept -/
def limit : Nat := 1000

/-- the latest entries, as many as are kept -/
def latest (entries : Array (List UInt8)) : Array (List UInt8) := entries.extract (entries.size - limit) entries.size

/-- add an entry, unless it repeats the last -/
def add (entries : Array (List UInt8)) (entry : List UInt8) : Array (List UInt8) :=
  if entries.back? = some entry then entries else latest (entries.push entry)

/-- the entries of a history file, up to a line that is too long or not a text; the fuel bounds their number -/
def readFrom : Nat → List UInt8 → Array (List UInt8) → Array (List UInt8)
  | 0, _, entries => entries
  | _ + 1, [], entries => entries
  | fuel + 1, bs, entries =>
    let t := Line.take bs
    if t.isPart ∨ (decodeText? t.line).isNone then entries
    else readFrom fuel t.rest (latest (entries.push t.line))

def read (bs : List UInt8) : Array (List UInt8) := readFrom bs.length bs #[]

/-- the contents of a history file -/
def write (entries : Array (List UInt8)) : List UInt8 := entries.toList.flatMap fun e => e ++ [10]

end History

/-! ## Commands of the loop -/

inductive LoopCommand where
  | help
  | quit
  | gc
  | stats
deriving DecidableEq, Repr

def LoopCommand.ofText? (s : String) : Option LoopCommand :=
  if s = ":help" ∨ s = ":h" ∨ s = ":?" then some .help
  else if s = ":quit" ∨ s = ":q" then some .quit
  else if s = ":gc" then some .gc
  else if s = ":stats" then some .stats
  else none

namespace Interactive

def banner : String := "phoebe REPL (Ctrl+D exits, :help for commands)\n"

/-- the prompt in the middle of a form -/
def continuation : String := "...     "

def helpText : String :=
"REPL Commands:
  :help, :h, :?     Show this help
  :gc               Run a collection and show its statistics
  :stats            Show the collector state
  :quit, :q         Exit REPL
"

def passText (p : Pass) (elapsed : Duration) : String :=
  s!"pass {p.epoch}: {p.roots} roots, {p.swept} swept, {p.survivors} survivors in {elapsed.text}\n"

def statsText (m : Machine) : String :=
  s!"state {m.collector.phase.name}, epoch {m.collector.epoch}, {m.collector.passes} passes, " ++
    s!"threshold {m.collector.threshold}, {m.heap.alive} live objects\n"

/-- how a failed action ends the program: its message and the exit code -/
def failure (machine : Machine) (f : Failure) : String × Nat :=
  match f with
  | .raised c =>
    match Act.messageOf c machine with
    | .ok text _ => ("Error: " ++ text ++ "\n", 1)
    | .error _ _ => ("Error: " ++ c.text ++ "\n", 1)
  | .fault f => ("panic: " ++ f.text ++ "\n", 2)
  | .outOfFuel => ("panic: out of fuel\n", 2)

variable {m : Type → Type} [Monad m]

/-- report a failure and give its exit code -/
def report (host : Host m) (f : Failure) : StateT Machine m Nat := do
  let (text, code) := failure (← get) f
  host.putErr text
  return code

/-- run a command of the loop; true ends it -/
def runCommand (host : Host m) : LoopCommand → StateT Machine m Bool
  | .help => do
    host.putOut helpText
    return false
  | .quit => return true
  | .gc => do
    let start ← host.clock
    match ← host.perform (Act.collect .explicit) with
    | .ok p => host.putOut (passText p ((← host.clock) - start))
    | .error _ => pure ()
    return false
  | .stats => do
    host.putOut (statsText (← get))
    return false

/-- a text without leading and trailing white space, for comparison with the commands -/
def trimmed (code : List UInt8) : String :=
  Text.trim (String.ofList ((Text.Rune.decode code).map Text.Rune.toChar))

/-- what becomes of the loop after some input -/
inductive Turn where
  | continue (history : Array (List UInt8))
  | stop (code : Nat)

/-- handle whole forms -/
def turn (host : Host m) (fuel : Nat) (th : ThreadId) (history : Array (List UInt8)) (code : List UInt8) :
    StateT Machine m Turn := do
  let text := trimmed code
  if text = "" then return .continue history
  else match LoopCommand.ofText? text with
    | some c => return if ← runCommand host c then .stop 0 else .continue history
    | none =>
      match ← host.perform (Act.replLoop fuel th false (.ofBytes code)) with
      | .error f => return .stop (← report host f)
      | .ok _ => return .continue (History.add history (code.map fun b => if b = 10 then 32 else b))

/-- Read lines and handle them. `unread` is the rest of a line that was too long, `pending` the lines of a form that is
not whole yet. The first number bounds the lines; the result is the exit code with the history. -/
def converse (host : Host m) (fuel : Nat) (th : ThreadId) (prompt : String) :
    Nat → List UInt8 → List UInt8 → Array (List UInt8) → StateT Machine m (Nat × Array (List UInt8))
  | 0, _, _, history => return (0, history)
  | n + 1, unread, pending, history => do
    host.putOut (if pending.isEmpty then prompt else continuation)
    let input ← if unread.isEmpty then host.readLine else pure unread
    if input.isEmpty then
      host.putOut "\n"
      return (0, history)
    else
      let t := Line.take input
      let code := if pending.isEmpty then t.line else pending ++ 10 :: t.line
      match ← host.perform (Act.isComplete th (.ofBytes code)) with
      | .error f => return (← report host f, history)
      | .ok false => converse host fuel th prompt n t.rest code history
      | .ok true =>
        match ← turn host fuel th history code with
        | .stop exit => return (exit, history)
        | .continue history => converse host fuel th prompt n t.rest [] history

/-- more lines than can be read -/
def lineLimit : Nat := 0x1000000000000000

/-- the loop from its start; a prompt that shows nothing in some place ends it as the end of the input does -/
def start (host : Host m) (fuel : Nat) (th : ThreadId) (prompt : String) (history : Array (List UInt8)) :
    StateT Machine m (Nat × Array (List UInt8)) := do
  if prompt.toList.any Text.isControl then
    host.putOut "\n"
    return (0, history)
  else converse host fuel th prompt lineLimit [] [] history

/-- the interactive loop with its history -/
def run (host : Host m) (fuel : Nat) (th : ThreadId) (manifest : Manifest) : StateT Machine m Nat := do
  host.putOut banner
  let path := manifest.historyPath (← host.getVariable "HOME")
  let history := match ← host.load path with
    | .ok bytes => History.read bytes
    | .error _ => #[]
  let (code, history) ← start host fuel th manifest.prompt history
  let _ ← host.save path (History.write history)
  return code

end Interactive

end LispMachine
