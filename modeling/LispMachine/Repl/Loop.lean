/-
The read-eval-print loop.

Each form of a source text is read, evaluated and printed: results to one channel, errors of reading and of evaluation to
another, one line each. An error does not end the loop; a write that is refused and a heap that is full while reading
do. What a step pins is dropped when it ends.
-/
import LispMachine.Repl.Install

namespace LispMachine

open Source

namespace Repl

def prompt : String := "phoebe> "

/-- the fuel of an evaluation when nothing else is asked for -/
def defaultFuel : Nat := 0x1000000000000000

end Repl

namespace Act

/-- the message of an error inside other output: a fault is part of the text -/
def errorMessageIn (e : HeldError) : Act String := do
  match ← observe (errorMessage e) with
  | .ok s => return s
  | .error (.fault .endless) => fault .endless
  | .error (.fault f) => return Render.unprintable "v" "Error" f
  | .error e => throw e

/-- print a result or an error, each to its channel -/
def report : Except Cause Value → Act Unit
  | .ok v => do write .out ((← printIn "v" v) ++ "\n")
  | .error (.object e) => do write .err ((← errorMessageIn e) ++ "\n")
  | .error c => write .err (c.text ++ "\n")

/-- evaluate a form and print what comes of it -/
def evalPrint (fuel : Nat) (th : ThreadId) (form : Value) : Act Unit := do
  report (← attempt (evalTopLevel fuel th form))

/-- handle what one reading found; a form that was read goes to `take` -/
def onReading (th : ThreadId) (take : Value → Act Unit) : Reading → Act Unit
  | .finished _ => pure ()
  | .failed cause begun _ => do
    let _ ← buildForms th begun
    write .err (cause.message ++ "\n")
  | .form f _ => do take (← buildForm th f)

/-- handle what one reading found, and drop what that has pinned -/
def replStep (fuel : Nat) (th : ThreadId) (reading : Reading) : Act Unit := do
  let _ ← guarded th do
    onReading th (evalPrint fuel th) reading
    return .nil

/-- read, evaluate and print every form of a text -/
def replLoop (fuel : Nat) (th : ThreadId) (showPrompt : Bool) (c : Cursor) : Act Unit := do
  if showPrompt then write .out Repl.prompt
  let reading := c.read
  if _h : reading.isFinished then return
  else
    replStep fuel th reading
    replLoop fuel th showPrompt reading.after
termination_by c.rest.length
decreasing_by exact Cursor.read_length (by simpa using _h)

/-- install the primitives and run the loop on a thread of its own -/
def replRun (fuel : Nat) (showPrompt : Bool) (c : Cursor) : Act Unit := do
  install
  let th ← openDefaultThread
  andThen (replLoop fuel th showPrompt c) (closeThread th)

/-- put the forms of a text on the heap up to the first that cannot be read, and say whether the text is whole -/
def completeFrom (th : ThreadId) (c : Cursor) : Act Bool := do
  match _h : c.read with
  | .finished _ => return true
  | .failed cause begun _ =>
    let _ ← buildForms th begun
    return !cause.isCutOff
  | .form f after =>
    let _ ← buildForm th f
    completeFrom th after
termination_by c.rest.length
decreasing_by exact Cursor.read_form_length _h

/-- whether a text holds only whole forms, so that a front end need not wait for more lines -/
def isComplete (th : ThreadId) (c : Cursor) : Act Bool := do
  let g ← openGuard th
  let r ← observe (completeFrom th c)
  let outcome : Except Failure Value := match r with
    | .ok _ => .ok .nil
    | .error e => .error e
  let _ ← attempt (closeGuard th g outcome)
  match r with
  | .ok complete => return complete
  | .error _ => return true

end Act

end LispMachine
