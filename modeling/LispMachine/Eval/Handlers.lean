/-
Making, signaling and handling errors.
-/
import LispMachine.Eval.Core

namespace LispMachine.Act

/-- signal an error object -/
def signal (th : ThreadId) (args : List Value) : Act Value := do
  let v := arg args 0
  if v.isError then return v.toSignaling else raiseType th "error" v

/-- a quiet user error; without a body its body is nil -/
def makeError (th : ThreadId) (args : List Value) : Act Value := do
  let name ← symbolArg th (arg args 0)
  let body := if arg args 1 = .unset then .nil else arg args 1
  return (← newUserError th name body).value .quiet

def typeError (th : ThreadId) (args : List Value) : Act Value := do
  let wanted ← symbolArg th (arg args 0)
  return (← newError th .type (.symbol wanted) .nil).value .quiet

def plainError (th : ThreadId) (kind : ErrorKind) : Act Value := do
  return (← newError th kind .nil .nil).value .quiet

/-- Go on after an error. A fatal error is passed on; of any other, the quiet error is bound to a symbol while the forms of
`body` run, and without any it is the result itself. -/
def handle (ev : Evaluator) (th : ThreadId) (name : Handle) (body : Value) (c : Cause) : Act Value := do
  let e ← asError th c
  if e.kind.isFatal then raise (.object e)
  else
    note (.caught e name body)
    let caught := e.value .quiet
    withBindings th [name] [caught] (if body = .nil then pure caught else evalBody ev th body)

/-- evaluate a form and handle its error -/
def catching (ev : Evaluator) (th : ThreadId) (name : Handle) (form body : Value) : Act Value := do
  match ← attempt (ev.eval form .value) with
  | .ok v => return v
  | .error c => handle ev th name body c

/-- evaluate the first argument and catch its error, bound to the second argument, with the remaining forms -/
def catchError (ev : Evaluator) (th : ThreadId) (args : List Value) : Act Value := do
  let name ← symbolArg th (arg args 1)
  catching ev th name (arg args 0) (arg args 2)

end LispMachine.Act
