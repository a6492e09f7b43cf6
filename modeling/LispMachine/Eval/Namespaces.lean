/-
Scopes as values: making them, reaching into them, and running code with one in place of the global scope.
-/
import LispMachine.Eval.Core

namespace LispMachine.Act

/-- bind the entries of a contents list, each a symbol and a form -/
def fillScope (ev : Evaluator) (th : ThreadId) (scope : Handle) : List Saved → Act Unit
  | [] => pure ()
  | entry :: entries => do
    let entry ← retrieve entry
    match ← listArg th entry with
    | [name, form] =>
      let sym ← symbolArg th name
      let v ← ev.eval form .value
      withErrorObjects th (bind scope sym v)
      fillScope ev th scope entries
    | _ => raiseError th .improperList entry .nil

/-- the name asked for, if any -/
def nameArg (th : ThreadId) (v : Value) : Act (Option Handle) := do
  if v = .unset then return none else return some (← symbolArg th v)

/-- The parent asked for. A parent of nil means none; anything else that is not a scope means the global scope. -/
def parentArg (ev : Evaluator) (g : Handle) (form : Value) : Act (Option Handle) := do
  if form = .unset then return some g
  else
    let p ← ev.eval form .value
    match ← asScope p with
    | some h => return some h
    | none => return if p = .nil then none else some g

/-- bind a scope to its name in the thread's global scope, if it has one -/
def publish (th : ThreadId) (scope : Handle) : Option Handle → Act Unit
  | some sym => withErrorObjects th (do bind (← globalScope th) sym (.scope scope))
  | none => pure ()

/-- make a scope from its name, contents and parent, all optional; a name is bound globally -/
def makeScope (ev : Evaluator) (th : ThreadId) (args : List Value) : Act Value := do
  let name ← nameArg th (arg args 0)
  let g ← globalScope th
  let parent ← parentArg ev g (arg args 2)
  let scope ← newScope th name parent
  if arg args 1 ≠ .unset then fillScope ev th scope (← formsArg th (arg args 1))
  publish th scope name
  return .scope scope

/-- the scope that a form evaluates to -/
def evalScope (ev : Evaluator) (th : ThreadId) (form : Value) : Act Handle := do
  scopeArg th (← ev.eval form .value)

/-- a reference to a symbol's binding as seen from a scope, made there if none is visible -/
def nref (ev : Evaluator) (th : ThreadId) (args : List Value) : Act Value := do
  let scope ← evalScope ev th (arg args 0)
  let sym ← symbolArg th (arg args 1)
  withErrorObjects th (bindingFrom scope sym)

def withScope (ev : Evaluator) (th : ThreadId) (args : List Value) : Act Value := do
  let scope ← evalScope ev th (arg args 0)
  withGlobal th scope (evalBody ev th (arg args 1))

end LispMachine.Act
