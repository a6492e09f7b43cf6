/-
Special forms: control flow, binding, definition and assignment. They get their arguments unevaluated.
-/
import LispMachine.Eval.Core

namespace LispMachine.Act

/-! ## Control flow -/

/-- evaluate the tests of the clauses in turn; the first that holds runs the rest of its clause -/
def condClauses (ev : Evaluator) (th : ThreadId) : List Saved → Act Value
  | [] => pure .nil
  | clause :: clauses => do
    let clause ← retrieve clause
    match ← asCons clause with
    | none => raiseError th .improperList clause .nil
    | some c =>
      let test ← ev.eval (← carOf c) .value
      if test.truthy then
        let body ← cdrOf c
        if body = .nil then return test else evalBody ev th body
      else condClauses ev th clauses

def cond (ev : Evaluator) (th : ThreadId) (args : List Value) : Act Value := do
  condClauses ev th (← formsArg th (arg args 0))

def ifElse (ev : Evaluator) (th : ThreadId) (args : List Value) : Act Value := do
  let test ← ev.eval (arg args 0) .value
  if test.truthy then ev.eval (arg args 1) .value else evalBody ev th (arg args 2)

def whenTrue (ev : Evaluator) (th : ThreadId) (args : List Value) : Act Value := do
  let test ← ev.eval (arg args 0) .value
  if test.truthy then evalBody ev th (arg args 1) else return .nil

/-- the value is that of the test when it holds -/
def unlessTrue (ev : Evaluator) (th : ThreadId) (args : List Value) : Act Value := do
  let test ← ev.eval (arg args 0) .value
  if test.truthy then return test else evalBody ev th (arg args 1)

/-! ## Binding -/

/-- the symbols and the values of the bindings of a `let`; every value is evaluated outside the new scope -/
def letBindings (ev : Evaluator) (th : ThreadId) : List Saved → List Handle → List Value →
    Act (List Handle × List Value)
  | [], syms, vals => pure (syms.reverse, vals.reverse)
  | b :: bs, syms, vals => do
    let b ← retrieve b
    match ← listArg th b with
    | [name, form] =>
      let sym ← symbolArg th name
      let v ← ev.eval form .value
      letBindings ev th bs (sym :: syms) (v :: vals)
    | _ => raiseError th .improperList b .nil

def letIn (ev : Evaluator) (th : ThreadId) (args : List Value) : Act Value := do
  let (syms, vals) ← letBindings ev th (← formsArg th (arg args 0)) [] []
  withBindings th syms vals (evalBody ev th (arg args 1))

/-! ## Definition -/

def lambda (th : ThreadId) (args : List Value) : Act Value := do
  let scope ← scopeForFunction th
  withErrorObjects th (newFunction th none (arg args 0) (arg args 1) (some scope))

/-- bind a function to its name in the thread's global scope -/
def defun (th : ThreadId) (args : List Value) : Act Value := do
  let name ← symbolArg th (arg args 0)
  let scope ← scopeForFunction th
  withErrorObjects th do
    let f ← newFunction th (some name) (arg args 1) (arg args 2) (some scope)
    bind (← globalScope th) name f
    return f

/-- the value of an optional form, unset when there is none -/
def optionalValue (ev : Evaluator) (form : Value) : Act Value :=
  if form = .unset then pure .unset else ev.eval form .value

/-- give a variable of the thread's global scope a value, unless it has one; the result is a reference to it -/
def defvar (ev : Evaluator) (th : ThreadId) (args : List Value) : Act Value := do
  let name ← symbolArg th (arg args 0)
  let g ← globalScope th
  let r ← withErrorObjects th (bindingIn g name)
  if (← deref r) ≠ .unset then return r
  else
    let v ← optionalValue ev (arg args 1)
    withErrorObjects th (storeThrough r v)
    return r

def boundp (th : ThreadId) (args : List Value) : Act Value := do
  let sym ← symbolArg th (arg args 0)
  let g ← globalScope th
  return .ofBool ((← get).lookup? g sym).isSome

/-! ## Assignment -/

/-- Evaluate the place, then the value, and store. Evaluating the value may move the binding of a symbol into a box, so a
symbol is looked up again. -/
def setf (ev : Evaluator) (th : ThreadId) (args : List Value) : Act Value := do
  let place := arg args 0
  let r ← ev.eval place .place
  let v ← ev.eval (arg args 1) .value
  let r ← match ← asSymbol place with
    | some _ => ev.eval place .place
    | none => pure r
  withErrorObjects th (storeThrough r v)
  return v

end LispMachine.Act
