/-
What the primitives need of the evaluator.

The evaluator is tied together by fuel: a primitive gets an evaluator for the forms inside it that has less fuel than the
one that runs the primitive. In place mode a form is evaluated to a reference, for assignment; in value mode references
are followed to what they hold.
-/
import LispMachine.Machine.Params

namespace LispMachine

inductive Mode where
  | value
  | place
deriving DecidableEq, Repr

/-- an evaluator for the forms inside a form, and the number of steps left for walking a body -/
structure Evaluator where
  eval : Value → Mode → Act Value
  steps : Nat

namespace Act

/-! ## Arguments -/

/-- the argument in slot `i` of a primitive's frame -/
def arg (args : List Value) (i : Nat) : Value := (args[i]?).getD .unset

def symbolArg (th : ThreadId) (v : Value) : Act Handle := do
  match ← asSymbol v with
  | some h => return h
  | none => raiseType th "symbol" v

def numberArg (th : ThreadId) (v : Value) : Act Number := do
  match ← numberOf v with
  | some n => return n
  | none => raiseType th "number" v

def scopeArg (th : ThreadId) (v : Value) : Act Handle := do
  match ← asScope v with
  | some h => return h
  | none => raiseType th "namespace" v

def listArg (th : ThreadId) (v : Value) : Act (List Value) := withErrorObjects th (listItems v)

/-- the items of a list, kept for later -/
def formsArg (th : ThreadId) (v : Value) : Act (List Saved) := do keepAll (← listArg th v)

/-! ## Bodies -/

/-- evaluate the forms from `cur` on; `res` is the value of the form before, `body` the whole list -/
def evalBodyWithin (ev : Evaluator) (th : ThreadId) (body : Value) : Nat → Value → Value → Act Value
  | _, .nil, res => pure res
  | 0, _, _ => throw .outOfFuel
  | n + 1, cur, _ => do
    match ← asCons cur with
    | none => raiseError th .improperList body .nil
    | some c =>
      let res ← ev.eval (← carOf c) .value
      evalBodyWithin ev th body n (← cdrOf c) res

/-- evaluate a list of forms in order; the value is that of the last, or nil -/
def evalBody (ev : Evaluator) (th : ThreadId) (body : Value) : Act Value :=
  evalBodyWithin ev th body ev.steps body .nil

/-! ## Making functions -/

/-- a function with a list of forms as its body; the scope it captures becomes persistent -/
def newFunction (th : ThreadId) (name : Option Handle) (params body : Value) (scope : Option Handle) :
    Act Value := do
  let p ← parseParams params
  let _ ← listLength body
  match scope with
  | some h => promote h
  | none => pure ()
  allocatePinned th (.function ⟨name, p, .forms body (.ofOption scope)⟩) .function

/-- a function with a primitive body -/
def newPrimitive (th : ThreadId) (name : Option Handle) (params : Value) (special : Bool) (p : Primitive) :
    Act Value := do
  let ps ← parseParams params
  allocatePinned th (.function ⟨name, ps, .primitive p special⟩) .function

/-- write a text to a channel; `debug` is never refused -/
def write (c : Channel) (text : String) : Act Unit := do
  match c, (← get).console.budget with
  | .debug, _ | _, none =>
    modify fun m => { m with console := { m.console with written := m.console.written.push (c, text) } }
  | _, some 0 => raise .writeRefused
  | c, some (n + 1) =>
    modify fun m => { m with console := ⟨m.console.written.push (c, text), some n⟩ }

end Act

end LispMachine
