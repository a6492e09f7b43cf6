/-
Error objects.

Every failure that a program may see becomes an error object on the heap, pinned to the thread that met it. Causes below
the evaluator turn into objects of their own kind; a cause without one becomes a user error that carries its text as a
symbol.
-/
import LispMachine.Machine.Render

namespace LispMachine.Act

/-- put an error object on the heap, pin it and hold it -/
def newErrorObject (th : ThreadId) (x : ErrorObject) : Act HeldError := do
  let serial := (← get).heap.births
  let h ← allocate (.error x)
  let e : HeldError := ⟨⟨h, serial⟩, x.kind⟩
  pin th (e.value .quiet)
  return e

def newError (th : ThreadId) (kind : ErrorKind) (first second : Value) : Act HeldError :=
  newErrorObject th { kind := kind, first := first, second := second }

/-- an error with a name of its own -/
def newUserError (th : ThreadId) (name : Handle) (body : Value) : Act HeldError :=
  newErrorObject th { kind := .user, name := some name, first := body }

/-- a type error about `got`; the name of the wanted type is interned first -/
def newTypeError (th : ThreadId) (wanted : String) (got : Value) : Act HeldError := do
  newError th .type (← symbol wanted) got

/-- make a new error object and fail with it -/
def raiseError {α : Type} (th : ThreadId) (kind : ErrorKind) (first second : Value) : Act α := do
  raise (.object (← newError th kind first second))

def raiseType {α : Type} (th : ThreadId) (wanted : String) (got : Value) : Act α := do
  raise (.object (← newTypeError th wanted got))

/-- an integer as a 32-bit value, its high bits dropped -/
def int32 (n : Int) : Value := .int (Int32.ofInt n)

/-- the error object for a cause -/
def asError (th : ThreadId) : Cause → Act HeldError
  | .object e => pure e
  | .lostError => fault .mistyped
  | .stackOverflow size capacity => newError th .stackOverflow (int32 size) (int32 capacity)
  | .stackUnderflow => newError th .stackUnderflow .nil .nil
  | .argIndex attempted length => newError th .argIndex (int32 attempted) (int32 length)
  | .wrongType wanted => newTypeError th wanted .nil
  | .improperList list => newError th .improperList list .nil
  | c => do
    let name ← intern "go-error"
    newUserError th name (← symbol c.text)

/-- run an action whose ordinary errors become error objects -/
def withErrorObjects {α : Type} (th : ThreadId) (x : Act α) : Act α := do
  match ← attempt x with
  | .ok a => return a
  | .error c => raise (.object (← asError th c))

/-- the name of an error: its own, or that of its kind -/
def errorName (e : ErrorObject) : Act Handle :=
  match e.name with
  | some h => pure h
  | none => intern e.kind.name

end LispMachine.Act
