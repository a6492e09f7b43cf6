/-
Values and the places that hold them.

A value is a number, one of a few immediates, the handle of an object on the heap, or a reference to a place. Handles
are positive and name slots of the heap table; zero names nothing. An error value says whether the error is still
unwinding (`signaling`) or has been caught and is an ordinary value (`quiet`).
-/
import LispMachine.Number

namespace LispMachine

/-- the index of a slot of the heap table -/
abbrev Handle := Nat

/-- a place that holds a value: a slot of a thread's stack, or a field of an object on the heap -/
inductive Place where
  | stack (id index : Nat)
  | box (h : Handle)
  | car (h : Handle)
  | cdr (h : Handle)
deriving DecidableEq, Repr

/-- whether an error is unwinding or has been caught -/
inductive Mood where
  | signaling
  | quiet
deriving DecidableEq, Repr

inductive Value where
  | float (x : Float)
  | nil
  | t
  /-- the marker of a missing optional argument and of a variable without a value -/
  | unset
  | int (n : Int32)
  /-- an unsigned integer; frames end in one -/
  | uint (n : UInt32)
  /-- an immediate with no meaning of its own -/
  | reserved (sub : UInt16) (val : UInt32)
  | cons (h : Handle)
  | symbol (h : Handle)
  | scope (h : Handle)
  | function (h : Handle)
  | error (h : Handle) (mood : Mood)
  | box (h : Handle)
  | ref (p : Place)
deriving DecidableEq

instance : Inhabited Value := ⟨.nil⟩

/-- the variants of a value -/
inductive Kind where
  | float
  | immediate
  | cons
  | symbol
  | scope
  | function
  | error
  | box
  | reference
deriving DecidableEq, Repr

namespace Kind

/-- all kinds, in the order of their codes -/
def all : List Kind := [.float, .immediate, .cons, .symbol, .scope, .function, .error, .box, .reference]

def name : Kind → String
  | .float => "float"
  | .immediate => "immediate"
  | .cons => "cons"
  | .symbol => "symbol"
  | .scope => "namespace"
  | .function => "function"
  | .error => "error"
  | .box => "box"
  | .reference => "reference"

/-- the name of the kind with a given code, or a placeholder that shows the code -/
def nameOfCode (n : Nat) : String :=
  match all[n]? with
  | some k => k.name
  | none => s!"Kind({n})"

end Kind

namespace Value

def kind : Value → Kind
  | .float _ => .float
  | .nil | .t | .unset | .int _ | .uint _ | .reserved _ _ => .immediate
  | .cons _ => .cons
  | .symbol _ => .symbol
  | .scope _ => .scope
  | .function _ => .function
  | .error _ _ => .error
  | .box _ => .box
  | .ref _ => .reference

/-- the slot a value names, for a value that names an object -/
def handle? : Value → Option Handle
  | .cons h | .symbol h | .scope h | .function h | .error h _ | .box h => some h
  | _ => none

def isHeap (v : Value) : Bool := v.handle?.isSome

def isReference : Value → Bool
  | .ref _ => true
  | _ => false

def isError : Value → Bool
  | .error _ _ => true
  | _ => false

def isSignaling : Value → Bool
  | .error _ .signaling => true
  | _ => false

/-- everything counts as true but nil and the unset marker -/
def truthy (v : Value) : Bool := v ≠ .nil && v ≠ .unset

def ofBool (b : Bool) : Value := if b then .t else .nil

def isList : Value → Bool
  | .nil | .cons _ => true
  | _ => false

/-- the caught form of an error; other values stay as they are -/
def toQuiet : Value → Value
  | .error h _ => .error h .quiet
  | v => v

/-- the unwinding form of an error; other values stay as they are -/
def toSignaling : Value → Value
  | .error h _ => .error h .signaling
  | v => v

def ofNumber : Number → Value
  | .int n => .int n
  | .float x => .float x

/-- the number a value is, without looking through references -/
def number? : Value → Option Number
  | .int n => some (.int n)
  | .float x => some (.float x)
  | _ => none

/-- what keeps an object alive: a value that names one, or a reference to one of its fields -/
def needsPin : Value → Bool
  | .ref (.stack _ _) => false
  | .ref _ => true
  | v => v.isHeap

end Value

end LispMachine
