/-
Descriptions of values for inspection: what kind of value it is beside its printed text.
-/
import LispMachine.Machine.Lists
import LispMachine.Machine.Render

namespace LispMachine

/-- the name of the kind of place a reference points to -/
def Place.where : Place → String
  | .stack id i => s!"stack:{id}:{i}"
  | .box _ => "box"
  | .car _ => "car"
  | .cdr _ => "cdr"

namespace Value

/-- the tag in front of a described value -/
def tagName : Value → String
  | .float _ => "float"
  | .int _ => "int"
  | .uint _ => "uint"
  | .nil | .t | .unset | .reserved _ _ => "imm"
  | .cons _ => "cons"
  | .symbol _ => "sym"
  | .scope _ => "ns"
  | .function _ => "fn"
  | .error _ .quiet => "err:quiet"
  | .error _ .signaling => "err:signaling"
  | .box _ => "box"
  | .ref p => "ref:" ++ p.where

/-- the predicates that hold of a value, in a fixed order; a word that decodes to nothing is only truthy -/
def flags (v : Option Value) : List String :=
  let is (f : Value → Bool) : Bool := (v.map f).getD false
  [("float", is fun | .float _ => true | _ => false),
   ("cons", is fun | .cons _ => true | _ => false),
   ("symbol", is fun | .symbol _ => true | _ => false),
   ("reference", is isReference),
   ("error", is isError),
   ("signaling", is isSignaling),
   ("bool", is fun | .nil | .t => true | .reserved sub _ => sub = 0 | _ => false),
   ("int", is fun | .int _ => true | _ => false),
   ("uint", is fun | .uint _ => true | _ => false),
   ("nil", is fun | .nil => true | _ => false),
   ("uninitialized", is fun | .unset => true | _ => false),
   ("truthy", (v.map truthy).getD true),
   ("list", is isList)].filterMap fun (name, holds) => if holds then some name else none

end Value

namespace Act

/-- a value's tag and text; a reference shows what it refers to -/
def describeWithin : Nat → Value → Act String
  | 0, _ => fault .endless
  | n + 1, v => do
    match v with
    | .ref p => return v.tagName ++ "=>" ++ (← describeWithin n ((← get).load p))
    | v => return v.tagName ++ ":" ++ (← print v)

def describe (v : Value) : Act String := do describeWithin (← get).extent v

/-- the printed text of what lies around a scope; a released scope has no name -/
def printOuter : Outer → Act String
  | .none => pure ""
  | .scope h => print (.scope h)
  | .released => do return Render.named (← get) "namespace" none

end Act

end LispMachine
