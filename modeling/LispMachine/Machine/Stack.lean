/-
A thread's evaluation stack: a list of values of bounded length.

Frames are laid on the stack as their values followed by a count: `… v₀ v₁ … vₙ₋₁ n`. Slots are named by their index from
the bottom; an index at or above the top reads as unset.

Ending a frame of a negative size reserves slots, which are unset. Slots reserved above the capacity do not exist: they
count towards the size, and an operation that has to reach one of them fails. All other failures leave the stack unchanged.
-/
import LispMachine.Heap.Cell

namespace LispMachine

structure Stack where
  /-- the number references to its slots carry -/
  id : Nat
  capacity : Nat
  items : Array Value := #[]
  /-- the number of slots reserved above the capacity -/
  beyond : Nat := 0

/-- why a stack operation fails -/
inductive StackError where
  | overflow (size capacity : Nat)
  | underflow
  /-- the top of the stack is not a frame's count -/
  | notMarker (top : Value)
  | argIndex (attempted : Int) (length : Nat)
  | popped (index : Nat)
  /-- a slot above the capacity is reached for -/
  | outside (index capacity : Nat)
deriving DecidableEq

namespace Stack

def defaultCapacity : Nat := 4096

def size (s : Stack) : Nat := s.items.size + s.beyond

def overflow (s : Stack) : StackError := .overflow s.size s.capacity

/-- push a value; its slot is the old size -/
def push (s : Stack) (v : Value) : Except StackError Stack :=
  if s.capacity ≤ s.size then .error s.overflow
  else .ok { s with items := s.items.push v }

/-- the top slot, and the stack without it -/
def pop (s : Stack) : Except StackError Value × Stack :=
  if 0 < s.beyond then
    let rest := { s with beyond := s.beyond - 1 }
    (.error (.outside rest.size s.capacity), rest)
  else match s.items.back? with
    | none => (.error .underflow, s)
    | some v => (.ok v, { s with items := s.items.pop })

/-- the value in a slot, unset when the slot is not in use -/
def get (s : Stack) (i : Nat) : Value := (s.items[i]?).getD .unset

def set (s : Stack) (i : Nat) (v : Value) : Except StackError Stack :=
  if i < s.items.size then .ok { s with items := s.items.setIfInBounds i v }
  else if i < s.size then .error (.outside i s.capacity)
  else .error (.popped i)

/-- remove the top `n` slots -/
def drop (s : Stack) (n : Nat) : Stack := { s with items := s.items.shrink (s.items.size - n) }

/-- reserve `n` more slots -/
def reserve (s : Stack) (n : Nat) : Stack :=
  let room := s.capacity - s.items.size
  { s with items := s.items ++ Array.replicate (min n room) .unset, beyond := s.beyond + (n - room) }

/-- unset the slots from `i` on -/
def clearFrom (s : Stack) (i : Nat) : Stack :=
  { s with items := s.items.take i ++ Array.replicate (s.items.size - i) .unset }

/-- remove the top `n` slots, of which there have to be that many -/
def endFrame (s : Stack) (n : Int) : Except StackError Unit × Stack :=
  if n < 0 then (.ok (), s.reserve n.natAbs)
  else
    let n := n.toNat
    if s.size < n then (.error .underflow, s)
    else if s.beyond = 0 ∨ n = 0 then (.ok (), s.drop n)
    else (.error (.outside (max (s.size - n) s.capacity) s.capacity), s.clearFrom (s.size - n))

/-- the values in the slots, if all of them exist -/
def live (s : Stack) : Except StackError (List Value) :=
  if s.beyond = 0 then .ok s.items.toList else .error (.outside s.size s.capacity)

/-! ## Frames -/

/-- push values and their count, or nothing -/
def makeFrame (s : Stack) (vs : List Value) : Except StackError Stack :=
  if s.capacity < s.size + vs.length + 1 then .error s.overflow
  else .ok { s with items := (s.items ++ vs.toArray).push (.uint (UInt32.ofNat vs.length)) }

/-- the count on top of the stack -/
def frameCount (s : Stack) : Except StackError Nat :=
  if 0 < s.beyond then .error (.outside (s.size - 1) s.capacity)
  else match s.items.back? with
    | none => .error .underflow
    | some (.uint n) => if s.size < n.toNat + 1 then .error .underflow else .ok n.toNat
    | some v => .error (.notMarker v)

/-- remove the current frame -/
def closeFrame (s : Stack) : Except StackError Stack :=
  match s.frameCount with
  | .error e => .error e
  | .ok n => .ok (s.drop (n + 1))

/-- replace the current frame by a value -/
def closeFrameWith (s : Stack) (v : Value) : Except StackError Stack :=
  match s.closeFrame with
  | .error e => .error e
  | .ok s => s.push v

/-- the slot of argument `n` of the current frame -/
def argSlot (s : Stack) (n : Int) : Except StackError Nat :=
  match s.frameCount with
  | .error e => .error e
  | .ok count =>
    if n < 0 ∨ (count : Int) ≤ n then .error (.argIndex n count)
    else .ok (s.size - 1 - count + n.toNat)

end Stack

end LispMachine
