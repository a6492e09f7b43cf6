/-
Lists on the heap.

A proper list is nil, or a pair whose rest is a proper list. A walk along a list takes its elements one after the other, and a
second cursor follows at half the speed: where the two meet, the list is circular. Whatever is not a proper list is improper,
and the error names the whole list. Equality looks through references and boxes and compares pairs part by part; a
comparison that comes back to two pairs it has started on finds no difference there.
-/
import LispMachine.Machine.Access

namespace LispMachine.Act

/-! ## Walking -/

/-- Go through the elements from `cur` on, `acc` being what has come of those before; none when the walk does not end in nil.
The cursor `slow` moves on every second step, and only then is it compared. -/
def walkFrom {α : Type} (f : α → Value → α) : Nat → Bool → Value → Value → α → Act (Option α)
  | _, _, _, .nil, acc => pure (some acc)
  | 0, _, _, _, _ => fault .endless
  | n + 1, second, slow, cur, acc => do
    match ← asCons cur with
    | none => return none
    | some c =>
      let (a, d) := (← get).fields c
      if second then
        match ← asCons slow with
        | none => fault .mistyped
        | some s =>
          let slow := ((← get).fields s).2
          if slow = d ∧ d ≠ .nil then return none
          else walkFrom f n false slow d (f acc a)
      else walkFrom f n true slow d (f acc a)

/-- Go through the elements of a proper list. If the list is circular, the cursors meet before the slow one has come to a pair
twice, so two steps for each slot of the heap are enough, and one to see where the list ends. -/
def walkList {α : Type} (f : α → Value → α) (init : α) (list : Value) : Act α := do
  match ← walkFrom f (2 * (← get).heap.slots.size + 1) false list list init with
  | some r => return r
  | none => raise (.improperList list)

/-- the elements of a proper list -/
def listItems (list : Value) : Act (List Value) := do
  return (← walkList (fun items a => a :: items) [] list).reverse

def listLength (list : Value) : Act Nat := walkList (fun n _ => n + 1) 0 list

/-! ## Equality -/

/-- the same number by value, or the same value -/
def eql (a b : Value) : Act Bool := do
  if a = b then return true
  else match ← numberOf a, ← numberOf b with
    | some x, some y => return x.equal y
    | _, _ => return false

/-- the first value behind references and boxes -/
def seeThroughWithin : Nat → Value → Act Value
  | 0, _ => fault .endless
  | n + 1, v => do
    match v with
    | .ref p => seeThroughWithin n ((← get).load p)
    | .box _ =>
      match ← asBox v with
      | some (_, x) => seeThroughWithin n x
      | none => fault .mistyped
    | v => return v

def seeThrough (v : Value) : Act Value := do seeThroughWithin (← get).extent v

/-- compare the pairs of values on the work list; `seen` holds the pairs of cells already started on. The fuel bounds the pairs of
values that are looked at. -/
def equalWithin : Nat → List (Value × Value) → List (Handle × Handle) → Act Bool
  | _, [], _ => pure true
  | 0, _ :: _, _ => fault .endless
  | n + 1, (a, b) :: work, seen => do
    let a ← seeThrough a
    let b ← seeThrough b
    if ← eql a b then equalWithin n work seen
    else match ← asCons a with
      | none => return false
      | some ca =>
        match ← asCons b with
        | none => return false
        | some cb =>
          if seen.contains (ca.handle, cb.handle) then equalWithin n work seen
          else
            let (a, as) := (← get).fields ca
            let (b, bs) := (← get).fields cb
            equalWithin n ((a, b) :: (as, bs) :: work) ((ca.handle, cb.handle) :: seen)

/-- equality of what two values unfold to -/
def equal (a b : Value) : Act Bool := do
  let n := (← get).heap.slots.size
  equalWithin (2 * n * n + 2) [(a, b)] []

end LispMachine.Act
