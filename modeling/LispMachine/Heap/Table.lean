/-
The heap table.

The table hands out handles 1, 2, 3, … up to a limit. A released handle goes on a list and is handed out again, the most
recently released first, before a new one is made. The registry lists the handles in use in the order of their allocation, with
a counter of its own beside it. Every object has the number of the pass that marked it last and a serial number, which tells two
objects apart that used the same handle one after the other. Pairs made to hold program text are told apart from other pairs.
-/
import LispMachine.Heap.Cell

namespace LispMachine

/-- an object in the table -/
structure Slot where
  cell : Cell
  /-- the pass that marked the object last -/
  epoch : Nat
  /-- the number of allocations before this one -/
  serial : Nat
  /-- whether the object is a pair made to hold program text -/
  text : Bool
deriving DecidableEq

structure Heap where
  /-- the slots by handle; the slot with index 0 is never used -/
  slots : Array (Option Slot) := #[none]
  /-- released handles, the most recent first -/
  free : List Handle := []
  /-- no handle reaches this number; none for a table without bound -/
  limit : Option Nat := some 0x10000000
  /-- the handles in use, in allocation order -/
  registry : Array Handle := #[]
  /-- the number of registered objects, counted up and down -/
  count : Nat := 0
  counted : count = registry.size := by rfl
  /-- the number of allocations so far -/
  births : Nat := 0

namespace Heap

def slot? (hp : Heap) (h : Handle) : Option Slot := (hp.slots[h]?).join

def cell? (hp : Heap) (h : Handle) : Option Cell := (hp.slot? h).map Slot.cell

/-- the number of objects in use -/
def alive (hp : Heap) : Nat := hp.count

/-- whether every handle is in use -/
def isFull (hp : Heap) : Bool :=
  hp.free.isEmpty && match hp.limit with
    | some limit => limit ≤ hp.slots.size
    | none => false

/-- the handle that the next object gets -/
def nextHandle (hp : Heap) : Handle := hp.free.headD hp.slots.size

theorem counted_push (hp : Heap) (h : Handle) : hp.count + 1 = (hp.registry.push h).size := by
  rw [hp.counted, Array.size_push]

/-- put a new object into the table, under `nextHandle` -/
def insert (hp : Heap) (cell : Cell) (epoch : Nat) (text : Bool) : Heap :=
  let slot : Slot := ⟨cell, epoch, hp.births, text⟩
  match hp.free with
  | h :: free =>
    { hp with slots := hp.slots.setIfInBounds h (some slot), free := free,
              registry := hp.registry.push h, count := hp.count + 1, counted := hp.counted_push h,
              births := hp.births + 1 }
  | [] =>
    let h := hp.slots.size
    { hp with slots := hp.slots.push (some slot),
              registry := hp.registry.push h, count := hp.count + 1, counted := hp.counted_push h,
              births := hp.births + 1 }

/-- overwrite the contents of the object in a slot -/
def write (hp : Heap) (h : Handle) (cell : Cell) : Heap :=
  match hp.slot? h with
  | some s => { hp with slots := hp.slots.setIfInBounds h (some { s with cell := cell }) }
  | none => hp

/-- mark the object in a slot as seen by a pass -/
def stamp (hp : Heap) (h : Handle) (epoch : Nat) : Heap :=
  match hp.slot? h with
  | some s => { hp with slots := hp.slots.setIfInBounds h (some { s with epoch := epoch }) }
  | none => hp

/-- the most handles that can still be handed out before the next release, in a table with a bound -/
def room (hp : Heap) : Nat := hp.free.length + ((hp.limit.getD 0) - hp.slots.size)

end Heap

end LispMachine
