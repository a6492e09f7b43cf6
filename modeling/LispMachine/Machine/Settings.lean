/-
Settings of the machine, and limits on its heap.
-/
import LispMachine.Machine.Collector
import LispMachine.Text.Quoted

namespace LispMachine

/-! ## Allocator modes and phases -/

namespace AllocatorMode

/-- the mode a configuration names; no name means the default -/
def parse? (s : String) : Except Cause AllocatorMode :=
  if s = "" ∨ s = "inline" then .ok .inline
  else if s = "channel" then .ok .channel
  else .error (.unknownAllocator (Text.quote s))

def nameOfCode (n : Int) : String :=
  if n = 0 then name .inline else if n = 1 then name .channel else s!"AllocatorMode({n})"

end AllocatorMode

def Phase.nameOfCode (n : Int) : String :=
  if n = 0 then name .idle else if n = 1 then name .marking else if n = 2 then name .sweeping
  else s!"Phase({n})"

/-! ## Configuration -/

/-- settings as they are asked for: numbers that are not positive mean the default -/
structure Request where
  stackCapacity : Int := 0
  threshold : Int := 0
  allocator : AllocatorMode := .inline
  background : Bool := false
deriving DecidableEq, Repr

def Request.config (r : Request) : Config where
  stackCapacity := if r.stackCapacity ≤ 0 then Stack.defaultCapacity else r.stackCapacity.toNat
  threshold := if r.threshold ≤ 0 then 1024 else r.threshold.toNat
  allocator := r.allocator
  background := r.background

namespace Act

/-- put settings into effect; stacks that exist keep their capacity -/
def configure (r : Request) : Act Unit :=
  modify fun m =>
    let c := r.config
    { m with config := c, allocator := c.allocator,
             collector := { m.collector.setMinThreshold c.threshold with running := c.background } }

/-- stop the background collector and go back to registering objects inline -/
def shutdown : Act Unit :=
  modify fun m => { m with allocator := .inline, collector := { m.collector with running := false } }

end Act

/-! ## Limits on the heap -/

/-- what a limit on the heap has set aside -/
structure Quota where
  limit : Option Nat
  free : List Handle

namespace Heap

/-- allow only `n` more handles to be made and set the free ones aside -/
def restrict (hp : Heap) (n : Nat) : Quota × Heap :=
  (⟨hp.limit, hp.free⟩, { hp with limit := some (hp.slots.size + n), free := [] })

/-- whether a handle has been made and no object has it -/
def isVacant (hp : Heap) (h : Handle) : Bool := h < hp.slots.size && (hp.slot? h).isNone

/-- the free handles, followed by those of `aside` that can be used, each once -/
def regain (hp : Heap) (aside : List Handle) : List Handle :=
  aside.foldl (fun free h => if hp.isVacant h && !free.contains h then free ++ [h] else free) hp.free

/-- undo a limit; handles released meanwhile are used before those set aside -/
def relax (hp : Heap) (q : Quota) : Heap :=
  { hp with limit := q.limit, free := hp.regain q.free }

end Heap

namespace Act

def restrictHeap (n : Nat) : Act Quota :=
  modifyGet fun m =>
    let (q, hp) := m.heap.restrict n
    (q, { m with heap := hp })

def relaxHeap (q : Quota) : Act Unit := modify fun m => { m with heap := m.heap.relax q }

/-- make cells until the heap is full -/
def fillHeap (th : ThreadId) : Act Unit := do
  let rec fill : Nat → Act Unit
    | 0 => pure ()
    | n + 1 => do
      let _ ← newCons th .nil .nil
      fill n
  fill ((← get).heap.room + 1)

end Act

end LispMachine
