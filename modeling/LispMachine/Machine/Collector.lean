/-
Collection passes.

The roots are the pins, the scopes and the live stack slots of every open thread, and the scopes that are in use. A pass
starts a new epoch, marks from the symbols, the error for a full heap and the roots, sweeps, and sets the threshold for
the next pass to twice the number of survivors, but never below the configured minimum. A pass is taken when it is asked
for, and at the collection points of the evaluator when the heap has outgrown the threshold. A pass that cannot read a
root, because a stack has slots above its capacity, stays in its first phase.
-/
import LispMachine.Machine.Alloc

namespace LispMachine

/-- the roots a thread holds -/
def Thread.roots (t : Thread) : List Value :=
  if t.isOpen then t.pins.toList ++ t.scopes.toList.map Value.scope ++ t.stack.items.toList else []

namespace Machine

/-- how often a scope is in use -/
def useCount (m : Machine) (h : Handle) : Nat := (m.uses[h]?).getD 0

/-- the scopes in use -/
def scopesInUse (m : Machine) : List Handle := (List.range m.uses.size).filter fun h => m.useCount h ≠ 0

def roots (m : Machine) : List Value :=
  m.threads.toList.flatMap Thread.roots ++ m.scopesInUse.map Value.scope

/-- an open thread's stack with slots that cannot be read -/
def brokenStack? (m : Machine) : Option Stack :=
  (m.threads.find? fun t => t.isOpen && t.stack.beyond ≠ 0).map Thread.stack

/-- where marking starts -/
def markingStart (m : Machine) : List Handle :=
  m.symbols.map Prod.snd ++ exhaustedError.handle :: m.roots.filterMap Value.target?

end Machine

namespace Collector

/-- how many passes the history keeps -/
def historyLimit : Nat := 256

/-- note a completed pass -/
def record (c : Collector) (p : Pass) : Collector :=
  let history := if c.history.size = historyLimit then c.history.extract 1 historyLimit else c.history
  { c with passes := c.passes + 1, history := history.push p }

/-- set the least threshold, and the threshold with it; it is at least one -/
def setMinThreshold (c : Collector) (n : Int) : Collector :=
  let n := (max n 1).toNat
  { c with minThreshold := n, threshold := n }

end Collector

namespace Act

/-- fail at the start of a pass if there is a root that cannot be read -/
def checkRoots : Act Unit := do
  match (← get).brokenStack? with
  | none => pure ()
  | some s =>
    modify fun m =>
      { m with collector := { m.collector with epoch := m.collector.epoch + 1, marking := true, phase := .marking } }
    fault (.slotsOutside s.size s.capacity)

/-- take a pass -/
def collect (trigger : Trigger) : Act Pass := do
  note (.passed trigger)
  checkRoots
  let m ← get
  let epoch := m.collector.epoch + 1
  let roots := m.roots.length
  let start := m.markingStart
  let heap := m.heap
  -- the machine gives its heap away while the pass works on it
  let m := { m with heap := {} }
  let swept := (heap.mark epoch start).sweep epoch
  let heap := swept.1
  let survivors := heap.alive
  let threshold := max m.collector.minThreshold (2 * survivors)
  let pass : Pass := ⟨epoch, trigger, roots, swept.2, survivors, threshold⟩
  let c := { m.collector with epoch := epoch, threshold := threshold, marking := false }
  set { m with heap := heap, collector := c.record pass }
  return pass

/-- take a pass if one is due and no background collector will -/
def maybeCollect : Act Bool := do
  let m ← get
  if m.heap.alive ≤ m.collector.threshold then return false
  else if m.collector.running then return false
  else
    let _ ← collect .threshold
    return true

end Act

end LispMachine
