/-
Marking and sweeping.

An object refers to the objects its values name and to the objects whose fields its references point into; a reference
to a stack slot refers to nothing, since stacks are roots. Marking stamps the objects reachable from the roots with the
number of the pass, each object once. Sweeping goes through the registry in allocation order, releases what was not
stamped and keeps the rest in order. An object that was stamped before the pass came to it is kept without what it refers
to; a scope around it that is released is gone for it, whatever uses the handle later.
-/
import LispMachine.Heap.Table

namespace LispMachine

/-- the object a value keeps alive -/
def Value.target? : Value → Option Handle
  | .ref (.stack _ _) => none
  | .ref (.box h) | .ref (.car h) | .ref (.cdr h) => some h
  | v => v.handle?

namespace Heap

def holdsCons (hp : Heap) (h : Handle) : Bool :=
  match hp.cell? h with
  | some (.cons _ _) => true
  | _ => false

/-- the object the rest of a pair keeps alive: the rest of a list has to be a pair itself -/
def restTarget? (hp : Heap) : Value → Option Handle
  | .cons h => if hp.holdsCons h then some h else none
  | v => v.target?

/-- the objects an object refers to -/
def children (hp : Heap) : Cell → List Handle
  | .cons a d => a.target?.toList ++ (hp.restTarget? d).toList
  | .symbol _ => []
  | .scope s =>
    s.name.toList ++ s.parent.handle?.toList ++ s.table.flatMap fun (sym, r) => sym :: r.target?.toList
  | .function f =>
    f.name.toList ++ f.params.source.target?.toList ++
      match f.body with
      | .forms list scope => list.target?.toList ++ scope.handle?.toList
      | .primitive _ _ => []
  | .error e => e.name.toList ++ e.first.target?.toList ++ e.second.target?.toList
  | .box v => v.target?.toList

/-! ## Marking -/

/-- whether a slot holds an object that the pass has not seen -/
def isUnmarked (epoch : Nat) : Option Slot → Bool
  | some s => s.epoch ≠ epoch
  | none => false

/-- the number of objects that the pass has not seen -/
def unmarked (epoch : Nat) (hp : Heap) : Nat := hp.slots.countP (isUnmarked epoch)

theorem slot?_eq_some {hp : Heap} {h : Handle} {s : Slot} :
    hp.slot? h = some s ↔ hp.slots[h]? = some (some s) := by
  unfold slot?
  cases hp.slots[h]? with
  | none => simp
  | some o => cases o <;> simp

theorem unmarked_stamp {hp : Heap} {h : Handle} {s : Slot} {epoch : Nat} (hs : hp.slot? h = some s)
    (he : s.epoch ≠ epoch) : unmarked epoch (hp.stamp h epoch) < unmarked epoch hp := by
  have hget := slot?_eq_some.1 hs
  obtain ⟨hlt, hval⟩ := Array.getElem?_eq_some_iff.1 hget
  have hpos : 0 < hp.slots.countP (isUnmarked epoch) :=
    Array.countP_pos_iff.2 ⟨some s, hval ▸ Array.getElem_mem hlt, by simp [isUnmarked, he]⟩
  simp only [unmarked, stamp, hs]
  rw [Array.setIfInBounds, dif_pos hlt, Array.countP_set hlt, hval]
  simp only [isUnmarked, ne_eq, he, not_false_eq_true, decide_true, if_true, not_true_eq_false, decide_false]
  simp only [Bool.false_eq_true, if_false]
  omega

/-- stamp the objects on the work list and everything they lead to -/
def mark (epoch : Nat) (hp : Heap) (work : List Handle) : Heap :=
  match work with
  | [] => hp
  | h :: work =>
    match _hs : hp.slot? h with
    | none => mark epoch hp work
    | some s =>
      if _he : s.epoch = epoch then mark epoch hp work
      else
        let next := hp.children s.cell ++ work
        mark epoch (hp.stamp h epoch) next
termination_by (unmarked epoch hp, work.length)
decreasing_by
  · exact Prod.Lex.right _ (by simp)
  · exact Prod.Lex.right _ (by simp)
  · exact Prod.Lex.left _ _ (unmarked_stamp _hs _he)

/-! ## Sweeping -/

/-- whether the object with this handle was seen by the pass -/
def isMarked (hp : Heap) (epoch : Nat) (h : Handle) : Bool :=
  match hp.slot? h with
  | some s => s.epoch = epoch
  | none => false

/-- empty a slot and put its handle on the free list -/
def release (hp : Heap) (h : Handle) : Heap :=
  { hp with slots := hp.slots.setIfInBounds h none, free := h :: hp.free }

/-- let go of the scope around an object if it has been released -/
def detach (hp : Heap) (h : Handle) : Heap :=
  match hp.cell? h with
  | none => hp
  | some c =>
    match c.outer with
    | .scope p => if (hp.slot? p).isNone then hp.write h c.releaseOuter else hp
    | _ => hp

theorem counted_filter (hp : Heap) (p : Handle → Bool) :
    hp.count - (hp.registry.filter fun h => !p h).size = (hp.registry.filter p).size := by
  have hsplit := @Array.size_eq_countP_add_countP _ p hp.registry
  simp only [Array.countP_eq_size_filter, Bool.not_eq_true, Bool.decide_eq_false] at hsplit
  rw [hp.counted]
  omega

/-- release every registered object that the pass has not seen, and count them -/
def sweep (hp : Heap) (epoch : Nat) : Heap × Nat :=
  let kept := hp.registry.filter (hp.isMarked epoch)
  let dead := hp.registry.filter fun h => !hp.isMarked epoch h
  let left : Heap := { kept.foldl detach (dead.foldl release hp) with
    registry := kept, count := hp.count - dead.size, counted := hp.counted_filter (hp.isMarked epoch) }
  (left, dead.size)

end Heap

end LispMachine
