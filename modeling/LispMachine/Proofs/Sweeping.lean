/-
Sweeping: which objects a sweep releases.

A sweep releases the registered objects without the stamp of the pass and keeps the others in their order. The handles it
releases go to the free list, the last released first. Letting go of released scopes changes nothing as long as no kept
object lies in a scope that is not kept.
-/
import LispMachine.Proofs.Marking

namespace LispMachine.Heap

/-! ## Releasing -/

theorem slot?_releaseAll (dead : List Handle) (hp : Heap) (t : Handle) :
    (dead.foldl release hp).slot? t = if t ∈ dead then none else hp.slot? t := by
  induction dead generalizing hp with
  | nil => simp
  | cons h dead ih =>
    rw [List.foldl_cons, ih, slot?_release]
    by_cases ht : t = h
    · simp [ht]
    · simp [ht]

theorem free_releaseAll (dead : List Handle) (hp : Heap) :
    (dead.foldl release hp).free = dead.reverse ++ hp.free := by
  induction dead generalizing hp with
  | nil => simp
  | cons h dead ih => rw [List.foldl_cons, ih]; simp [release]

theorem size_releaseAll (dead : List Handle) (hp : Heap) :
    (dead.foldl release hp).slots.size = hp.slots.size := by
  induction dead generalizing hp with
  | nil => rfl
  | cons h dead ih => rw [List.foldl_cons, ih]; simp [release]

theorem limit_releaseAll (dead : List Handle) (hp : Heap) : (dead.foldl release hp).limit = hp.limit := by
  induction dead generalizing hp with
  | nil => rfl
  | cons h dead ih => rw [List.foldl_cons, ih]; rfl

theorem births_releaseAll (dead : List Handle) (hp : Heap) : (dead.foldl release hp).births = hp.births := by
  induction dead generalizing hp with
  | nil => rfl
  | cons h dead ih => rw [List.foldl_cons, ih]; rfl

/-! ## Letting go of scopes -/

/-- no object in the list lies in a scope that has been released -/
def Sheltered (hp : Heap) (kept : List Handle) : Prop :=
  ∀ h ∈ kept, ∀ c p, hp.cell? h = some c → c.outer = .scope p → (hp.slot? p).isSome

theorem detach_eq {hp : Heap} {h : Handle}
    (hh : ∀ c p, hp.cell? h = some c → c.outer = .scope p → (hp.slot? p).isSome) : hp.detach h = hp := by
  unfold detach
  split
  · rfl
  · rename_i c hc
    split
    · rename_i p hp'
      have hthere := hh c p hc hp'
      rw [if_neg (by simpa using Option.isSome_iff_ne_none.1 hthere)]
    · rfl

theorem detachAll_eq {hp : Heap} {kept : List Handle} (hk : hp.Sheltered kept) : kept.foldl detach hp = hp := by
  induction kept with
  | nil => rfl
  | cons h kept ih =>
    rw [List.foldl_cons, detach_eq (hk h (by simp))]
    exact ih fun t ht => hk t (List.mem_cons_of_mem _ ht)

/-! ## The sweep -/

/-- the registered objects without the stamp of a pass -/
def doomed (hp : Heap) (epoch : Nat) : List Handle := hp.registry.toList.filter fun h => !hp.isMarked epoch h

theorem counted_swept (hp : Heap) (epoch : Nat) : hp.count - (hp.registry.filter fun h => !hp.isMarked epoch h).size =
    (hp.registry.filter (hp.isMarked epoch)).size := hp.counted_filter (hp.isMarked epoch)

/-- the table after a sweep that has no scope to let go of -/
def swept (hp : Heap) (epoch : Nat) : Heap :=
  { (hp.doomed epoch).foldl release hp with
    registry := hp.registry.filter (hp.isMarked epoch)
    count := hp.count - (hp.registry.filter fun h => !hp.isMarked epoch h).size
    counted := hp.counted_swept epoch }

/-- a sweep releases what is doomed, and then the scopes that are kept let go of what has been released -/
theorem sweep_eq (hp : Heap) (epoch : Nat) : (hp.sweep epoch).1 =
    { (hp.registry.filter (hp.isMarked epoch)).toList.foldl detach ((hp.doomed epoch).foldl release hp) with
      registry := hp.registry.filter (hp.isMarked epoch)
      count := hp.count - (hp.registry.filter fun h => !hp.isMarked epoch h).size
      counted := hp.counted_swept epoch } := by
  have hdead : (hp.registry.filter fun h => !hp.isMarked epoch h).toList = hp.doomed epoch := by simp [doomed]
  unfold sweep
  simp only [← Array.foldl_toList, hdead]

theorem sweep_eq_swept {hp : Heap} {epoch : Nat}
    (hs : ((hp.doomed epoch).foldl release hp).Sheltered (hp.registry.filter (hp.isMarked epoch)).toList) :
    (hp.sweep epoch).1 = hp.swept epoch := by
  simp only [sweep_eq, swept, detachAll_eq hs]

/-- what is released and what is left add up to what was registered -/
theorem sweep_counts (hp : Heap) (epoch : Nat) :
    (hp.sweep epoch).2 + (hp.sweep epoch).1.registry.size = hp.registry.size := by
  have hsplit := @Array.size_eq_countP_add_countP _ (hp.isMarked epoch) hp.registry
  simp only [Array.countP_eq_size_filter, Bool.not_eq_true, Bool.decide_eq_false] at hsplit
  simp only [sweep]
  omega

theorem mem_doomed {hp : Heap} {epoch : Nat} {h : Handle} :
    h ∈ hp.doomed epoch ↔ h ∈ hp.registry ∧ hp.isMarked epoch h = false := by
  simp [doomed]

theorem slot?_swept (hp : Heap) (epoch : Nat) (h : Handle) :
    (hp.swept epoch).slot? h = if h ∈ hp.doomed epoch then none else hp.slot? h := slot?_releaseAll ..

end LispMachine.Heap
