/-
Facts about the heap table: what each operation does to the slot of one handle.

Every operation changes the slot of one handle and leaves the others as they were, so a fact about the table after an
operation is a case split on whether a handle is the one that was touched.
-/
import LispMachine.Heap.Collect

namespace LispMachine.Heap

/-! ## Arrays of slots -/

theorem join_getElem?_setIfInBounds {α : Type} {xs : Array (Option α)} {i j : Nat} {x : Option α} (hi : i < xs.size) :
    ((xs.setIfInBounds i x)[j]?).join = if j = i then x else (xs[j]?).join := by
  by_cases h : j = i
  · subst h
    simp [hi]
  · rw [Array.getElem?_setIfInBounds, if_neg (Ne.symm h), if_neg h]

theorem slot?_lt {hp : Heap} {h : Handle} {s : Slot} (hs : hp.slot? h = some s) : h < hp.slots.size :=
  (Array.getElem?_eq_some_iff.1 (slot?_eq_some.1 hs)).1

theorem cell?_eq_some {hp : Heap} {h : Handle} {c : Cell} :
    hp.cell? h = some c ↔ ∃ s, hp.slot? h = some s ∧ s.cell = c := by
  simp [cell?]

theorem cell?_of_slot? {hp : Heap} {h : Handle} {s : Slot} (hs : hp.slot? h = some s) : hp.cell? h = some s.cell := by
  simp [cell?, hs]

/-! ## One operation each -/

theorem slot?_stamp (hp : Heap) (h : Handle) (epoch : Nat) (t : Handle) :
    (hp.stamp h epoch).slot? t = if t = h then (hp.slot? h).map ({ · with epoch := epoch }) else hp.slot? t := by
  unfold stamp
  split
  · rename_i s hs
    rw [slot?, join_getElem?_setIfInBounds (slot?_lt hs), hs]
    rfl
  · rename_i hs
    by_cases ht : t = h
    · subst ht; simp [hs]
    · simp [ht]

theorem slot?_write (hp : Heap) (h : Handle) (c : Cell) (t : Handle) :
    (hp.write h c).slot? t = if t = h then (hp.slot? h).map ({ · with cell := c }) else hp.slot? t := by
  unfold write
  split
  · rename_i s hs
    rw [slot?, join_getElem?_setIfInBounds (slot?_lt hs), hs]
    rfl
  · rename_i hs
    by_cases ht : t = h
    · subst ht; simp [hs]
    · simp [ht]

theorem slot?_release (hp : Heap) (h t : Handle) : (hp.release h).slot? t = if t = h then none else hp.slot? t := by
  unfold release
  by_cases hlt : h < hp.slots.size
  · rw [slot?, join_getElem?_setIfInBounds hlt]
    rfl
  · have hnone : hp.slot? h = none := by
      rw [slot?, Array.getElem?_eq_none (Nat.le_of_not_lt hlt)]
      rfl
    rw [slot?, Array.setIfInBounds, dif_neg hlt]
    split
    · rename_i ht; exact ht ▸ hnone
    · rfl

/-- The next handle is vacant in a table that keeps its free list in order. -/
theorem slot?_insert {hp : Heap} (hfree : ∀ h ∈ hp.free, h < hp.slots.size) (c : Cell) (epoch : Nat) (text : Bool)
    (t : Handle) :
    (hp.insert c epoch text).slot? t = if t = hp.nextHandle then some ⟨c, epoch, hp.births, text⟩ else hp.slot? t := by
  unfold insert nextHandle
  split
  · rename_i h free hf
    rw [slot?, join_getElem?_setIfInBounds (hfree h (by simp [hf])), hf]
    rfl
  · rename_i hf
    rw [hf, slot?, slot?, Array.getElem?_push]
    simp only [List.headD_nil]
    split
    · rename_i ht; simp [ht]
    · rename_i ht; simp [ht]

/-! ## What operations leave alone -/

@[simp] theorem stamp_registry (hp : Heap) (h : Handle) (e : Nat) : (hp.stamp h e).registry = hp.registry := by
  unfold stamp; split <;> rfl

@[simp] theorem stamp_free (hp : Heap) (h : Handle) (e : Nat) : (hp.stamp h e).free = hp.free := by
  unfold stamp; split <;> rfl

@[simp] theorem stamp_limit (hp : Heap) (h : Handle) (e : Nat) : (hp.stamp h e).limit = hp.limit := by
  unfold stamp; split <;> rfl

@[simp] theorem stamp_births (hp : Heap) (h : Handle) (e : Nat) : (hp.stamp h e).births = hp.births := by
  unfold stamp; split <;> rfl

@[simp] theorem stamp_size (hp : Heap) (h : Handle) (e : Nat) : (hp.stamp h e).slots.size = hp.slots.size := by
  unfold stamp; split <;> simp

@[simp] theorem write_registry (hp : Heap) (h : Handle) (c : Cell) : (hp.write h c).registry = hp.registry := by
  unfold write; split <;> rfl

@[simp] theorem write_free (hp : Heap) (h : Handle) (c : Cell) : (hp.write h c).free = hp.free := by
  unfold write; split <;> rfl

@[simp] theorem write_limit (hp : Heap) (h : Handle) (c : Cell) : (hp.write h c).limit = hp.limit := by
  unfold write; split <;> rfl

@[simp] theorem write_births (hp : Heap) (h : Handle) (c : Cell) : (hp.write h c).births = hp.births := by
  unfold write; split <;> rfl

@[simp] theorem write_size (hp : Heap) (h : Handle) (c : Cell) : (hp.write h c).slots.size = hp.slots.size := by
  unfold write; split <;> simp

end LispMachine.Heap
