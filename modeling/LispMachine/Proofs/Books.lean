/-
Heaps in order.

The registry, the slots and the free list have to fit together for the next object to get a slot of its own. They do in a heap
in order, and every operation keeps them so, whatever it meets. In such a heap an object that is known by its handle and its
serial number stays where it is until a pass releases it: no allocation takes its slot, and an error object is never written to.
-/
import LispMachine.Machine.Settings
import LispMachine.Proofs.Sweeping

namespace LispMachine.Heap

/-- the registry lists the occupied slots once each, and the free list names vacant slots once each -/
structure InOrder (hp : Heap) : Prop where
  nodup : hp.registry.toList.Nodup
  registered : ∀ h, h ∈ hp.registry ↔ (hp.slot? h).isSome
  distinct : hp.free.Nodup
  vacant : ∀ h ∈ hp.free, h < hp.slots.size ∧ hp.slot? h = none

/-! ## Changes that leave the books alone -/

/-- the second table has the objects of the first in the same slots, whatever they hold -/
structure SameBooks (hp hp' : Heap) : Prop where
  serials : ∀ h, (hp'.slot? h).map Slot.serial = (hp.slot? h).map Slot.serial
  registry : hp'.registry = hp.registry
  free : hp'.free = hp.free
  limit : hp'.limit = hp.limit
  births : hp'.births = hp.births
  size : hp'.slots.size = hp.slots.size

namespace SameBooks

variable {hp hp' hp'' : Heap}

theorem refl (hp : Heap) : hp.SameBooks hp := ⟨fun _ => rfl, rfl, rfl, rfl, rfl, rfl⟩

theorem trans (h₁ : hp.SameBooks hp') (h₂ : hp'.SameBooks hp'') : hp.SameBooks hp'' where
  serials h := (h₂.serials h).trans (h₁.serials h)
  registry := h₂.registry.trans h₁.registry
  free := h₂.free.trans h₁.free
  limit := h₂.limit.trans h₁.limit
  births := h₂.births.trans h₁.births
  size := h₂.size.trans h₁.size

theorem write (hp : Heap) (h : Handle) (c : Cell) : hp.SameBooks (hp.write h c) where
  serials t := by
    rw [slot?_write]
    split
    · rename_i ht; subst ht; cases hp.slot? t <;> rfl
    · rfl
  registry := write_registry ..
  free := write_free ..
  limit := write_limit ..
  births := write_births ..
  size := write_size ..

theorem of_restamped {epoch : Nat} (h : hp.Restamped epoch hp') : hp.SameBooks hp' where
  serials t := by
    rcases h.slots t with e | e <;> rw [e]
    cases hp.slot? t <;> rfl
  registry := h.registry
  free := h.free
  limit := h.limit
  births := h.births
  size := h.size

theorem detach (hp : Heap) (h : Handle) : hp.SameBooks (hp.detach h) := by
  unfold Heap.detach
  split
  · exact refl hp
  · split
    · split
      · exact write ..
      · exact refl hp
    · exact refl hp

theorem detachAll (kept : List Handle) (hp : Heap) : hp.SameBooks (kept.foldl Heap.detach hp) := by
  induction kept generalizing hp with
  | nil => exact refl hp
  | cons h kept ih => exact (detach hp h).trans (ih _)

theorem isSome (h : hp.SameBooks hp') (t : Handle) : (hp'.slot? t).isSome = (hp.slot? t).isSome := by
  rw [← Option.isSome_map, h.serials, Option.isSome_map]

/-- letting go of scopes apart, a sweep does what the registry says -/
theorem sweep (hp : Heap) (epoch : Nat) : (hp.swept epoch).SameBooks (hp.sweep epoch).1 := by
  have hdetached := detachAll (hp.registry.filter (hp.isMarked epoch)).toList ((hp.doomed epoch).foldl release hp)
  rw [sweep_eq]
  exact ⟨hdetached.serials, rfl, hdetached.free, hdetached.limit, hdetached.births, hdetached.size⟩

end SameBooks

variable {hp hp' : Heap}

theorem births_sweep (hp : Heap) (epoch : Nat) : (hp.sweep epoch).1.births = hp.births :=
  (SameBooks.sweep hp epoch).births.trans (births_releaseAll ..)

/-! ## Allocation -/

theorem insert_registry (hp : Heap) (c : Cell) (epoch : Nat) (text : Bool) :
    (hp.insert c epoch text).registry = hp.registry.push hp.nextHandle := by
  unfold insert nextHandle
  cases hp.free <;> rfl

theorem insert_free (hp : Heap) (c : Cell) (epoch : Nat) (text : Bool) : (hp.insert c epoch text).free = hp.free.tail := by
  unfold insert
  split
  · rename_i hf; rw [hf]; rfl
  · rename_i hf; rw [hf]; rfl

/-- a handle is made only if none is free -/
theorem insert_size (hp : Heap) (c : Cell) (epoch : Nat) (text : Bool) :
    (hp.insert c epoch text).slots.size = if hp.free = [] then hp.slots.size + 1 else hp.slots.size := by
  unfold insert
  cases hf : hp.free with
  | nil => simp
  | cons t free => simp

theorem insert_limit (hp : Heap) (c : Cell) (epoch : Nat) (text : Bool) : (hp.insert c epoch text).limit = hp.limit := by
  unfold insert
  split <;> rfl

theorem insert_births (hp : Heap) (c : Cell) (epoch : Nat) (text : Bool) :
    (hp.insert c epoch text).births = hp.births + 1 := by
  unfold insert
  split <;> rfl

theorem isFull_iff (hp : Heap) : hp.isFull = true ↔ hp.free = [] ∧ ∃ limit, hp.limit = some limit ∧ limit ≤ hp.slots.size := by
  unfold isFull
  cases hp.limit <;> simp

namespace InOrder

theorem same (h : hp.InOrder) (hs : hp.SameBooks hp') : hp'.InOrder where
  nodup := hs.registry ▸ h.nodup
  registered t := by rw [hs.registry, hs.isSome]; exact h.registered t
  distinct := hs.free ▸ h.distinct
  vacant t ht := by
    have hvacant := h.vacant t (hs.free ▸ ht)
    rw [hs.size, ← Option.not_isSome_iff_eq_none, hs.isSome, Option.not_isSome_iff_eq_none]
    exact hvacant

/-- the slot that the next object gets is vacant -/
theorem slot?_nextHandle (h : hp.InOrder) : hp.slot? hp.nextHandle = none := by
  unfold nextHandle
  cases hf : hp.free with
  | nil => simp [slot?]
  | cons t free => exact (h.vacant t (by simp [hf])).2

theorem slot?_insert (h : hp.InOrder) (c : Cell) (epoch : Nat) (text : Bool) (t : Handle) :
    (hp.insert c epoch text).slot? t = if t = hp.nextHandle then some ⟨c, epoch, hp.births, text⟩ else hp.slot? t :=
  Heap.slot?_insert (fun t ht => (h.vacant t ht).1) c epoch text t

theorem insert (h : hp.InOrder) (c : Cell) (epoch : Nat) (text : Bool) : (hp.insert c epoch text).InOrder where
  nodup := by
    have hout : hp.nextHandle ∉ hp.registry := by rw [h.registered, h.slot?_nextHandle]; simp
    rw [insert_registry, Array.toList_push, List.nodup_append]
    refine ⟨h.nodup, by simp, fun t ht u hu => ?_⟩
    rintro rfl
    exact hout (List.mem_singleton.1 hu ▸ Array.mem_toList_iff.1 ht)
  registered t := by
    rw [insert_registry, Array.mem_push, h.slot?_insert, h.registered]
    split
    · rename_i ht; simp [ht]
    · rename_i ht; simp [ht]
  distinct := by rw [insert_free]; exact h.distinct.sublist (List.tail_sublist _)
  vacant t ht := by
    rw [insert_free] at ht
    obtain ⟨hlt, hnone⟩ := h.vacant t (List.mem_of_mem_tail ht)
    rw [h.slot?_insert, insert_size]
    cases hf : hp.free with
    | nil => simp [hf] at ht
    | cons u free =>
      -- the first free handle is taken, and it is not listed again
      have hd := h.distinct
      rw [hf, List.nodup_cons] at hd
      rw [hf] at ht
      have hne : t ≠ hp.nextHandle := by
        rintro rfl
        simp only [nextHandle, hf, List.headD_cons, List.tail_cons] at ht
        exact hd.1 ht
      rw [if_neg hne]
      exact ⟨by simpa using hlt, hnone⟩

/-! ## Passes -/

/-- a sweep releases objects in use only, none of them twice -/
theorem doomed_nodup (h : hp.InOrder) (epoch : Nat) : (hp.doomed epoch).Nodup := h.nodup.sublist List.filter_sublist

theorem isSome_of_doomed (h : hp.InOrder) {epoch : Nat} {t : Handle} (ht : t ∈ hp.doomed epoch) : (hp.slot? t).isSome :=
  (h.registered t).1 (mem_doomed.1 ht).1

/-- when the turn of a handle comes its slot is still occupied -/
theorem occupied_at_release (h : hp.InOrder) {epoch : Nat} {before after : List Handle} {t : Handle}
    (ht : hp.doomed epoch = before ++ t :: after) : ((before.foldl release hp).slot? t).isSome := by
  have hnodup := h.doomed_nodup epoch
  rw [ht] at hnodup
  have hout : t ∉ before := fun hmem => (List.nodup_append.1 hnodup).2.2 t hmem t (by simp) rfl
  rw [slot?_releaseAll, if_neg hout]
  exact h.isSome_of_doomed (ht ▸ List.mem_append_right _ List.mem_cons_self)

theorem swept (h : hp.InOrder) (epoch : Nat) : (hp.swept epoch).InOrder where
  nodup := by
    simp only [Heap.swept, Array.toList_filter]
    exact h.nodup.sublist List.filter_sublist
  registered t := by
    rw [slot?_swept]
    have hin : t ∈ (hp.swept epoch).registry ↔ t ∈ hp.registry ∧ t ∉ hp.doomed epoch := by
      simp only [Heap.swept, Array.mem_filter, mem_doomed]
      cases hp.isMarked epoch t <;> simp
    rw [hin, h.registered]
    split
    · rename_i ht; simp [ht]
    · rename_i ht; simp [ht]
  distinct := by
    simp only [Heap.swept, free_releaseAll]
    refine List.nodup_append.2 ⟨(List.reverse_perm _).nodup_iff.2 (h.doomed_nodup epoch), h.distinct, fun t ht u hu => ?_⟩
    rintro rfl
    have hsome := h.isSome_of_doomed (List.mem_reverse.1 ht)
    rw [(h.vacant t hu).2] at hsome
    cases hsome
  vacant t ht := by
    simp only [Heap.swept, free_releaseAll, List.mem_append, List.mem_reverse] at ht
    rw [slot?_swept]
    simp only [Heap.swept, size_releaseAll]
    rcases ht with ht | ht
    · rw [if_pos ht]
      obtain ⟨s, hs⟩ := Option.isSome_iff_exists.1 (h.isSome_of_doomed ht)
      exact ⟨slot?_lt hs, rfl⟩
    · obtain ⟨hlt, hnone⟩ := h.vacant t ht
      refine ⟨hlt, ?_⟩
      split
      · rfl
      · exact hnone

theorem sweep (h : hp.InOrder) (epoch : Nat) : (hp.sweep epoch).1.InOrder := (h.swept epoch).same (.sweep hp epoch)

theorem mark (h : hp.InOrder) (epoch : Nat) (work : List Handle) : (hp.mark epoch work).InOrder :=
  h.same (.of_restamped (mark_restamped ..))

/-! ## Limits -/

/-- the handles that are set aside are forgotten -/
theorem restrict (h : hp.InOrder) (n : Nat) : (hp.restrict n).2.InOrder :=
  ⟨h.nodup, h.registered, List.nodup_nil, by simp [Heap.restrict]⟩

/-- handles that were set aside come back if they are vacant, whatever they are -/
theorem relax (h : hp.InOrder) (q : Quota) : (hp.relax q).InOrder := by
  have hregain (aside : List Handle) : ∀ free : List Handle, free.Nodup →
      (∀ t ∈ free, t < hp.slots.size ∧ hp.slot? t = none) →
      (aside.foldl (fun free t => if hp.isVacant t && !free.contains t then free ++ [t] else free) free).Nodup ∧
        ∀ t ∈ aside.foldl (fun free t => if hp.isVacant t && !free.contains t then free ++ [t] else free) free,
          t < hp.slots.size ∧ hp.slot? t = none := by
    induction aside with
    | nil => exact fun _ hd hv => ⟨hd, hv⟩
    | cons t aside ih =>
      intro free hd hv
      simp only [List.foldl_cons]
      split
      · rename_i hback
        simp only [isVacant, Bool.and_eq_true, decide_eq_true_eq, Option.isNone_iff_eq_none, Bool.not_eq_true',
          List.contains_eq_mem, decide_eq_false_iff_not] at hback
        refine ih _ (List.nodup_append.2 ⟨hd, by simp, fun u hu w hw => ?_⟩) fun u hu => ?_
        · rintro rfl
          exact hback.2 (List.mem_singleton.1 hw ▸ hu)
        · rcases List.mem_append.1 hu with hu | hu
          · exact hv u hu
          · exact List.mem_singleton.1 hu ▸ hback.1
      · exact ih _ hd hv
  have hfree := hregain q.free hp.free h.distinct h.vacant
  exact ⟨h.nodup, h.registered, hfree.1, hfree.2⟩

end InOrder

/-- at the start there is one object -/
theorem inOrder_initial : Machine.initial.heap.InOrder where
  nodup := by simp [Machine.initial]
  registered h := by rcases h with _ | _ | h <;> simp [Machine.initial, Machine.exhaustedError, slot?]
  distinct := List.nodup_nil
  vacant := by simp [Machine.initial]

/-! ## Error objects -/

/-- the object of an error is there -/
def HoldsError (hp : Heap) (e : HeldError) : Prop :=
  ∃ s x, hp.slot? e.handle = some s ∧ s.serial = e.serial ∧ s.cell = .error x ∧ x.kind = e.kind

namespace HoldsError

variable {e : HeldError}

theorem cell? (h : hp.HoldsError e) : ∃ x, hp.cell? e.handle = some (.error x) ∧ x.kind = e.kind := by
  obtain ⟨s, x, hs, -, hcell, hkind⟩ := h
  exact ⟨x, hcell ▸ cell?_of_slot? hs, hkind⟩

theorem insert (h : hp.HoldsError e) (ho : hp.InOrder) (c : Cell) (epoch : Nat) (text : Bool) :
    (hp.insert c epoch text).HoldsError e := by
  obtain ⟨s, x, hs, hrest⟩ := h
  refine ⟨s, x, ?_, hrest⟩
  rw [ho.slot?_insert, if_neg, hs]
  intro heq
  rw [heq, ho.slot?_nextHandle] at hs
  cases hs

/-- a new error object is there -/
theorem of_insert (ho : hp.InOrder) (x : ErrorObject) (epoch : Nat) (text : Bool) :
    (hp.insert (.error x) epoch text).HoldsError ⟨⟨hp.nextHandle, hp.births⟩, x.kind⟩ :=
  ⟨⟨.error x, epoch, hp.births, text⟩, x, by rw [ho.slot?_insert, if_pos rfl], rfl, rfl, rfl⟩

/-- writing to another kind of object leaves it alone -/
theorem write (h : hp.HoldsError e) {t : Handle} {c : Cell} (ht : ∀ x, hp.cell? t ≠ some (.error x)) : (hp.write t c).HoldsError e := by
  obtain ⟨x, hcell, -⟩ := h.cell?
  obtain ⟨s, x, hs, hrest⟩ := h
  refine ⟨s, x, ?_, hrest⟩
  rw [slot?_write, if_neg, hs]
  rintro rfl
  exact ht _ hcell

theorem restamped {epoch : Nat} (h : hp.HoldsError e) (hr : hp.Restamped epoch hp') : hp'.HoldsError e := by
  obtain ⟨s, x, hs, hserial, hcell, hkind⟩ := h
  rcases hr.slots e.handle with heq | heq
  · exact ⟨s, x, heq.trans hs, hserial, hcell, hkind⟩
  · exact ⟨{ s with epoch := epoch }, x, by rw [heq, hs]; rfl, hserial, hcell, hkind⟩

theorem detach (h : hp.HoldsError e) (t : Handle) : (hp.detach t).HoldsError e := by
  unfold Heap.detach
  split
  · exact h
  · rename_i c hc
    split
    · rename_i p hp'
      split
      · refine h.write fun x hx => ?_
        rw [hc] at hx
        cases hx
        cases hp'
      · exact h
    · exact h

/-- a sweep keeps what has been marked -/
theorem sweep (h : hp.HoldsError e) {epoch : Nat} (hseen : hp.Seen epoch e.handle) : (hp.sweep epoch).1.HoldsError e := by
  have hdetach (kept : List Handle) : ∀ {hp : Heap}, hp.HoldsError e → (kept.foldl Heap.detach hp).HoldsError e := by
    induction kept with
    | nil => exact id
    | cons t kept ih => exact fun h => ih (h.detach t)
  obtain ⟨s, x, hs, hrest⟩ := h
  have hkept : e.handle ∉ hp.doomed epoch := fun hmem => by
    have hmarked := (mem_doomed.1 hmem).2
    simp [isMarked, hs, hseen s hs] at hmarked
  have hreleased : ((hp.doomed epoch).foldl release hp).HoldsError e :=
    ⟨s, x, by rw [slot?_releaseAll, if_neg hkept, hs], hrest⟩
  rw [sweep_eq]
  exact hdetach (hp.registry.filter (hp.isMarked epoch)).toList hreleased

/-- a pass keeps what marking starts from -/
theorem pass (h : hp.HoldsError e) {epoch : Nat} {work : List Handle} (hwork : e.handle ∈ work) :
    ((hp.mark epoch work).sweep epoch).1.HoldsError e :=
  (h.restamped (mark_restamped hp work)).sweep (mark_seen hp work _ hwork)

/-- an error is known by its object -/
theorem unique {o : HeldError} (he : hp.HoldsError e) (ho : hp.HoldsError o) (h : o.handle = e.handle) : o = e := by
  obtain ⟨s, x, hs, hserial, hcell, hkind⟩ := he
  obtain ⟨s', x', hs', hserial', hcell', hkind'⟩ := ho
  rw [h, hs] at hs'
  cases hs'
  rw [hcell] at hcell'
  cases hcell'
  obtain ⟨⟨_, _⟩, _⟩ := e
  obtain ⟨⟨_, _⟩, _⟩ := o
  cases h
  cases hserial
  cases hserial'
  cases hkind
  cases hkind'
  rfl

end HoldsError

/-- the error for a full heap is there from the start -/
theorem holds_initial : Machine.initial.heap.HoldsError Machine.exhaustedError :=
  ⟨⟨.error { kind := Machine.exhaustedError.kind }, 1, Machine.exhaustedError.serial, false⟩,
    { kind := Machine.exhaustedError.kind }, rfl, rfl, rfl, rfl⟩

end LispMachine.Heap
