/-
Marking: which objects a marking run stamps.

Marking stamps an object once and then works on what the object refers to. Three facts say what comes of it, each by
induction on the run:
- `mark_restamped`: nothing but stamps changes;
- `mark_closed`: if whatever a stamped object refers to is stamped or waiting when the run begins, then whatever a stamped
  object refers to is stamped when it ends, so the stamped objects are closed under references (completeness);
- `mark_within`: in a set of handles that holds the work list and is closed under references the run stays (soundness).
-/
import LispMachine.Proofs.Table

namespace LispMachine.Heap

/-! ## Tables that differ in stamps -/

/-- the second table is the first with some objects stamped -/
structure Restamped (epoch : Nat) (hp hp' : Heap) : Prop where
  slots : ∀ h, hp'.slot? h = hp.slot? h ∨ hp'.slot? h = (hp.slot? h).map ({ · with epoch := epoch })
  registry : hp'.registry = hp.registry
  free : hp'.free = hp.free
  limit : hp'.limit = hp.limit
  births : hp'.births = hp.births
  size : hp'.slots.size = hp.slots.size

namespace Restamped

variable {epoch : Nat} {hp hp' hp'' : Heap}

theorem refl : Restamped epoch hp hp := ⟨fun _ => .inl rfl, rfl, rfl, rfl, rfl, rfl⟩

theorem trans (h₁ : Restamped epoch hp hp') (h₂ : Restamped epoch hp' hp'') : Restamped epoch hp hp'' where
  slots h := by
    rcases h₁.slots h with e₁ | e₁ <;> rcases h₂.slots h with e₂ | e₂ <;> rw [e₂, e₁]
    · exact .inl rfl
    · exact .inr rfl
    · exact .inr rfl
    · right; cases hp.slot? h <;> rfl
  registry := h₂.registry.trans h₁.registry
  free := h₂.free.trans h₁.free
  limit := h₂.limit.trans h₁.limit
  births := h₂.births.trans h₁.births
  size := h₂.size.trans h₁.size

theorem stamp (h : Handle) : Restamped epoch hp (hp.stamp h epoch) where
  slots t := by
    rw [slot?_stamp]
    split
    · rename_i ht; exact .inr (ht ▸ rfl)
    · exact .inl rfl
  registry := stamp_registry ..
  free := stamp_free ..
  limit := stamp_limit ..
  births := stamp_births ..
  size := stamp_size ..

theorem cell? (hr : Restamped epoch hp hp') : hp'.cell? = hp.cell? := by
  funext h
  unfold Heap.cell?
  rcases hr.slots h with e | e <;> rw [e]
  cases hp.slot? h <;> rfl

theorem children (hr : Restamped epoch hp hp') : hp'.children = hp.children := by
  have hcons : hp'.holdsCons = hp.holdsCons := by
    funext h
    simp only [holdsCons, hr.cell?]
  have hrest : hp'.restTarget? = hp.restTarget? := by
    funext v
    cases v <;> simp only [restTarget?, hcons]
  funext c
  cases c <;> simp only [Heap.children, hrest]

/-- an object of the stamped table is an object of the table, with its stamp or the new one -/
theorem slot_before (hr : Restamped epoch hp hp') {h : Handle} {s' : Slot} (hs' : hp'.slot? h = some s') :
    ∃ s, hp.slot? h = some s ∧ (s' = s ∨ s' = { s with epoch := epoch }) := by
  rcases hr.slots h with e | e <;> rw [e] at hs'
  · exact ⟨s', hs', .inl rfl⟩
  · obtain ⟨s, hs, rfl⟩ := Option.map_eq_some_iff.1 hs'
    exact ⟨s, hs, .inr rfl⟩

theorem isSome (hr : Restamped epoch hp hp') (h : Handle) : (hp'.slot? h).isSome = (hp.slot? h).isSome := by
  rcases hr.slots h with e | e <;> rw [e]
  exact Option.isSome_map

end Restamped

/-! ## The marking run -/

/-- nothing is left to be done about a handle: it names an object that has been stamped, or nothing -/
def Seen (hp : Heap) (epoch : Nat) (h : Handle) : Prop := ∀ s, hp.slot? h = some s → s.epoch = epoch

variable {epoch : Nat}

theorem Restamped.seen {hp hp' : Heap} (hr : Restamped epoch hp hp') {h : Handle} (hseen : hp.Seen epoch h) :
    hp'.Seen epoch h := by
  intro s' hs'
  obtain ⟨s, hs, rfl | rfl⟩ := hr.slot_before hs'
  · exact hseen s' hs
  · rfl

theorem stamp_seen (hp : Heap) (h : Handle) : (hp.stamp h epoch).Seen epoch h := by
  intro s' hs'
  rw [slot?_stamp, if_pos rfl] at hs'
  obtain ⟨s, -, rfl⟩ := Option.map_eq_some_iff.1 hs'
  rfl

/-! One step each of the run. -/

theorem mark_vacant {hp : Heap} {h : Handle} (hs : hp.slot? h = none) (work : List Handle) :
    mark epoch hp (h :: work) = mark epoch hp work := by
  rw [mark]
  split
  · rfl
  · simp_all

theorem mark_stamped {hp : Heap} {h : Handle} {s : Slot} (hs : hp.slot? h = some s) (he : s.epoch = epoch)
    (work : List Handle) : mark epoch hp (h :: work) = mark epoch hp work := by
  rw [mark]
  split <;> simp_all

theorem mark_fresh {hp : Heap} {h : Handle} {s : Slot} (hs : hp.slot? h = some s) (he : s.epoch ≠ epoch)
    (work : List Handle) :
    mark epoch hp (h :: work) = mark epoch (hp.stamp h epoch) (hp.children s.cell ++ work) := by
  rw [mark]
  split <;> simp_all

theorem mark_restamped (hp : Heap) (work : List Handle) : Restamped epoch hp (mark epoch hp work) := by
  induction hp, work using mark.induct epoch with
  | case1 hp => rw [mark]; exact .refl
  | case2 hp h work hs ih => rw [mark_vacant hs]; exact ih
  | case3 hp h work s hs he ih => rw [mark_stamped hs he]; exact ih
  | case4 hp h work s hs he next ih => rw [mark_fresh hs he]; exact (Restamped.stamp h).trans ih

/-- the work list is worked off -/
theorem mark_seen (hp : Heap) (work : List Handle) : ∀ h ∈ work, (mark epoch hp work).Seen epoch h := by
  induction hp, work using mark.induct epoch with
  | case1 hp => simp
  | case2 hp h work hs ih =>
    have hseen : hp.Seen epoch h := by intro s hs'; simp [hs] at hs'
    rw [mark_vacant hs]
    exact List.forall_mem_cons.2 ⟨(mark_restamped hp work).seen hseen, ih⟩
  | case3 hp h work s hs he ih =>
    have hseen : hp.Seen epoch h := by intro s' hs'; rw [hs] at hs'; exact Option.some.inj hs' ▸ he
    rw [mark_stamped hs he]
    exact List.forall_mem_cons.2 ⟨(mark_restamped hp work).seen hseen, ih⟩
  | case4 hp h work s hs he next ih =>
    rw [mark_fresh hs he]
    refine List.forall_mem_cons.2 ⟨(mark_restamped _ next).seen (stamp_seen hp h), ?_⟩
    exact fun t ht => ih t (List.mem_append_right _ ht)

/-- whatever a stamped object refers to is stamped itself, or waits in the work list -/
def Frontier (hp : Heap) (epoch : Nat) (work : List Handle) : Prop :=
  ∀ h s, hp.slot? h = some s → s.epoch = epoch → ∀ t ∈ hp.children s.cell, hp.Seen epoch t ∨ t ∈ work

/-- Stamping an object and putting what it refers to on the work list keeps the frontier. -/
theorem Frontier.stamp {hp : Heap} {h : Handle} {s : Slot} {work : List Handle} (hf : hp.Frontier epoch (h :: work))
    (hs : hp.slot? h = some s) : (hp.stamp h epoch).Frontier epoch (hp.children s.cell ++ work) := by
  have hr : Restamped epoch hp (hp.stamp h epoch) := .stamp h
  intro t s' hs' he' u hu
  rw [hr.children] at hu
  by_cases hth : t = h
  · subst hth
    have hcell : s'.cell = s.cell := by
      rw [slot?_stamp, if_pos rfl, hs] at hs'
      exact Option.some.inj hs' ▸ rfl
    exact .inr (List.mem_append_left _ (hcell ▸ hu))
  · rw [slot?_stamp, if_neg hth] at hs'
    rcases hf t s' hs' he' u hu with hseen | hmem
    · exact .inl (hr.seen hseen)
    · rcases List.mem_cons.1 hmem with rfl | hmem
      · exact .inl (stamp_seen hp u)
      · exact .inr (List.mem_append_right _ hmem)

/-- at the end of the run the stamped objects are closed under references -/
theorem mark_closed {hp : Heap} {work : List Handle} (hf : hp.Frontier epoch work) :
    (mark epoch hp work).Frontier epoch [] := by
  induction hp, work using mark.induct epoch with
  | case1 hp => rw [mark]; exact hf
  | case2 hp h work hs ih =>
    rw [mark_vacant hs]
    refine ih fun t s ht he u hu => ?_
    rcases hf t s ht he u hu with hseen | hmem
    · exact .inl hseen
    · rcases List.mem_cons.1 hmem with rfl | hmem
      · exact .inl (by intro s hs'; simp [hs] at hs')
      · exact .inr hmem
  | case3 hp h work s hs he ih =>
    rw [mark_stamped hs he]
    refine ih fun t s' ht he' u hu => ?_
    rcases hf t s' ht he' u hu with hseen | hmem
    · exact .inl hseen
    · rcases List.mem_cons.1 hmem with rfl | hmem
      · exact .inl (by intro s' hs'; rw [hs] at hs'; exact Option.some.inj hs' ▸ he)
      · exact .inr hmem
  | case4 hp h work s hs he next ih =>
    rw [mark_fresh hs he]
    exact ih (hf.stamp hs)

/-- the run stamps only objects of a set that holds the work list and is closed under references -/
theorem mark_within (R : Handle → Prop) {hp : Heap} {work : List Handle} (hwork : ∀ h ∈ work, R h)
    (hclosed : ∀ h s, R h → hp.slot? h = some s → ∀ t ∈ hp.children s.cell, R t) :
    ∀ h s, (mark epoch hp work).slot? h = some s → s.epoch = epoch → R h ∨ hp.slot? h = some s := by
  induction hp, work using mark.induct epoch with
  | case1 hp => rw [mark]; exact fun h s hs _ => .inr hs
  | case2 hp h work hs ih =>
    rw [mark_vacant hs]
    exact ih (List.forall_mem_cons.1 hwork).2 hclosed
  | case3 hp h work s hs he ih =>
    rw [mark_stamped hs he]
    exact ih (List.forall_mem_cons.1 hwork).2 hclosed
  | case4 hp h work s hs he next ih =>
    rw [mark_fresh hs he]
    obtain ⟨hh, hwork⟩ := List.forall_mem_cons.1 hwork
    have hr : Restamped epoch hp (hp.stamp h epoch) := .stamp h
    have hnext : ∀ t ∈ next, R t := fun t ht => (List.mem_append.1 ht).elim (hclosed h s hh hs t) (hwork t)
    have hclosed' : ∀ t s', R t → (hp.stamp h epoch).slot? t = some s' →
        ∀ u ∈ (hp.stamp h epoch).children s'.cell, R u := by
      intro t s' ht hs' u hu
      obtain ⟨s₀, hs₀, e⟩ := hr.slot_before hs'
      have hcell : s'.cell = s₀.cell := by rcases e with rfl | rfl <;> rfl
      rw [hr.children, hcell] at hu
      exact hclosed t s₀ ht hs₀ u hu
    intro t s' hs' he'
    rcases ih hnext hclosed' t s' hs' he' with hR | hst
    · exact .inl hR
    · by_cases hth : t = h
      · exact .inl (hth ▸ hh)
      · rw [slot?_stamp, if_neg hth] at hst
        exact .inr hst

end LispMachine.Heap
