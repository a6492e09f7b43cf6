/-
Exactness of a collection pass.

The roots, and what is reachable from them along the references of objects, are relations of their own; a pass works on
lists of handles. `collect_exact`: in a machine whose objects are typed, whose registry lists the objects in use and whose
stamps are not from the future, a pass keeps exactly the reachable objects, under their handles and as they were, in their
order, and releases all others.
-/
import Mathlib.Tactic
import LispMachine.Machine.Collector
import LispMachine.Proofs.Actions
import LispMachine.Proofs.References
import LispMachine.Proofs.Sweeping

namespace LispMachine.Machine

/-! ## Reachability -/

/-- a handle that a pass starts from -/
inductive Root (m : Machine) : Handle → Prop where
  | pin {t : Thread} {v : Value} {h : Handle} {k : Kind} :
      t ∈ m.threads → t.isOpen = true → v ∈ t.pins → v.Names h k → Root m h
  | scope {t : Thread} {h : Handle} : t ∈ m.threads → t.isOpen = true → h ∈ t.scopes → Root m h
  | slot {t : Thread} {v : Value} {h : Handle} {k : Kind} :
      t ∈ m.threads → t.isOpen = true → v ∈ t.stack.items → v.Names h k → Root m h
  | inUse {h : Handle} : m.useCount h ≠ 0 → Root m h
  | symbol {name : String} {h : Handle} : (name, h) ∈ m.symbols → Root m h
  | exhausted : Root m exhaustedError.handle

/-- a handle that some chain of references leads to from a root -/
inductive Reachable (m : Machine) : Handle → Prop where
  | root {h : Handle} : m.Root h → Reachable m h
  | step {h t : Handle} {c : Cell} {k : Kind} : Reachable m h → m.cell? h = some c → c.Names t k → Reachable m t

theorem mem_scopesInUse {m : Machine} {h : Handle} : h ∈ m.scopesInUse ↔ m.useCount h ≠ 0 := by
  simp only [scopesInUse, List.mem_filter, List.mem_range, decide_eq_true_eq, and_iff_right_iff_imp]
  intro hne
  by_contra hlt
  exact hne (by simp [useCount, Array.getElem?_eq_none (Nat.le_of_not_lt hlt)])

theorem mem_roots {m : Machine} {v : Value} :
    v ∈ m.roots ↔
      (∃ t ∈ m.threads, t.isOpen = true ∧
        (v ∈ t.pins ∨ (∃ h ∈ t.scopes, .scope h = v) ∨ v ∈ t.stack.items)) ∨
      ∃ h, m.useCount h ≠ 0 ∧ .scope h = v := by
  simp only [roots, List.mem_append, List.mem_flatMap, List.mem_map, mem_scopesInUse, Array.mem_toList_iff]
  refine or_congr (exists_congr fun t => and_congr_right fun _ => ?_) Iff.rfl
  unfold Thread.roots
  cases t.isOpen <;> simp

/-- marking starts from the roots -/
theorem mem_markingStart {m : Machine} {h : Handle} : h ∈ m.markingStart ↔ m.Root h := by
  simp only [markingStart, List.mem_append, List.mem_map, List.mem_cons, List.mem_filterMap, mem_roots,
    Value.target?_eq_some, Prod.exists]
  constructor
  · rintro (⟨name, _, hs, rfl⟩ | rfl | ⟨v, ⟨t, ht, ho, hv | ⟨g, hg, rfl⟩ | hv⟩ | ⟨g, hg, rfl⟩, k, hk⟩)
    · exact .symbol hs
    · exact .exhausted
    · exact .pin ht ho hv hk
    · cases hk; exact .scope ht ho hg
    · exact .slot ht ho hv hk
    · cases hk; exact .inUse hg
  · rintro (⟨ht, ho, hv, hk⟩ | ⟨ht, ho, hg⟩ | ⟨ht, ho, hv, hk⟩ | hg | hs | -)
    · exact .inr (.inr ⟨_, .inl ⟨_, ht, ho, .inl hv⟩, _, hk⟩)
    · exact .inr (.inr ⟨_, .inl ⟨_, ht, ho, .inr (.inl ⟨_, hg, rfl⟩)⟩, _, .scope _⟩)
    · exact .inr (.inr ⟨_, .inl ⟨_, ht, ho, .inr (.inr hv)⟩, _, hk⟩)
    · exact .inr (.inr ⟨_, .inr ⟨_, hg, rfl⟩, _, .scope _⟩)
    · exact .inl ⟨_, _, hs, rfl⟩
    · exact .inr (.inl rfl)

/-! ## A pass -/

/-- what a pass relies on -/
structure Collectable (m : Machine) : Prop where
  typed : m.heap.Typed
  registered : ∀ h, h ∈ m.heap.registry ↔ (m.heap.slot? h).isSome
  nodup : m.heap.registry.toList.Nodup
  stamped : ∀ h s, m.heap.slot? h = some s → s.epoch ≤ m.collector.epoch
  /-- the slots of every open thread's stack can be read -/
  readable : ∀ t ∈ m.threads, t.isOpen = true → t.stack.beyond = 0

/-- the table after marking in the next epoch -/
def markedHeap (m : Machine) : Heap := m.heap.mark (m.collector.epoch + 1) m.markingStart

variable {m : Machine}

theorem markedHeap_restamped : m.heap.Restamped (m.collector.epoch + 1) m.markedHeap := Heap.mark_restamped ..

theorem Collectable.brokenStack?_eq (hm : m.Collectable) : m.brokenStack? = none := by
  have hnone : m.threads.find? (fun t => t.isOpen && t.stack.beyond ≠ 0) = none := by
    rw [Array.find?_eq_none]
    intro t ht
    simp only [Bool.and_eq_true, decide_eq_true_eq, not_and, not_not]
    exact hm.readable t ht
  simp only [brokenStack?, hnone, Option.map_none]

/-- nothing is stamped with the next epoch before the pass -/
theorem Collectable.unstamped (hm : m.Collectable) {h : Handle} {s : Slot} (hs : m.heap.slot? h = some s) :
    s.epoch ≠ m.collector.epoch + 1 := by
  have := hm.stamped h s hs
  omega

/-- the objects stamped by marking are exactly the reachable ones -/
theorem Collectable.isMarked_iff (hm : m.Collectable) {h : Handle} (hs : (m.heap.slot? h).isSome) :
    m.markedHeap.isMarked (m.collector.epoch + 1) h = true ↔ m.Reachable h := by
  have hr := @markedHeap_restamped m
  have hclosed : m.markedHeap.Frontier (m.collector.epoch + 1) [] :=
    Heap.mark_closed fun h s hs he => absurd he (hm.unstamped hs)
  have hstart := @Heap.mark_seen (m.collector.epoch + 1) m.heap m.markingStart
  constructor
  · intro hmark
    obtain ⟨s', hs', he⟩ : ∃ s', m.markedHeap.slot? h = some s' ∧ s'.epoch = m.collector.epoch + 1 := by
      unfold Heap.isMarked at hmark
      split at hmark
      · exact ⟨_, ‹_›, by simpa using hmark⟩
      · cases hmark
    have hwithin := Heap.mark_within m.Reachable (fun t ht => .root (mem_markingStart.1 ht))
      (fun t s ht hts u hu => by
        obtain ⟨k, hk⟩ := (Heap.mem_children hm.typed (Heap.cell?_of_slot? hts)).1 hu
        exact .step ht (Heap.cell?_of_slot? hts) hk) h s' hs' he
    exact hwithin.resolve_right fun hold => hm.unstamped hold he
  · intro hreach
    have hseen : m.markedHeap.Seen (m.collector.epoch + 1) h := by
      clear hs
      induction hreach with
      | root hroot => exact hstart _ (mem_markingStart.2 hroot)
      | step _ hc hk ih =>
        obtain ⟨s, hs, hcell⟩ := Heap.cell?_eq_some.1 ((congrFun hr.cell? _).trans hc)
        have hmem := (Heap.mem_children hm.typed hc).2 ⟨_, hk⟩
        have := hclosed _ s hs (ih s hs) _ (by rw [hr.children, hcell]; exact hmem)
        simpa using this
    obtain ⟨s', hs'⟩ := Option.isSome_iff_exists.1 ((hr.isSome h).trans hs)
    simp [Heap.isMarked, hs', hseen s' hs']

/-- what lies around an object is something it refers to -/
theorem names_of_outer {c : Cell} {p : Handle} (h : c.outer = .scope p) : c.Names p .scope := by
  cases c with
  | scope s => exact .parent h
  | function f =>
    obtain ⟨name, params, body⟩ := f
    cases body with
    | forms list outer =>
      obtain rfl : outer = .scope p := h
      exact .captured rfl
    | primitive => cases h
  | _ => cases h

/-- an object in use is doomed exactly if it cannot be reached -/
theorem Collectable.mem_doomed_iff (hm : m.Collectable) {h : Handle} (hs : (m.heap.slot? h).isSome) :
    h ∈ m.markedHeap.doomed (m.collector.epoch + 1) ↔ ¬ m.Reachable h := by
  rw [Heap.mem_doomed, markedHeap_restamped.registry, hm.registered, ← hm.isMarked_iff hs]
  simp [hs]

/-- nothing that is kept lies in a scope that is released -/
theorem Collectable.sheltered (hm : m.Collectable) :
    (((m.markedHeap.doomed (m.collector.epoch + 1)).foldl Heap.release m.markedHeap)).Sheltered
      (m.markedHeap.registry.filter (m.markedHeap.isMarked (m.collector.epoch + 1))).toList := by
  have hr := @markedHeap_restamped m
  intro h hkept c p hc hout
  simp only [Array.toList_filter, List.mem_filter, Array.mem_toList_iff, hr.registry, hm.registered] at hkept
  have hreach : m.Reachable h := (hm.isMarked_iff hkept.1).1 hkept.2
  have hcell : m.heap.cell? h = some c := by
    rw [← congrFun hr.cell? h]
    obtain ⟨s, hs, rfl⟩ := Heap.cell?_eq_some.1 hc
    rw [Heap.slot?_releaseAll, if_neg ((hm.mem_doomed_iff hkept.1).not_left.2 hreach)] at hs
    exact Heap.cell?_of_slot? hs
  have hp : (m.heap.slot? p).isSome := Heap.isSome_of_kind? (hm.typed h c p _ hcell (names_of_outer hout))
  have hpreach : m.Reachable p := .step hreach hcell (names_of_outer hout)
  rw [Heap.slot?_releaseAll, if_neg ((hm.mem_doomed_iff hp).not_left.2 hpreach), hr.isSome]
  exact hp

/-- the table that a pass leaves -/
def collectedHeap (m : Machine) : Heap := m.markedHeap.swept (m.collector.epoch + 1)

/-- the record of a pass -/
def passRecord (m : Machine) (trigger : Trigger) : Pass where
  epoch := m.collector.epoch + 1
  trigger := trigger
  roots := m.roots.length
  swept := (m.markedHeap.sweep (m.collector.epoch + 1)).2
  survivors := m.collectedHeap.alive
  threshold := max m.collector.minThreshold (2 * m.collectedHeap.alive)

/-- the machine after a pass -/
def collected (m : Machine) (trigger : Trigger) : Machine :=
  { m with
    heap := m.collectedHeap
    collector := { m.collector with
      epoch := m.collector.epoch + 1
      threshold := (m.passRecord trigger).threshold
      marking := false }.record (m.passRecord trigger)
    journal := .passed trigger :: m.journal }

theorem Collectable.run_collect (hm : m.Collectable) (trigger : Trigger) :
    (Act.collect trigger).run m = .ok (m.passRecord trigger) (m.collected trigger) := by
  have hsweep : (m.markedHeap.sweep (m.collector.epoch + 1)).1 = m.collectedHeap := Heap.sweep_eq_swept hm.sheltered
  have hbroken : brokenStack? { m with journal := .passed trigger :: m.journal } = none := hm.brokenStack?_eq
  simp only [Act.collect, Act.checkRoots, Act.run_bind, Act.run_note, Act.run_get, hbroken, Act.run_pure, Act.run_set]
  simp only [passRecord, collected, ← hsweep]
  rfl

/-- what a pass releases and what it keeps add up to what was in use -/
theorem Collectable.counts_collected (hm : m.Collectable) (trigger : Trigger) :
    (m.passRecord trigger).swept + m.collectedHeap.alive = m.heap.alive := by
  have hcounts := m.markedHeap.sweep_counts (m.collector.epoch + 1)
  rw [Heap.sweep_eq_swept hm.sheltered, markedHeap_restamped.registry, ← Heap.counted, ← Heap.counted] at hcounts
  exact hcounts

/-! ## Exactness -/

open Classical in
/-- `m'` is what an exact pass with the record `p` makes of `m` -/
structure ExactPass (m m' : Machine) (p : Pass) : Prop where
  /-- the objects in use are those that were in use and reachable -/
  survivors : ∀ h, (m'.heap.slot? h).isSome ↔ (m.heap.slot? h).isSome ∧ m.Reachable h
  /-- they are the same objects as before, but for the stamp -/
  contents : ∀ h s', m'.heap.slot? h = some s' →
    ∃ s, m.heap.slot? h = some s ∧ s' = { s with epoch := m.collector.epoch + 1 }
  order : m'.heap.registry.toList = m.heap.registry.toList.filter fun h => m.Reachable h
  /-- the other handles are free again, the last released first -/
  freed : m'.heap.free = (m.heap.registry.toList.filter fun h => ¬ m.Reachable h).reverse ++ m.heap.free
  counts : p.survivors = m'.heap.alive ∧ p.swept + p.survivors = m.heap.alive
  epoch : p.epoch = m.collector.epoch + 1 ∧ m'.collector.epoch = p.epoch
  threshold : p.threshold = max m.collector.minThreshold (2 * p.survivors) ∧ m'.collector.threshold = p.threshold
  others : m' = { m with heap := m'.heap, collector := m'.collector, journal := m'.journal }

open Classical in
theorem Collectable.registry_collected (hm : m.Collectable) :
    m.collectedHeap.registry.toList = m.heap.registry.toList.filter fun h => m.Reachable h := by
  simp only [collectedHeap, Heap.swept, Array.toList_filter, markedHeap_restamped.registry]
  refine List.filter_congr fun h hmem => ?_
  have hs := (hm.registered h).1 (by simpa using hmem)
  rw [Bool.eq_iff_iff, hm.isMarked_iff hs, decide_eq_true_eq]

open Classical in
theorem Collectable.doomed_eq (hm : m.Collectable) :
    m.markedHeap.doomed (m.collector.epoch + 1) = m.heap.registry.toList.filter fun h => ¬ m.Reachable h := by
  simp only [Heap.doomed, markedHeap_restamped.registry]
  refine List.filter_congr fun h hmem => ?_
  have hs := (hm.registered h).1 (by simpa using hmem)
  rw [Bool.eq_iff_iff, decide_eq_true_eq, ← hm.isMarked_iff hs]
  simp

theorem Collectable.slot?_collected (hm : m.Collectable) {h : Handle} {s' : Slot}
    (hs' : m.collectedHeap.slot? h = some s') :
    m.Reachable h ∧ ∃ s, m.heap.slot? h = some s ∧ s' = { s with epoch := m.collector.epoch + 1 } := by
  rw [collectedHeap, Heap.slot?_swept] at hs'
  split at hs'
  · cases hs'
  · rename_i hkept
    obtain ⟨s, hs, hcase⟩ := markedHeap_restamped.slot_before hs'
    have hin : (m.heap.slot? h).isSome := by simp [hs]
    have hreach : m.Reachable h := (hm.mem_doomed_iff hin).not_left.1 hkept
    refine ⟨hreach, s, hs, ?_⟩
    have hmark := (hm.isMarked_iff hin).2 hreach
    simp only [Heap.isMarked, hs', decide_eq_true_eq] at hmark
    rcases hcase with rfl | rfl
    · simp [← hmark]
    · rfl

theorem Collectable.isSome_collected (hm : m.Collectable) {h : Handle} :
    (m.collectedHeap.slot? h).isSome ↔ (m.heap.slot? h).isSome ∧ m.Reachable h := by
  constructor
  · intro hs
    obtain ⟨s', hs'⟩ := Option.isSome_iff_exists.1 hs
    obtain ⟨hreach, s, hs, -⟩ := hm.slot?_collected hs'
    exact ⟨by simp [hs], hreach⟩
  · rintro ⟨hs, hreach⟩
    rw [collectedHeap, Heap.slot?_swept, if_neg ((hm.mem_doomed_iff hs).not_left.2 hreach),
      markedHeap_restamped.isSome]
    exact hs

/-- One pass, over any heap and from any roots, keeps exactly what can be reached. -/
theorem collect_exact (m : Machine) (trigger : Trigger) (hm : m.Collectable) :
    ∃ p m', (Act.collect trigger).run m = .ok p m' ∧ m.ExactPass m' p := by
  refine ⟨_, _, hm.run_collect trigger, ?_⟩
  exact
    { survivors := fun h => hm.isSome_collected
      contents := fun h s' hs' => (hm.slot?_collected hs').2
      order := hm.registry_collected
      freed := by
        simp only [collected, collectedHeap, Heap.swept, Heap.free_releaseAll, hm.doomed_eq,
          markedHeap_restamped.free]
      counts := ⟨rfl, hm.counts_collected trigger⟩
      epoch := ⟨rfl, rfl⟩
      threshold := ⟨rfl, rfl⟩
      others := rfl }

/-- a machine with a pair that is its own rest, pinned, and another pair that nothing refers to -/
def pinnedLoop : Machine :=
  { initial with
    heap :=
      { slots := #[none, initial.heap.slots[1]!, some ⟨.cons .nil (.cons 2), 1, 1, false⟩,
          some ⟨.cons (.cons 2) .nil, 1, 2, false⟩]
        registry := #[1, 2, 3]
        count := 3
        births := 3 }
    threads := #[{ stack := { id := 0, capacity := 4 }, pins := #[.cons 2] }] }

theorem pinnedLoop_slot? {h : Handle} {s : Slot} (hs : pinnedLoop.heap.slot? h = some s) :
    (h = 1 ∧ s = ⟨.error { kind := .heapExhausted }, 1, 0, false⟩) ∨
      (h = 2 ∧ s = ⟨.cons .nil (.cons 2), 1, 1, false⟩) ∨ (h = 3 ∧ s = ⟨.cons (.cons 2) .nil, 1, 2, false⟩) := by
  have hlt : h < 4 := Heap.slot?_lt hs
  match h, hlt with
  | 0, _ => cases hs
  | 1, _ => cases hs; exact .inl ⟨rfl, rfl⟩
  | 2, _ => cases hs; exact .inr (.inl ⟨rfl, rfl⟩)
  | 3, _ => cases hs; exact .inr (.inr ⟨rfl, rfl⟩)

theorem pinnedLoop_collectable : pinnedLoop.Collectable where
  typed h c t k hc hk := by
    obtain ⟨s, hs, rfl⟩ := Heap.cell?_eq_some.1 hc
    rcases pinnedLoop_slot? hs with ⟨-, rfl⟩ | ⟨-, rfl⟩ | ⟨-, rfl⟩
    · rcases hk with _ | _ | _ | _ | _ | _ | _ | _ | _ | _ | _ | hn | hv | hv
      · cases hn
      · cases hv
      · cases hv
    · rcases hk with hv | hv
      · cases hv
      · cases hv; rfl
    · rcases hk with hv | hv
      · cases hv; rfl
      · cases hv
  registered h := by
    constructor
    · intro hmem
      have : h = 1 ∨ h = 2 ∨ h = 3 := by simpa [pinnedLoop] using hmem
      rcases this with rfl | rfl | rfl <;> rfl
    · intro hsome
      obtain ⟨s, hs⟩ := Option.isSome_iff_exists.1 hsome
      rcases pinnedLoop_slot? hs with ⟨rfl, -⟩ | ⟨rfl, -⟩ | ⟨rfl, -⟩ <;> simp [pinnedLoop]
  nodup := by decide
  stamped h s hs := by
    rcases pinnedLoop_slot? hs with ⟨-, rfl⟩ | ⟨-, rfl⟩ | ⟨-, rfl⟩ <;> exact Nat.le_refl 1
  readable t ht _ := by
    obtain rfl : t = { stack := { id := 0, capacity := 4 }, pins := #[.cons 2] } := by simpa [pinnedLoop] using ht
    rfl

theorem collect_exact_pinnedLoop :
    pinnedLoop.Collectable ∧
      ∃ p m', (Act.collect .explicit).run pinnedLoop = .ok p m' ∧ pinnedLoop.ExactPass m' p :=
  ⟨pinnedLoop_collectable, collect_exact pinnedLoop .explicit pinnedLoop_collectable⟩

end LispMachine.Machine
