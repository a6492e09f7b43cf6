/-
The books of the heap.

The slots, the list of free handles and the registry with its counter change at different moments. `Booked` says how they fit
together: the registry lists the occupied slots, once each, every object is under the handle that its allocation gave it, and
the occupied and the free handles are the handles made so far. An allocation, a store and a pass keep the books, whatever the
objects hold and whatever the pass starts from. `History.booked`: so the books are in order after any sequence of allocations,
granted or refused, and passes. In such a machine an allocation takes a vacant slot, a pass releases nothing twice, and an
allocation that is refused changes nothing.
-/
import LispMachine.Proofs.Books
import LispMachine.Proofs.Collection

namespace LispMachine

namespace Heap

/-- the last handle that was made -/
def next (hp : Heap) : Nat := hp.slots.size - 1

/-- the books are in order; `issued` lists the handles that allocations gave out, by serial number -/
structure Booked (hp : Heap) (issued : List Handle) : Prop extends hp.InOrder where
  /-- every object is under the handle that it was given -/
  home : ∀ h s, hp.slot? h = some s → issued[s.serial]? = some h
  births : hp.births = issued.length
  covers : ∀ h : Nat, h ∈ hp.registry ∨ h ∈ hp.free ↔ 1 ≤ h ∧ h ≤ hp.next
  issued_pos : ∀ h ∈ issued, h ≠ 0
  nonempty : 0 < hp.slots.size
  bounded : ∀ limit, hp.limit = some limit → hp.next < limit
  counted : hp.alive = hp.registry.size

variable {hp hp' : Heap} {issued : List Handle}

namespace Booked

theorem same (h : hp.Booked issued) (hs : hp.SameBooks hp') : hp'.Booked issued where
  toInOrder := h.toInOrder.same hs
  home t s ht := by
    have hserial := hs.serials t
    rw [ht, Option.map_some] at hserial
    obtain ⟨s', hs', heq⟩ := Option.map_eq_some_iff.1 hserial.symm
    exact heq ▸ h.home t s' hs'
  births := hs.births.trans h.births
  covers := by rw [hs.free, hs.registry, next, hs.size]; exact h.covers
  issued_pos := h.issued_pos
  nonempty := hs.size ▸ h.nonempty
  bounded := by rw [hs.limit, next, hs.size]; exact h.bounded
  counted := hp'.counted

/-- the handle that the next object gets is not zero -/
theorem nextHandle_pos (h : hp.Booked issued) : hp.nextHandle ≠ 0 := by
  have hpos := h.nonempty
  unfold nextHandle
  cases hf : hp.free with
  | nil => exact Nat.ne_of_gt hpos
  | cons t free => exact Nat.ne_of_gt ((h.covers t).1 (.inr (by simp [hf]))).1

/-- the handles of objects start at one and stay below the limit -/
theorem handle_bounds (h : hp.Booked issued) {limit : Nat} (hlimit : hp.limit = some limit) {t : Handle}
    (ht : (hp.slot? t).isSome = true) : 1 ≤ t ∧ t < limit := by
  obtain ⟨hpos, hle⟩ := (h.covers t).1 (.inl ((h.registered t).2 ht))
  exact ⟨hpos, hle.trans_lt (h.bounded limit hlimit)⟩

theorem serial_lt (h : hp.Booked issued) {t : Handle} {s : Slot} (ht : hp.slot? t = some s) : s.serial < issued.length :=
  (List.getElem?_eq_some_iff.1 (h.home t s ht)).1

/-- an object for which there is room keeps the books -/
theorem insert (h : hp.Booked issued) (hroom : hp.isFull = false) (c : Cell) (epoch : Nat) (text : Bool) :
    (hp.insert c epoch text).Booked (issued ++ [hp.nextHandle]) where
  toInOrder := h.toInOrder.insert c epoch text
  home t s hs := by
    rw [h.slot?_insert] at hs
    split at hs
    · rename_i ht
      obtain rfl := Option.some.inj hs
      rw [h.births, List.getElem?_append_right le_rfl, Nat.sub_self, ht]
      rfl
    · rw [List.getElem?_append_left (h.serial_lt hs)]
      exact h.home t s hs
  births := by rw [insert_births, h.births, List.length_append, List.length_singleton]
  covers t := by
    have hold := h.covers t
    have hpos := h.nonempty
    rw [insert_registry, insert_free, Array.mem_push, next, insert_size]
    unfold next at hold
    cases hf : hp.free with
    | nil =>
      simp only [hf, List.not_mem_nil, or_false] at hold
      simp only [nextHandle, hf, List.headD_nil, List.tail_nil, List.not_mem_nil, or_false, if_true, hold]
      omega
    | cons u free =>
      simp only [hf, List.mem_cons] at hold
      simp only [nextHandle, hf, List.headD_cons, List.tail_cons, reduceCtorEq, if_false, ← hold]
      tauto
  issued_pos t ht := by
    rw [List.mem_append, List.mem_singleton] at ht
    rcases ht with ht | rfl
    · exact h.issued_pos t ht
    · exact h.nextHandle_pos
  nonempty := by
    have hpos := h.nonempty
    rw [insert_size]
    split <;> omega
  bounded limit hlimit := by
    rw [insert_limit] at hlimit
    have hlt := h.bounded limit hlimit
    have hpos := h.nonempty
    rw [next, insert_size]
    unfold next at hlt
    split
    · rename_i hf
      by_contra hge
      exact Bool.eq_false_iff.1 hroom ((isFull_iff hp).2 ⟨hf, limit, hlimit, by omega⟩)
    · exact hlt
  counted := (hp.insert c epoch text).counted

theorem swept (h : hp.Booked issued) (epoch : Nat) : (hp.swept epoch).Booked issued where
  toInOrder := h.toInOrder.swept epoch
  home t s hs := by
    rw [slot?_swept] at hs
    split at hs
    · cases hs
    · exact h.home t s hs
  births := (births_releaseAll ..).trans h.births
  covers t := by
    have hold := h.covers t
    simp only [Heap.swept, free_releaseAll, next, size_releaseAll, List.mem_append, List.mem_reverse, Array.mem_filter,
      mem_doomed]
    unfold next at hold
    rw [← hold]
    cases hp.isMarked epoch t <;> simp
  issued_pos := h.issued_pos
  nonempty := by
    simp only [Heap.swept, size_releaseAll]
    exact h.nonempty
  bounded := by
    simp only [Heap.swept, limit_releaseAll, next, size_releaseAll]
    exact h.bounded
  counted := (hp.swept epoch).counted

theorem sweep (h : hp.Booked issued) (epoch : Nat) : (hp.sweep epoch).1.Booked issued := (h.swept epoch).same (.sweep hp epoch)

theorem mark (h : hp.Booked issued) (epoch : Nat) (work : List Handle) : (hp.mark epoch work).Booked issued :=
  h.same (.of_restamped (mark_restamped ..))

end Booked

end Heap

/-! ## Actions -/

namespace Machine

/-- the machine with a new object in its heap -/
def inserting (m : Machine) (cell : Cell) (text : Bool) : Machine :=
  { m with heap := m.heap.insert cell m.collector.epoch text }

/-- the machine after an allocation that found the heap full -/
def refusing (m : Machine) : Machine := { m with journal := .refused :: m.journal }

variable {m : Machine}

theorem run_allocate (m : Machine) (cell : Cell) (text : Bool) :
    (Act.allocate cell text).run m =
      if m.heap.isFull then .error (.fault .exhausted) m.refusing else .ok m.heap.nextHandle (m.inserting cell text) := by
  cases hfull : m.heap.isFull <;> simp [Act.allocate, Act.run_bind, hfull, inserting, refusing]

/-- a symbol that is known is not made again -/
theorem run_intern_known {name : String} {h : Handle} (hs : m.symbols.lookup name = some h) :
    (Act.intern name).run m = .ok h m := by
  simp [Act.intern, Act.run_bind, hs]

theorem run_intern_new {name : String} (hs : m.symbols.lookup name = none) :
    (Act.intern name).run m =
      if m.heap.isFull then .error (.fault .exhausted) m.refusing
      else .ok m.heap.nextHandle
        { m.inserting (.symbol name) false with symbols := (name, m.heap.nextHandle) :: m.symbols } := by
  cases hfull : m.heap.isFull <;> simp [Act.intern, Act.run_bind, hs, run_allocate, hfull, inserting]

/-- a pass sweeps what it has marked, unless it fails before that -/
theorem heap_collect (m : Machine) (trigger : Trigger) :
    (Outcome.machine ((Act.collect trigger).run m)).heap = m.heap ∨
      (Outcome.machine ((Act.collect trigger).run m)).heap = (m.markedHeap.sweep (m.collector.epoch + 1)).1 := by
  have hbroken : brokenStack? { m with journal := .passed trigger :: m.journal } = m.brokenStack? := rfl
  simp only [Act.collect, Act.checkRoots, Act.run_bind, Act.run_note, Act.run_get, hbroken]
  cases m.brokenStack? with
  | some s => exact .inl rfl
  | none => exact .inr rfl

/-! ## Runs -/

/-- the machine at the start, with a heap of another size -/
def initialWithin (limit : Option Nat) : Machine := { initial with heap := { initial.heap with limit := limit } }

/-- the handle that an allocation gave out, if it gave out one -/
def given : Outcome Handle → List Handle
  | .ok h _ => [h]
  | .error _ _ => []

/-- what allocations and passes make of the machine at the start, with the handles given out on the way; objects may be
written to, and whatever is not the heap may change -/
inductive History (limit : Option Nat) : List Handle → Machine → Prop where
  | start : History limit [exhaustedError.handle] (initialWithin limit)
  | allocate {issued : List Handle} {m : Machine} (cell : Cell) (text : Bool) : History limit issued m →
      History limit (issued ++ given ((Act.allocate cell text).run m)) (Outcome.machine ((Act.allocate cell text).run m))
  | intern {issued : List Handle} {m : Machine} (name : String) : History limit issued m →
      History limit (if (m.symbols.lookup name).isSome then issued else issued ++ given ((Act.intern name).run m))
        (Outcome.machine ((Act.intern name).run m))
  | collect {issued : List Handle} {m : Machine} (trigger : Trigger) : History limit issued m →
      History limit issued (Outcome.machine ((Act.collect trigger).run m))
  | store {issued : List Handle} {m : Machine} (h : Handle) (cell : Cell) : History limit issued m →
      History limit issued { m with heap := m.heap.write h cell }
  | change {issued : List Handle} {m m' : Machine} : History limit issued m → m'.heap = m.heap → History limit issued m'

theorem booked_initialWithin {limit : Option Nat} (hlimit : ∀ n, limit = some n → 2 ≤ n) :
    (initialWithin limit).heap.Booked [exhaustedError.handle] where
  nodup := List.nodup_singleton _
  registered h := by rcases h with _ | _ | h <;> simp [initialWithin, initial, exhaustedError, Heap.slot?]
  distinct := .nil
  vacant h hh := by cases hh
  home h s hs := by
    have hlt : h < 2 := Heap.slot?_lt hs
    rcases h with _ | _ | h
    · cases hs
    · cases hs
      rfl
    · exact absurd hlt (by simp)
  births := rfl
  covers h := by
    have hmem : h ∈ (initialWithin limit).heap.registry ↔ h = 1 := by simp [initialWithin, initial, exhaustedError]
    have hfree : h ∉ (initialWithin limit).heap.free := by simp [initialWithin, initial]
    have hnext : (initialWithin limit).heap.next = 1 := rfl
    rw [hmem, hnext]
    simp only [hfree, or_false]
    omega
  issued_pos h hh := by
    obtain rfl := List.mem_singleton.1 hh
    decide
  nonempty := Nat.two_pos
  bounded n hn := Nat.lt_of_succ_le (hlimit n hn)
  counted := rfl

theorem booked_allocate {issued : List Handle} (hm : m.heap.Booked issued) (cell : Cell) (text : Bool) :
    (Outcome.machine ((Act.allocate cell text).run m)).heap.Booked
      (issued ++ given ((Act.allocate cell text).run m)) := by
  rw [run_allocate]
  cases hfull : m.heap.isFull with
  | true => simpa [given, Outcome.machine, refusing] using hm
  | false => exact hm.insert hfull cell _ text

theorem booked_intern {issued : List Handle} (hm : m.heap.Booked issued) (name : String) :
    (Outcome.machine ((Act.intern name).run m)).heap.Booked
      (if (m.symbols.lookup name).isSome then issued else issued ++ given ((Act.intern name).run m)) := by
  cases hs : m.symbols.lookup name with
  | some h => rw [run_intern_known hs]; exact hm
  | none =>
    rw [run_intern_new hs]
    cases hfull : m.heap.isFull with
    | true => simpa [given, Outcome.machine, refusing] using hm
    | false => exact hm.insert hfull _ _ _

/-- The books are in order after any sequence of allocations and passes. -/
theorem History.booked {limit : Option Nat} (hlimit : ∀ n, limit = some n → 2 ≤ n) {issued : List Handle}
    (hm : History limit issued m) : m.heap.Booked issued := by
  induction hm with
  | start => exact booked_initialWithin hlimit
  | allocate cell text _ ih => exact booked_allocate ih cell text
  | intern name _ ih => exact booked_intern ih name
  | @collect _ m trigger _ ih =>
    rcases heap_collect m trigger with hheap | hheap
    · exact hheap ▸ ih
    · exact hheap ▸ (ih.mark ..).sweep _
  | store h cell _ ih => exact ih.same (.write ..)
  | change _ hheap ih => exact hheap ▸ ih

/-- no allocation and no pass moves the limit -/
theorem History.limit_eq {limit : Option Nat} {issued : List Handle} (hm : History limit issued m) : m.heap.limit = limit := by
  induction hm with
  | start => rfl
  | @allocate _ m cell text _ ih =>
    rw [run_allocate]
    cases m.heap.isFull with
    | true => exact ih
    | false => exact (Heap.insert_limit ..).trans ih
  | @intern _ m name _ ih =>
    cases hs : m.symbols.lookup name with
    | some h => rw [run_intern_known hs]; exact ih
    | none =>
      rw [run_intern_new hs]
      cases m.heap.isFull with
      | true => exact ih
      | false => exact (Heap.insert_limit ..).trans ih
  | @collect _ m trigger _ ih =>
    have hmark : m.heap.SameBooks m.markedHeap := .of_restamped markedHeap_restamped
    rcases heap_collect m trigger with hheap | hheap
    · exact hheap ▸ ih
    · rw [hheap, (Heap.SameBooks.sweep ..).limit, Heap.swept, Heap.limit_releaseAll, hmark.limit, ih]
  | store h cell _ ih => exact (Heap.write_limit ..).trans ih
  | change _ hheap ih => exact hheap ▸ ih

/-! ## What comes of it -/

/-- the new object is alone in its slot and last in the registry -/
structure Placed (m : Machine) (cell : Cell) (h : Handle) (m' : Machine) : Prop where
  pos : h ≠ 0
  vacant : m.heap.slot? h = none
  cell : m'.heap.cell? h = some cell
  others : ∀ g, g ≠ h → m'.heap.slot? g = m.heap.slot? g
  registry : m'.heap.registry = m.heap.registry.push h
  alive : m'.heap.alive = m.heap.alive + 1

theorem placed_inserting {issued : List Handle} (hm : m.heap.Booked issued) (cell : Cell) (text : Bool) {m' : Machine}
    (hheap : m'.heap = (m.inserting cell text).heap) : m.Placed cell m.heap.nextHandle m' where
  pos := hm.nextHandle_pos
  vacant := hm.slot?_nextHandle
  cell := by
    rw [hheap, inserting, Heap.cell?, hm.slot?_insert, if_pos rfl]
    rfl
  others g hg := by rw [hheap, inserting, hm.slot?_insert, if_neg hg]
  registry := by rw [hheap, inserting, Heap.insert_registry]
  alive := by
    simp only [Heap.alive, Heap.counted]
    rw [hheap, inserting, Heap.insert_registry, Array.size_push]

/-- the heap is full when no handle is free and the last one has been made -/
theorem isFull_iff_of_booked {issued : List Handle} (hm : m.heap.Booked issued) :
    m.heap.isFull = true ↔ m.heap.free = [] ∧ m.heap.limit = some (m.heap.next + 1) := by
  have hpos := hm.nonempty
  rw [Heap.isFull_iff]
  refine and_congr_right fun _ => ⟨?_, fun hlimit => ⟨_, hlimit, ?_⟩⟩
  · rintro ⟨limit, hlimit, hle⟩
    have hlt := hm.bounded limit hlimit
    unfold Heap.next at *
    rw [hlimit]
    congr 1
    omega
  · unfold Heap.next
    omega

/-- The books of the heap are in order after any sequence of allocations, granted or refused, and passes. The next
allocation or new symbol gets a vacant slot, or is refused, without any effect, because the heap is full; the next pass
releases only what is there at that moment. -/
theorem History.bookkeeping {limit : Option Nat} (hlimit : ∀ n, limit = some n → 2 ≤ n) {issued : List Handle}
    (hm : History limit issued m) :
    m.heap.Booked issued ∧
    (∀ cell text, (∃ h m', (Act.allocate cell text).run m = .ok h m' ∧ m.Placed cell h m') ∨
      m.heap.free = [] ∧ m.heap.limit = some (m.heap.next + 1) ∧
        (Act.allocate cell text).run m = .error (.fault .exhausted) m.refusing) ∧
    (∀ name, m.symbols.lookup name = none →
      (∃ h m', (Act.intern name).run m = .ok h m' ∧ m.Placed (.symbol name) h m') ∨
      m.heap.free = [] ∧ m.heap.limit = some (m.heap.next + 1) ∧
        (Act.intern name).run m = .error (.fault .exhausted) m.refusing) ∧
    (∀ before h after, m.markedHeap.doomed (m.collector.epoch + 1) = before ++ h :: after →
      ((before.foldl Heap.release m.markedHeap).slot? h).isSome = true) := by
  have hbooked := hm.booked hlimit
  refine ⟨hbooked, fun cell text => ?_, fun name hs => ?_, fun before h after hsplit => ?_⟩
  · rw [run_allocate]
    cases hfull : m.heap.isFull with
    | true =>
      obtain ⟨hfree, hbound⟩ := (isFull_iff_of_booked hbooked).1 hfull
      exact .inr ⟨hfree, hbound, rfl⟩
    | false => exact .inl ⟨_, _, rfl, placed_inserting hbooked cell text rfl⟩
  · rw [run_intern_new hs]
    cases hfull : m.heap.isFull with
    | true =>
      obtain ⟨hfree, hbound⟩ := (isFull_iff_of_booked hbooked).1 hfull
      exact .inr ⟨hfree, hbound, rfl⟩
    | false => exact .inl ⟨_, _, rfl, placed_inserting hbooked (.symbol name) false rfl⟩
  · exact (hbooked.mark ..).occupied_at_release hsplit

/-- a heap of two objects in which a box was made, another refused, and a pass taken -/
def crowded : Machine :=
  let boxed := Outcome.machine ((Act.allocate (.box .nil)).run (initialWithin (some 3)))
  let refused := Outcome.machine ((Act.allocate (.box .t)).run boxed)
  Outcome.machine ((Act.collect .explicit).run refused)

theorem crowded_bookkeeping : History (some 3) [1, 2] crowded ∧ crowded.heap.Booked [1, 2] := by
  have hm : History (some 3) [1, 2] crowded := .collect .explicit (.allocate _ _ (.allocate _ _ .start))
  exact ⟨hm, (hm.bookkeeping fun n hn => by cases hn; decide).1⟩

end Machine

end LispMachine
