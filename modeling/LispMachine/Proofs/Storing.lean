/-
Storing into a place.

A store changes what one place holds and nothing else. Afterwards the place reads as the new value, whatever reference leads to it;
every other place holds what it held, and no scope is changed. A store that fails has changed nothing (`Act.ends_store`). Places
are told apart by their names alone, since a slot belongs to one thread and a thread has one stack (`Machine.StacksApart`).
-/
import LispMachine.Proofs.Building
import LispMachine.Proofs.Orderly

namespace LispMachine

/-- the thread with another value in a slot of its stack -/
def Thread.setting (i : Nat) (v : Value) (t : Thread) : Thread :=
  { t with stack := { t.stack with items := t.stack.items.setIfInBounds i v } }

/-- what is in a slot that is written to is what was written there -/
theorem Heap.cell?_write_eq {hp : Heap} {h : Handle} {c : Cell} (hc : hp.cell? h = some c) (new : Cell) (t : Handle) :
    (hp.write h new).cell? t = if t = h then some new else hp.cell? t := by
  unfold cell?
  rw [slot?_write]
  split
  · obtain ⟨slot, hslot, -⟩ := cell?_eq_some.1 hc
    rw [hslot]
    rfl
  · rfl

namespace Machine

variable {m m' : Machine} {t h : Handle} {th : ThreadId} {v : Value}

theorem scope_congr (h : m'.cell? t = m.cell? t) : m'.scope t = m.scope t := by
  unfold scope
  rw [h]

theorem scope_of_cell {s : Scope} (h : m.cell? t = some (.scope s)) : m.scope t = s := by simp [scope, h]

/-- what is not a scope binds nothing -/
theorem scope_of_not_cell (hno : ∀ s, m.cell? t ≠ some (.scope s)) : m.scope t = {} := by
  unfold scope
  split
  · rename_i s hs
    exact absurd hs (hno s)
  · rfl

/-- the object that a place is a field of -/
def object? : Place → Option Handle
  | .stack _ _ => none
  | .box h | .car h | .cdr h => some h

/-- no thread has two stacks -/
def StacksApart (m : Machine) : Prop := ∀ (id id' : Nat) (th : ThreadId), (m.stackOwners[id]?).join = some th →
  (m.stackOwners[id']?).join = some th → id = id'

/-- a machine after a value has been stored in a place -/
structure Stored (m : Machine) (p : Place) (v : Value) (m' : Machine) : Prop where
  books : m.heap.SameBooks m'.heap
  there : m'.dangles p = false
  value : m'.load p = v
  others : ∀ q, q ≠ p → m'.load q = m.load q
  scopes : ∀ t, m'.scope t = m.scope t
  within : ∀ th, (m'.thread th).scopes = (m.thread th).scopes

theorem Stored.noted {p : Place} {e : Event} (h : Stored { m with journal := e :: m.journal } p v m') : m.Stored p v m' :=
  ⟨h.books, h.there, h.value, h.others, h.scopes, h.within⟩

/-- a slot of a stack has got a new value -/
theorem stored_slot {id i : Nat} (hm : m.StacksApart) (hown : (m.stackOwners[id]?).join = some th)
    (hi : i < (m.thread th).stack.items.size) : m.Stored (.stack id i) v (m.onThread th (Thread.setting i v)) := by
  have hlt : th < m.threads.size := by
    by_contra hno
    have hblank : m.thread th = .blank := by simp [thread, Array.getElem?_eq_none (Nat.le_of_not_lt hno)]
    rw [hblank] at hi
    cases hi
  have hthread := thread_onThread_of_lt hlt (Thread.setting i v)
  have hstack (id : Nat) : (m.onThread th (Thread.setting i v)).stack? id =
      (m.stackOwners[id]?).join.map fun u => ((m.onThread th (Thread.setting i v)).thread u).stack := rfl
  refine ⟨.refl _, rfl, ?_, fun q hq => ?_, fun t => rfl, fun u => ?_⟩
  · simp [load, hstack, hown, hthread, Thread.setting, Stack.get, hi]
  · cases q with
    | stack id' i' =>
      have hbefore : m.stack? id' = (m.stackOwners[id']?).join.map fun u => (m.thread u).stack := rfl
      simp only [load, hstack, hbefore]
      cases hown' : (m.stackOwners[id']?).join with
      | none => rfl
      | some u =>
        simp only [Option.map_some, hthread]
        split
        · rename_i hu
          subst hu
          obtain rfl := hm id' id u hown' hown
          have hne : i ≠ i' := by
            rintro rfl
            exact hq rfl
          simp [Thread.setting, Stack.get, hne]
        · rfl
    | _ => rfl
  · rw [hthread]
    split
    · rename_i hu
      rw [hu]
      rfl
    · rfl

end Machine

namespace Act

open Machine

variable {R : Machine → Machine → Prop} {m : Machine} {h : Handle} {old v : Value} {was is : Cell}

/-- an object that is no scope gets contents that differ in one field -/
theorem stored_overwrite {p : Place} (hp : object? p = some h) (hwas : m.cell? h = some was)
    (hscope : (∀ s, was ≠ .scope s) ∧ ∀ s, is ≠ .scope s)
    (hvalue : ∀ m' : Machine, m'.cell? h = some is → m'.load p = v)
    (hfields : ∀ m' : Machine, m'.cell? h = some is → ∀ q, object? q = some h → q ≠ p → m'.load q = m.load q) :
    (overwrite h old is).Ends m (fun _ m' => m.Stored p v m') fun _ _ => False := by
  have hwritten (m' : Machine) (hrest : m' = { m with heap := m'.heap })
      (hbooks : m.heap.SameBooks m'.heap)
      (hcell : ∀ t, m'.cell? t = if t = h then some is else m.cell? t) : m.Stored p v m' := by
    have hnew : m'.cell? h = some is := (hcell h).trans (if_pos rfl)
    have hthere : m'.dangles p = false := by
      obtain ⟨x, hx, -⟩ := Heap.cell?_eq_some.1 hnew
      cases p <;> cases hp
      all_goals simp [dangles, hx]
    refine ⟨hbooks, hthere, hvalue m' hnew, fun q hq => ?_, fun t => ?_, fun u => by rw [hrest]; rfl⟩
    · cases q with
      | stack id i =>
        rw [hrest]
        rfl
      | _ t =>
        by_cases ht : t = h
        · exact hfields m' hnew _ (congrArg some ht) hq
        · simp only [load, hcell, if_neg ht]
    · by_cases ht : t = h
      · subst ht
        rw [scope_of_not_cell fun s hs => hscope.1 s (Option.some.inj (hwas.symm.trans hs)),
          scope_of_not_cell fun s hs => hscope.2 s (Option.some.inj (hnew.symm.trans hs))]
      · exact scope_congr ((hcell t).trans (if_neg ht))
  have hcell := Heap.cell?_write_eq hwas is
  unfold Ends
  rw [overwrite, shade, run_bind, run_modify]
  simp only [run_modify]
  split
  · have hmark : (m.heap.write h is).Restamped m.collector.epoch _ := Heap.mark_restamped _ old.target?.toList
    exact hwritten _ rfl ((Heap.SameBooks.write ..).trans (.of_restamped hmark)) fun t => (congrFun hmark.cell? t).trans (hcell t)
  · exact hwritten _ rfl (.write ..) hcell

/-- a pair gets contents that differ in one field, and it is noted -/
theorem stored_assign {p : Place} {text : Bool} (hstored : ∀ m₁ : Machine, m₁.heap = m.heap → (overwrite h old is).Ends m₁
    (fun _ m' => m₁.Stored p v m') fun _ _ => False) :
    (do note (.assigned text); overwrite h old is).Ends m (fun _ m' => m.Stored p v m') fun _ m' => R m m' := by
  refine Ends.bind (P := fun _ m₁ => m₁ = { m with journal := .assigned text :: m.journal }) rfl fun _ m₁ hm₁ => ?_
  refine (hstored m₁ (hm₁ ▸ rfl)).mono (fun _ m' h => ?_) fun _ _ hno => hno.elim
  rw [hm₁] at h
  exact h.noted

/-- a store into a place that is gone fails -/
theorem ends_missing [AllowsBuilding R] (p : Place) : (missing p).Ends m (fun _ _ => False) fun _ m' => R m m' := by
  have hobeys : R m (Outcome.machine ((missing p).run m)) := Obeys.leads m
  cases hrun : (missing p).run m with
  | ok _ m' => by_cases hd : m.dangles p = true <;> simp [missing, run_bind, hd] at hrun
  | error e m' =>
    rw [hrun] at hobeys
    unfold Ends
    rw [hrun]
    exact hobeys

/-- **A store changes one place.** If it fails it has changed nothing. -/
theorem ends_store [AllowsBuilding R] {p : Place} (hm : (∃ id i, p = .stack id i) → m.StacksApart) (v : Value) :
    (store p v).Ends m (fun _ m' => m.Stored p v m') fun _ m' => R m m' := by
  unfold store
  refine .read ?_
  cases p with
  | stack id i =>
    dsimp only
    split
    · exact AllowsBuilding.refl m
    · rename_i th hown
      unfold Stack.set
      split
      · rename_i hset
        split at hset
        · exact stored_slot (hm ⟨_, _, rfl⟩) hown ‹_›
        · split at hset <;> cases hset
      · exact AllowsBuilding.refl m
      · exact AllowsBuilding.refl m
  | box h =>
    dsimp only
    split
    · rename_i old hold
      refine (stored_overwrite rfl hold (by simp) (fun m' hnew => by simp [load, hnew]) ?_).mono (fun _ _ h => h) fun _ _ hno => hno.elim
      rintro m' hnew (_ | _ | _ | _) ⟨⟩ hne
      · exact absurd rfl hne
      · simp [load, hnew, hold]
      · simp [load, hnew, hold]
    · exact (ends_missing _).mono (fun _ _ hno => hno.elim) fun _ _ h => h
  | car h =>
    dsimp only
    split
    · rename_i old d _ _ text hs
      refine stored_assign fun m₁ hheap => ?_
      have hold : m₁.cell? h = some (.cons old d) := (congrArg (·.cell? h) hheap).trans (Heap.cell?_of_slot? hs)
      refine stored_overwrite rfl hold (by simp) (fun m' hnew => by simp [load, hnew]) ?_
      rintro m' hnew (_ | _ | _ | _) ⟨⟩ hne
      · simp [load, hnew, hold]
      · exact absurd rfl hne
      · simp [load, hnew, hold]
    · exact (ends_missing _).mono (fun _ _ hno => hno.elim) fun _ _ h => h
  | cdr h =>
    dsimp only
    split
    · rename_i a old _ _ text hs
      refine stored_assign fun m₁ hheap => ?_
      have hold : m₁.cell? h = some (.cons a old) := (congrArg (·.cell? h) hheap).trans (Heap.cell?_of_slot? hs)
      refine stored_overwrite rfl hold (by simp) (fun m' hnew => by simp [load, hnew]) ?_
      rintro m' hnew (_ | _ | _ | _) ⟨⟩ hne
      · simp [load, hnew, hold]
      · simp [load, hnew, hold]
      · exact absurd rfl hne
    · exact (ends_missing _).mono (fun _ _ hno => hno.elim) fun _ _ h => h

end Act

end LispMachine
