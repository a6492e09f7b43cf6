/-
Symbols and their names.

The table of symbols lists a handle under each name. In every settled machine the object of a listed handle is the symbol of that
name (`Machine.Settled.interned`): an allocation takes a vacant handle, nothing is ever written to a symbol, and a pass marks
whatever the table lists. So two names never share a symbol.
-/
import LispMachine.Proofs.Steps.Evaluation

namespace LispMachine

namespace Heap

variable {hp hp' : Heap} {h : Handle} {c : Cell}

theorem cell?_insert (ho : hp.InOrder) (hc : hp.cell? h = some c) (new : Cell) (epoch : Nat) (text : Bool) :
    (hp.insert new epoch text).cell? h = some c := by
  obtain ⟨s, hs, rfl⟩ := cell?_eq_some.1 hc
  have hne : h ≠ hp.nextHandle := by
    rintro rfl
    rw [ho.slot?_nextHandle] at hs
    cases hs
  exact cell?_of_slot? (by rw [ho.slot?_insert, if_neg hne, hs])

theorem cell?_insert_nextHandle (ho : hp.InOrder) (new : Cell) (epoch : Nat) (text : Bool) :
    (hp.insert new epoch text).cell? hp.nextHandle = some new :=
  cell?_of_slot? ((ho.slot?_insert ..).trans (if_pos rfl))

/-- what is written to one object leaves the others alone -/
theorem cell?_write (hc : hp.cell? h = some c) {t : Handle} (hne : h ≠ t) (new : Cell) : (hp.write t new).cell? h = some c := by
  obtain ⟨s, hs, rfl⟩ := cell?_eq_some.1 hc
  exact cell?_of_slot? (by rw [slot?_write, if_neg hne, hs])

/-- only an object that lies in a scope lets go of one -/
theorem cell?_detach (hc : hp.cell? h = some c) (hout : c.outer = .none) (t : Handle) : (hp.detach t).cell? h = some c := by
  unfold detach
  split
  · exact hc
  · rename_i c' hc'
    split
    · rename_i p hp'
      split
      · refine cell?_write hc ?_ _
        rintro rfl
        rw [hc] at hc'
        cases hc'
        rw [hout] at hp'
        cases hp'
      · exact hc
    · exact hc

/-- a pass does not release what marking starts from -/
theorem not_mem_doomed {epoch : Nat} {work : List Handle} (hwork : h ∈ work) {s : Slot} (hs : (hp.mark epoch work).slot? h = some s) :
    h ∉ (hp.mark epoch work).doomed epoch := fun hmem => by
  have hunmarked := (mem_doomed.1 hmem).2
  have hseen : (hp.mark epoch work).Seen epoch h := mark_seen hp work h hwork
  simp [isMarked, hs, hseen s hs] at hunmarked

/-- a pass keeps what marking starts from, and what lies in no scope stays as it is -/
theorem cell?_pass (hc : hp.cell? h = some c) (hout : c.outer = .none) {epoch : Nat} {work : List Handle} (hwork : h ∈ work) :
    ((hp.mark epoch work).sweep epoch).1.cell? h = some c := by
  have hmarked : (hp.mark epoch work).cell? h = some c := (congrFun (mark_restamped hp work).cell? h).trans hc
  obtain ⟨s, hs, rfl⟩ := cell?_eq_some.1 hmarked
  have hkept := not_mem_doomed hwork hs
  generalize hp.mark epoch work = hp' at hs hkept
  have hreleased : ((hp'.doomed epoch).foldl release hp').cell? h = some s.cell :=
    cell?_of_slot? (by rw [slot?_releaseAll, if_neg hkept, hs])
  have hdetached (kept : List Handle) : ∀ {hp : Heap}, hp.cell? h = some s.cell → (kept.foldl detach hp).cell? h = some s.cell := by
    induction kept with
    | nil => exact id
    | cons t kept ih => exact fun hc => ih (cell?_detach hc hout t)
  rw [sweep_eq]
  exact hdetached (hp'.registry.filter (hp'.isMarked epoch)).toList hreleased

end Heap

namespace Machine

/-- every name that is listed names the symbol that has it -/
structure Interned (m : Machine) : Prop where
  order : m.heap.InOrder
  named : ∀ name h, (name, h) ∈ m.symbols → m.cell? h = some (.symbol name)

variable {m m' : Machine}

theorem Interned.of_lookup (hm : m.Interned) {name : String} {h : Handle} (hs : m.symbols.lookup name = some h) :
    m.cell? h = some (.symbol name) := by
  obtain ⟨before, after, heq, -⟩ := List.lookup_eq_some_iff.1 hs
  exact hm.named name h (by simp [heq])

theorem interned_initial : initial.Interned := ⟨Heap.inOrder_initial, nofun⟩

/-- no step takes a name from its symbol -/
theorem Step.interned (h : m.Step m') (hm : m.Interned) : m'.Interned := by
  cases h with
  | beside hheap hsymbols _ => exact ⟨hheap ▸ hm.order, fun name h hs => by
      rw [cell?, hheap]; exact hm.named name h (hsymbols ▸ hs)⟩
  | allocate c text => exact ⟨hm.order.insert .., fun name h hs => Heap.cell?_insert hm.order (hm.named name h hs) ..⟩
  | intern name =>
    refine ⟨hm.order.insert .., fun name' h hs => ?_⟩
    rcases List.mem_cons.1 hs with heq | hs
    · cases heq
      exact Heap.cell?_insert_nextHandle hm.order ..
    · exact Heap.cell?_insert hm.order (hm.named name' h hs) ..
  | @write t old new hold _ hopen =>
    refine ⟨hm.order.same (.write ..), fun name h hs => ?_⟩
    have hc := hm.named name h hs
    refine Heap.cell?_write hc ?_ _
    rintro rfl
    rw [hc] at hold
    cases hold
    simp [Cell.kind] at hopen
  | mark work =>
    exact ⟨hm.order.mark .., fun name h hs => (congrFun (Heap.mark_restamped ..).cell? h).trans (hm.named name h hs)⟩
  | pass =>
    refine ⟨(hm.order.mark ..).sweep _, fun name h hs => Heap.cell?_pass (hm.named name h hs) rfl ?_⟩
    exact List.mem_append_left _ (List.mem_map_of_mem (f := Prod.snd) hs)
  | restrict n => exact ⟨hm.order.restrict n, hm.named⟩
  | relax q => exact ⟨hm.order.relax q, hm.named⟩

theorem Steps.interned (h : m.Steps m') (hm : m.Interned) : m'.Interned := by
  induction h with
  | refl => exact hm
  | tail _ hstep ih => exact hstep.interned ih

/-- in a settled machine every name that is listed names the symbol that has it -/
theorem Settled.interned (hm : m.Settled) : m.Interned := hm.steps.interned interned_initial

end Machine

end LispMachine
