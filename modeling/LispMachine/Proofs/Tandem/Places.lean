/-
Places on two machines in tandem: what is read from them, and stores.

References lead to places that stand for each other if they name one slot of a stack, or fields of objects that are kept. A store
may change what an object holds, but nothing that is held firmly; a store into program text spoils the comparison.
-/
import LispMachine.Proofs.Storing
import LispMachine.Proofs.Tandem.Objects

namespace LispMachine

namespace Tandem

open Machine (Corr)
open Simulation (InStep Sim QuietSim)

variable {th : ThreadId} {same : Bool} {σ τ : Tandem th same}

/-! ## References -/

/-- the two stacks with an id -/
theorem stack_items {t : ThreadId} (ho : (σ.left.thread t).isOpen = true) (i : Nat) :
    ((σ.left.thread t).stack.get i).Like (Corr σ.left σ.right) ((σ.right.thread t).stack.get i) := by
  have hitems := ((σ.agree.threads t).alike ho).items
  unfold Stack.get
  rw [← Array.getElem?_toList, ← Array.getElem?_toList]
  generalize (σ.left.thread t).stack.items.toList = l, (σ.right.thread t).stack.items.toList = r at hitems
  induction hitems generalizing i with
  | nil => exact .unset
  | cons hv _ ih =>
    cases i with
    | zero => exact hv
    | succ i => exact ih i

/-- references to places that stand for each other lead to values that do -/
theorem load_like {p p' : Place} (h : (Value.ref p).Leads σ.Kept (.ref p')) :
    (σ.left.load p).Like (Corr σ.left σ.right) (σ.right.load p') ∧ σ.left.dangles p = false ∧ σ.right.dangles p' = false := by
  have hfield {k : Kind} {h h' : Handle} (hk : σ.Kept k h h') : ∃ c c', σ.left.cell? h = some c ∧
      σ.right.cell? h' = some c' ∧ c.Like (Corr σ.left σ.right) c' ∧ c.kind = k ∧
      (σ.left.heap.slot? h).isNone = false ∧ (σ.right.heap.slot? h').isNone = false := by
    obtain ⟨s, s', hs, hs', hsame, -, hkind⟩ := slots hk.corr
    exact ⟨s.cell, s'.cell, Heap.cell?_of_slot? hs, Heap.cell?_of_slot? hs', hsame.like, hkind, by simp [hs], by simp [hs']⟩
  cases h with
  | stack id i =>
    refine ⟨?_, rfl, rfl⟩
    simp only [Machine.load, Machine.stack?, ← σ.agree.stackOwners]
    cases hown : (σ.left.stackOwners[id]?).join with
    | none => exact .unset
    | some t => exact stack_items ((σ.sound.owners id t).1 hown).1 i
  | box hk =>
    obtain ⟨c, c', hc, hc', hlike, hkind, hin, hin'⟩ := hfield hk
    refine ⟨?_, hin, hin'⟩
    simp only [Machine.load, hc, hc']
    cases hlike <;> cases hkind
    assumption
  | car hk =>
    obtain ⟨c, c', hc, hc', hlike, hkind, hin, hin'⟩ := hfield hk
    refine ⟨?_, hin, hin'⟩
    simp only [Machine.load, hc, hc']
    cases hlike <;> cases hkind
    assumption
  | cdr hk =>
    obtain ⟨c, c', hc, hc', hlike, hkind, hin, hin'⟩ := hfield hk
    refine ⟨?_, hin, hin'⟩
    simp only [Machine.load, hc, hc']
    cases hlike <;> cases hkind
    assumption

theorem run_look {m : Machine} {p : Place} (h : m.dangles p = false) : (Act.look p).run m = .ok (m.load p) m := by
  simp [Act.look, Act.run_bind, h]

theorem look_sim {p p' : Place} (h : (Value.ref p).Leads σ.Kept (.ref p')) :
    Sim σ (Act.look p) (Act.look p') fun τ v v' => τ = σ ∧ v.Like (Corr τ.left τ.right) v' := by
  obtain ⟨hlike, hin, hin'⟩ := load_like h
  exact .read (run_look hin) (run_look hin') ⟨rfl, hlike⟩

theorem deref_sim {r r' : Value} (h : r.Leads σ.Kept r') :
    Sim σ (Act.deref r) (Act.deref r') fun τ v v' => τ = σ ∧ v.Like (Corr τ.left τ.right) v' := by
  obtain ⟨p, rfl⟩ : ∃ p, r = .ref p := by cases h <;> exact ⟨_, rfl⟩
  obtain ⟨p', rfl⟩ : ∃ p, r' = .ref p := by cases h <;> exact ⟨_, rfl⟩
  exact look_sim h

/-! ## Stores -/

section

variable {h h' : Handle} {s s' : Slot} {c c' : Cell}

/-- other contents of objects that correspond -/
def writing (σ : Tandem th same) (hs : σ.left.heap.slot? h = some s) (hs' : σ.right.heap.slot? h' = some s')
    (hserial : s.serial = s'.serial) (hk : c.kind = s.cell.kind) (he : c.kind ≠ .error)
    (hc : c.Same (Corr σ.left σ.right) c') (hw : ({ s with cell := c } : Slot).WellMade σ.left.heap) : Tandem th same :=
  have hcells := σ.agree.store.cells h h' s s' hs hs' hserial
  have hk' : c'.kind = s'.cell.kind := by rw [← hc.like.kind_eq, hk, hcells.1.like.kind_eq]
  { left := σ.left.written h c
    right := σ.right.written h' c'
    sound := σ.sound.written hs hk he hc.holds.1 hw
    sound' := σ.sound'.written hs' hk' (hc.like.kind_eq ▸ he) hc.holds.2
      (wellMade_right (s := { s with cell := c }) hc hcells.2 hw)
    agree := σ.agree.written σ.sound σ.sound' hs hs' hserial hk hk' hc
    isOpen := σ.isOpen
    eq := fun hsame => by
      rw [σ.eq hsame, cell_eq hsame hc, handle_eq hsame ⟨s, s', hs, hs', hserial, hcells.1.like.kind_eq, rfl⟩] }

theorem run_overwrite {m : Machine} (hmarking : m.collector.marking = false) (h : Handle) (old : Value) (c : Cell) :
    (Act.overwrite h old c).run m = .ok () (m.written h c) := by
  simp [Act.overwrite, Act.shade, Act.run_bind, hmarking, Machine.written]

/-- new contents of objects that are not held firmly in what they hold -/
theorem overwrite_sim {old old' : Value} (hs : σ.left.heap.slot? h = some s) (hs' : σ.right.heap.slot? h' = some s')
    (hserial : s.serial = s'.serial) (hk : c.kind = s.cell.kind) (he : c.kind ≠ .error)
    (hc : c.Same (Corr σ.left σ.right) c') (hw : ({ s with cell := c } : Slot).WellMade σ.left.heap) (hfirm : ¬ s.IsFirm) :
    Sim σ (Act.overwrite h old c) (Act.overwrite h' old' c') fun _ _ _ => True := by
  have hcells := σ.agree.store.cells h h' s s' hs hs' hserial
  have hk' : c'.kind = s'.cell.kind := by rw [← hc.like.kind_eq, hk, hcells.1.like.kind_eq]
  have hfirm' : ¬ s'.IsFirm := by
    unfold Slot.IsFirm at *
    rwa [← hcells.2, ← hcells.1.like.kind_eq]
  exact done (σ.writing hs hs' hserial hk he hc hw)
    ⟨Machine.keeps_written hs (.of_not_firm hk hfirm), Machine.keeps_written hs' (.of_not_firm hk' hfirm')⟩
    (run_overwrite σ.sound.marking h old c) (run_overwrite σ.sound'.marking h' old' c') trivial

end

theorem forall₂_set {α β : Type} {R : α → β → Prop} {xs : List α} {ys : List β} (h : List.Forall₂ R xs ys) (i : Nat)
    {a : α} {b : β} (hab : R a b) : List.Forall₂ R (xs.set i a) (ys.set i b) := by
  induction h generalizing i with
  | nil => exact .nil
  | cons hxy hrest ih =>
    cases i with
    | zero => exact .cons hab hrest
    | succ i => exact .cons hxy (ih i)

/-- a store into a slot of a stack -/
theorem setting_sim {t : ThreadId} (ho : (σ.left.thread t).isOpen = true) (i : Nat) {v v' : Value}
    (hv : v.Like (Corr σ.left σ.right) v') :
    Sim σ (modify fun m => m.onThread t (Thread.setting i v)) (modify fun m => m.onThread t (Thread.setting i v'))
      fun _ _ _ => True := by
  have ho' := isOpen_right ho
  have halike := (σ.agree.threads t).alike ho
  have hset : (Thread.setting i v (σ.left.thread t)).Alike (Corr σ.left σ.right)
      (Thread.setting i v' (σ.right.thread t)) :=
    { halike with
      items := by
        simp only [Thread.setting, Array.toList_setIfInBounds]
        exact forall₂_set halike.items i hv }
  let τ := σ.onThread t ho (Thread.setting i v) (Thread.setting i v') hset { σ.sound.fits ho with }
    { σ.sound'.fits ho' with } fun hsame => by rw [value_eq hsame (.inl hv)]
  exact done (a := ⟨⟩) (b := ⟨⟩) τ
    ⟨Machine.keeps_onThread ho ho List.prefix_rfl rfl, Machine.keeps_onThread ho' ho' List.prefix_rfl rfl⟩ rfl rfl trivial

theorem set_stack {s : Stack} (hs : s.beyond = 0) (i : Nat) (v : Value) :
    s.set i v = if i < s.items.size then .ok { s with items := s.items.setIfInBounds i v } else .error (.popped i) := by
  unfold Stack.set Stack.size
  rw [hs, Nat.add_zero]
  split <;> rfl

/-- what notes an event that spoils the comparison is not compared -/
theorem spoiling_sim {α β : Type} {Q : Tandem th same → α → β → Prop} {e e' : Event} (he : Spoils same e)
    (x : Act α) (y : Act β) : Sim σ (Act.note e >>= fun _ => x) (Act.note e' >>= fun _ => y) Q := by
  have hnoted : Simulation.Spoilt (Tandem th same) (Outcome.machine ((Act.note e).run σ.left))
      (Outcome.machine ((Act.note e').run σ.right)) := .inl ⟨e, List.mem_cons_self, he⟩
  exact .inl (hnoted.grow (Simulation.bind_grows _ _ _) (Simulation.bind_grows _ _ _))

/-- a store into a pair -/
theorem assign_sim {h h' : Handle} {x y x' y' old old' a d a' d' : Value} {e e' n n' : Nat} {text text' : Bool}
    (hs : σ.left.heap.slot? h = some ⟨.cons x y, e, n, text⟩) (hs' : σ.right.heap.slot? h' = some ⟨.cons x' y', e', n', text'⟩)
    (hserial : n = n') (ha : a.Like (Corr σ.left σ.right) a') (hd : d.Like (Corr σ.left σ.right) d') :
    Sim σ (do Act.note (.assigned text); Act.overwrite h old (.cons a d))
      (do Act.note (.assigned text'); Act.overwrite h' old' (.cons a' d')) fun _ _ _ => True := by
  obtain rfl : text = text' := (σ.agree.store.cells h h' _ _ hs hs' hserial).2
  cases text with
  | true => exact spoiling_sim (.inl rfl) _ _
  | false =>
    refine (Simulation.QuietSim.sim (note_sim σ (by simp))).bind fun τ _ _ _ hτ => ?_
    subst hτ
    refine overwrite_sim (σ := σ.noting _ _ _ _ _) hs hs' hserial rfl (by simp [Cell.kind])
      ((Cell.Like.cons ha hd).same (by simp [Cell.kind])) ⟨by simp, by simp, by simp, by simp⟩ ?_
    simp [Slot.IsFirm, Cell.kind]

/-- corresponding pairs -/
theorem pairs {h h' : Handle} (hc : Corr σ.left σ.right .cons h h') : ∃ a d a' d' e e' n text text',
    σ.left.heap.slot? h = some ⟨.cons a d, e, n, text⟩ ∧ σ.right.heap.slot? h' = some ⟨.cons a' d', e', n, text'⟩ ∧
    a.Like (Corr σ.left σ.right) a' ∧ d.Like (Corr σ.left σ.right) d' := by
  obtain ⟨⟨c, e, n, text⟩, ⟨c', e', n', text'⟩, hs, hs', hserial, hkind, -⟩ := hc
  have hlike := (σ.agree.store.cells h h' _ _ hs hs' hserial).1.like
  obtain rfl : n = n' := hserial
  cases hlike <;> cases hkind
  exact ⟨_, _, _, _, e, e', n, text, text', hs, hs', ‹_›, ‹_›⟩

theorem store_sim {p p' : Place} (hp : (Value.ref p).Leads σ.Kept (.ref p')) {v v' : Value} (hv : Simulation.Val σ v v') :
    Sim σ (Act.store p v) (Act.store p' v') fun _ _ _ => True := by
  unfold Act.store
  refine Sim.get ?_
  cases hp with
  | stack id i =>
    simp only [show (Simulation.right σ).stackOwners = (Simulation.left σ).stackOwners from σ.agree.stackOwners.symm]
    cases hown : ((Simulation.left σ).stackOwners[id]?).join with
    | none => exact .raise (.bare ⟨by simp, by simp, by simp⟩)
    | some t =>
      have ho := ((σ.sound.owners id t).1 hown).1
      have hsize := ((σ.agree.threads t).alike ho).items.length_eq
      simp only [Array.length_toList] at hsize
      have hset := set_stack (σ.sound.readable t ho) i v
      have hset' := set_stack (σ.sound'.readable t (isOpen_right ho)) i v'
      rw [← hsize] at hset'
      by_cases hi : i < (σ.left.thread t).stack.items.size
      · rw [if_pos hi] at hset hset'
        simp only [Simulation.left, Simulation.right, hset, hset']
        exact setting_sim ho i hv.live
      · rw [if_neg hi] at hset hset'
        simp only [Simulation.left, Simulation.right, hset, hset']
        exact .raise (.bare ⟨by simp, by simp, by simp⟩)
  | @box h h' hk =>
    obtain ⟨s, s', hs, hs', hserial, hkind, hkind'⟩ := hk.corr
    obtain ⟨old, hold⟩ : ∃ x, s.cell = .box x := by cases hc : s.cell <;> rw [hc] at hkind <;> cases hkind; exact ⟨_, rfl⟩
    obtain ⟨old', hold'⟩ : ∃ x, s'.cell = .box x := by
      cases hc : s'.cell <;> rw [hc] at hkind' <;> cases hkind'; exact ⟨_, rfl⟩
    have hc : σ.left.cell? h = some (.box old) := hold ▸ Heap.cell?_of_slot? hs
    have hc' : σ.right.cell? h' = some (.box old') := hold' ▸ Heap.cell?_of_slot? hs'
    simp only [Simulation.left, Simulation.right, hc, hc']
    refine overwrite_sim hs hs' hserial (by rw [hold]; rfl) (by simp [Cell.kind])
      ((Cell.Like.box hv.live).same (by simp [Cell.kind])) ⟨by simp, by simp, by simp, by simp⟩ ?_
    simp [Slot.IsFirm, hold, Cell.kind]
  | car hk =>
    obtain ⟨a, d, a', d', e, e', n, text, text', hs, hs', -, hd⟩ := pairs hk.corr
    simp only [Simulation.left, Simulation.right, hs, hs']
    exact assign_sim hs hs' rfl hv.live hd
  | cdr hk =>
    obtain ⟨a, d, a', d', e, e', n, text, text', hs, hs', ha, -⟩ := pairs hk.corr
    simp only [Simulation.left, Simulation.right, hs, hs']
    exact assign_sim hs hs' rfl ha hv.live

theorem storeThrough_sim {r r' : Value} (hr : r.Leads σ.Kept r') {v v' : Value} (hv : Simulation.Val σ v v') :
    Sim σ (Act.storeThrough r v) (Act.storeThrough r' v') fun _ _ _ => True := by
  obtain ⟨p, rfl⟩ : ∃ p, r = .ref p := by cases hr <;> exact ⟨_, rfl⟩
  obtain ⟨p', rfl⟩ : ∃ p, r' = .ref p := by cases hr <;> exact ⟨_, rfl⟩
  exact store_sim hr hv

end Tandem

end LispMachine
