/-
Sound tables.

A table keeps its books if registry, free list and serial numbers agree with the slots. It is sound if, besides, every object
speaks only of objects that are there, of the kind it says, and program text consists of program text. Allocation, stores and
collection passes keep tables sound.
-/
import Mathlib.Tactic
import LispMachine.Proofs.Collection
import LispMachine.Proofs.Simulation

namespace LispMachine

/-! ## Program text -/

/-- a value that may be evaluated: a number, an immediate, a symbol, or a pair made to hold program text -/
def Value.IsText (hp : Heap) : Value → Prop
  | .float _ | .nil | .t | .unset | .int _ | .symbol _ => True
  | .cons h => ∃ s, hp.slot? h = some s ∧ s.text = true
  | _ => False

theorem Value.IsAtom.isText {hp : Heap} {v : Value} (hv : v.IsAtom) : v.IsText hp := by
  cases v <;> trivial

/-! ## What objects speak of -/

/-- an object speaks of another: it refers to it or has it as a parameter -/
inductive Cell.Mentions : Cell → Handle → Kind → Prop where
  | names {c : Cell} {t : Handle} {k : Kind} : c.Names t k → Mentions c t k
  | param {f : Function} {t : Handle} : t ∈ f.params.symbols → Mentions (.function f) t .symbol

/-- program text is made of program text, primitives are what they were installed as, and scopes bind a symbol once -/
structure Slot.WellMade (hp : Heap) (s : Slot) : Prop where
  text : ∀ a d, s.cell = .cons a d → s.text = true → a.IsText hp ∧ d.IsText hp
  body : ∀ f list outer, s.cell = .function f → f.body = .forms list outer → list.IsText hp
  primitive : ∀ f p special, s.cell = .function f → f.body = .primitive p special → p.Suits special
  keys : ∀ sc, s.cell = .scope sc → (sc.table.map Prod.fst).Nodup

namespace Heap

/-- one table has everything that the other has, as it is there -/
def Grows (hp hp' : Heap) : Prop := ∀ h s, hp.slot? h = some s → hp'.slot? h = some s

/-- every label of the one table is there in the other -/
def Labelled (hp hp' : Heap) : Prop := ∀ h s, hp.slot? h = some s → ∃ s', hp'.slot? h = some s' ∧ s'.label = s.label

theorem Grows.refl (hp : Heap) : hp.Grows hp := fun _ _ => id

theorem Grows.trans {hp hp' hp'' : Heap} (h : hp.Grows hp') (h' : hp'.Grows hp'') : hp.Grows hp'' :=
  fun t s ht => h' t s (h t s ht)

theorem Grows.labelled {hp hp' : Heap} (h : hp.Grows hp') : hp.Labelled hp' := fun t s ht => ⟨s, h t s ht, rfl⟩

theorem Labelled.kind? {hp hp' : Heap} (h : hp.Labelled hp') {t : Handle} {k : Kind} (hk : hp.kind? t = some k) :
    hp'.kind? t = some k := by
  obtain ⟨c, hc, rfl⟩ := kind?_eq_some.1 hk
  obtain ⟨s, hs, rfl⟩ := cell?_eq_some.1 hc
  obtain ⟨s', hs', hlabel⟩ := h t s hs
  exact kind?_eq_some.2 ⟨s'.cell, cell?_of_slot? hs', congrArg (·.2.2) hlabel⟩

theorem Labelled.isText {hp hp' : Heap} (h : hp.Labelled hp') {v : Value} (hv : v.IsText hp) : v.IsText hp' := by
  cases v with
  | cons t =>
    obtain ⟨s, hs, htext⟩ := hv
    obtain ⟨s', hs', hlabel⟩ := h t s hs
    exact ⟨s', hs', (congrArg (·.2.1) hlabel).trans htext⟩
  | _ => exact hv

theorem Labelled.wellMade {hp hp' : Heap} (h : hp.Labelled hp') {s : Slot} (hs : s.WellMade hp) : s.WellMade hp' where
  text a d hc ht := ⟨h.isText (hs.text a d hc ht).1, h.isText (hs.text a d hc ht).2⟩
  body f list outer hc hb := h.isText (hs.body f list outer hc hb)
  primitive := hs.primitive
  keys := hs.keys

/-! ## Sound tables -/

/-- the registry, the free list and the serial numbers are in order -/
structure Tidy (hp : Heap) (epoch : Nat) : Prop where
  registered : ∀ h, h ∈ hp.registry ↔ (hp.slot? h).isSome
  nodup : hp.registry.toList.Nodup
  stamped : ∀ h s, hp.slot? h = some s → s.epoch ≤ epoch
  vacant : ∀ h ∈ hp.free, h < hp.slots.size ∧ hp.slot? h = none
  distinct : hp.free.Nodup
  serial_lt : ∀ h s, hp.slot? h = some s → s.serial < hp.births
  serial_inj : ∀ g h s s', hp.slot? g = some s → hp.slot? h = some s' → s.serial = s'.serial → g = h

/-- a cell speaks only of what is there, of the kind it says -/
def Holds (hp : Heap) (c : Cell) : Prop := ∀ t k, c.Mentions t k → hp.kind? t = some k

structure Sound (hp : Heap) (epoch : Nat) : Prop where
  tidy : hp.Tidy epoch
  held : ∀ h c, hp.cell? h = some c → hp.Holds c
  wellMade : ∀ h s, hp.slot? h = some s → s.WellMade hp

variable {hp : Heap} {epoch : Nat}

theorem Sound.typed (h : hp.Sound epoch) : hp.Typed := fun g c t k hc hk => h.held g c hc t k (.names hk)

theorem Labelled.holds {hp' : Heap} (h : hp.Labelled hp') {c : Cell} (hc : hp.Holds c) : hp'.Holds c :=
  fun t k hm => h.kind? (hc t k hm)

/-! ## Allocation -/

namespace Tidy

theorem slot?_nextHandle (h : hp.Tidy epoch) : hp.slot? hp.nextHandle = none := by
  unfold nextHandle
  cases hf : hp.free with
  | nil => simp [slot?]
  | cons t free => exact (h.vacant t (by simp [hf])).2

theorem slot?_insert (h : hp.Tidy epoch) (c : Cell) (text : Bool) (t : Handle) :
    (hp.insert c epoch text).slot? t = if t = hp.nextHandle then some ⟨c, epoch, hp.births, text⟩ else hp.slot? t :=
  Heap.slot?_insert (fun t ht => (h.vacant t ht).1) c epoch text t

theorem slot?_new (h : hp.Tidy epoch) (c : Cell) (text : Bool) :
    (hp.insert c epoch text).slot? hp.nextHandle = some ⟨c, epoch, hp.births, text⟩ := by
  rw [h.slot?_insert, if_pos rfl]

theorem grows_insert (h : hp.Tidy epoch) (c : Cell) (text : Bool) : hp.Grows (hp.insert c epoch text) := by
  intro t s hs
  rw [h.slot?_insert, if_neg (fun ht => by rw [ht, h.slot?_nextHandle] at hs; cases hs)]
  exact hs

theorem insert (h : hp.Tidy epoch) (c : Cell) (text : Bool) : (hp.insert c epoch text).Tidy epoch := by
  have hslot := h.slot?_insert c text
  have hnext := h.slot?_nextHandle
  have hbirths : (hp.insert c epoch text).births = hp.births + 1 := by unfold Heap.insert; split <;> rfl
  have hregistry : (hp.insert c epoch text).registry = hp.registry.push hp.nextHandle := by
    unfold Heap.insert nextHandle
    split
    · rename_i hf; simp [hf]
    · rename_i hf; simp [hf]
  have hsize : hp.slots.size ≤ (hp.insert c epoch text).slots.size := by
    unfold Heap.insert
    split <;> simp
  have hfree : ∀ t ∈ (hp.insert c epoch text).free, t ∈ hp.free ∧ t ≠ hp.nextHandle := by
    intro t ht
    unfold Heap.insert nextHandle at *
    cases hf : hp.free with
    | nil => simp [hf] at ht
    | cons u free =>
      simp only [hf] at ht
      have hd := h.distinct
      rw [hf, List.nodup_cons] at hd
      simp only [List.headD_cons]
      exact ⟨List.mem_cons_of_mem _ ht, fun e => hd.1 (e ▸ ht)⟩
  refine ⟨fun t => ?_, ?_, fun t s hs => ?_, fun t ht => ?_, ?_, fun t s hs => ?_, fun g t s s' hg ht hser => ?_⟩
  · rw [hregistry, Array.mem_push, h.registered, hslot]
    split
    · rename_i ht; simp [ht]
    · rename_i ht; simp [ht]
  · rw [hregistry, Array.toList_push, List.nodup_append]
    refine ⟨h.nodup, by simp, fun t ht u hu => ?_⟩
    obtain rfl := List.mem_singleton.1 hu
    rintro rfl
    have := (h.registered hp.nextHandle).1 (by simpa using ht)
    simp [hnext] at this
  · rw [hslot] at hs
    split at hs
    · obtain rfl := Option.some.inj hs; exact le_rfl
    · exact h.stamped t s hs
  · obtain ⟨hmem, hne⟩ := hfree t ht
    exact ⟨(h.vacant t hmem).1.trans_le hsize, by rw [hslot, if_neg hne]; exact (h.vacant t hmem).2⟩
  · unfold Heap.insert
    split
    · rename_i hf
      have hd := h.distinct
      rw [hf, List.nodup_cons] at hd
      exact hd.2
    · exact h.distinct
  · rw [hbirths]
    rw [hslot] at hs
    split at hs
    · obtain rfl := Option.some.inj hs; exact Nat.lt_succ_self _
    · exact (h.serial_lt t s hs).trans (Nat.lt_succ_self _)
  · rw [hslot] at hg ht
    split at hg <;> split at ht
    · simp_all
    · obtain rfl := Option.some.inj hg
      exact absurd (h.serial_lt t s' ht) (by simp [← hser])
    · obtain rfl := Option.some.inj ht
      exact absurd (h.serial_lt g s hg) (by simp [hser])
    · exact h.serial_inj g t s s' hg ht hser

end Tidy

theorem births_insert (hp : Heap) (c : Cell) (epoch : Nat) (text : Bool) :
    (hp.insert c epoch text).births = hp.births + 1 := by
  unfold insert; split <;> rfl

theorem Sound.insert (h : hp.Sound epoch) {c : Cell} {text : Bool} (hc : hp.Holds c)
    (hw : (⟨c, epoch, hp.births, text⟩ : Slot).WellMade hp) : (hp.insert c epoch text).Sound epoch := by
  have hgrows := h.tidy.grows_insert c text
  refine ⟨h.tidy.insert c text, fun t c' hc' => ?_, fun t s hs => ?_⟩
  · obtain ⟨s, hs, rfl⟩ := cell?_eq_some.1 hc'
    rw [h.tidy.slot?_insert] at hs
    split at hs
    · obtain rfl := Option.some.inj hs
      exact hgrows.labelled.holds hc
    · exact hgrows.labelled.holds (h.held t _ (cell?_of_slot? hs))
  · rw [h.tidy.slot?_insert] at hs
    split at hs
    · obtain rfl := Option.some.inj hs
      exact hgrows.labelled.wellMade hw
    · exact hgrows.labelled.wellMade (h.wellMade t s hs)

/-! ## Stores -/

theorem labelled_write {h : Handle} {s : Slot} {c : Cell} (hs : hp.slot? h = some s) (hk : c.kind = s.cell.kind) :
    hp.Labelled (hp.write h c) := by
  intro t s' ht
  rw [slot?_write]
  split
  · rename_i heq
    subst heq
    obtain rfl := Option.some.inj (hs.symm.trans ht)
    exact ⟨{ s with cell := c }, by rw [hs]; rfl, by simp [Slot.label, hk]⟩
  · exact ⟨s', ht, rfl⟩

theorem Tidy.write (h : hp.Tidy epoch) (t : Handle) (c : Cell) : (hp.write t c).Tidy epoch := by
  have hslot {g : Handle} {s : Slot} (hs : (hp.write t c).slot? g = some s) :
      ∃ s', hp.slot? g = some s' ∧ s'.epoch = s.epoch ∧ s'.serial = s.serial := by
    rw [slot?_write] at hs
    split at hs
    · rename_i heq
      subst heq
      obtain ⟨s', hs', rfl⟩ := Option.map_eq_some_iff.1 hs
      exact ⟨s', hs', rfl, rfl⟩
    · exact ⟨s, hs, rfl, rfl⟩
  have hsome (g : Handle) : ((hp.write t c).slot? g).isSome = (hp.slot? g).isSome := by
    rw [slot?_write]
    split
    · rename_i heq; subst heq; simp
    · rfl
  refine ⟨fun g => ?_, ?_, fun g s hs => ?_, fun g hg => ?_, ?_, fun g s hs => ?_, fun g g' s s' hg hg' hser => ?_⟩
  · rw [write_registry, hsome, h.registered]
  · rw [write_registry]; exact h.nodup
  · obtain ⟨s', hs', he, -⟩ := hslot hs
    exact he ▸ h.stamped g s' hs'
  · rw [write_free] at hg
    rw [write_size, ← Option.not_isSome_iff_eq_none, hsome, Option.not_isSome_iff_eq_none]
    exact h.vacant g hg
  · rw [write_free]; exact h.distinct
  · obtain ⟨s', hs', -, he⟩ := hslot hs
    rw [write_births]
    exact he ▸ h.serial_lt g s' hs'
  · obtain ⟨u, hu, -, he⟩ := hslot hg
    obtain ⟨u', hu', -, he'⟩ := hslot hg'
    exact h.serial_inj g g' u u' hu hu' (by rw [he, he', hser])

theorem Sound.write (h : hp.Sound epoch) {t : Handle} {s : Slot} {c : Cell} (hs : hp.slot? t = some s)
    (hk : c.kind = s.cell.kind) (hc : hp.Holds c) (hw : ({ s with cell := c } : Slot).WellMade hp) :
    (hp.write t c).Sound epoch := by
  have hlabel := labelled_write hs hk
  have hslot {g : Handle} {u : Slot} (hu : (hp.write t c).slot? g = some u) :
      u = { s with cell := c } ∨ hp.slot? g = some u := by
    rw [slot?_write] at hu
    split at hu
    · rename_i heq
      rw [hs] at hu
      exact .inl (Option.some.inj hu).symm
    · exact .inr hu
  refine ⟨h.tidy.write t c, fun g c' hc' => ?_, fun g u hu => ?_⟩
  · obtain ⟨u, hu, rfl⟩ := cell?_eq_some.1 hc'
    rcases hslot hu with rfl | hu
    · exact hlabel.holds hc
    · exact hlabel.holds (h.held g _ (cell?_of_slot? hu))
  · rcases hslot hu with rfl | hu
    · exact hlabel.wellMade hw
    · exact hlabel.wellMade (h.wellMade g u hu)

end Heap

end LispMachine
