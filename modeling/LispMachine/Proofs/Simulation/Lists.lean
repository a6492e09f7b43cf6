/-
Walking lists in step: lists that stand for each other have elements that do, or are both improper.
-/
import LispMachine.Proofs.Lists
import LispMachine.Proofs.Simulation.Access

namespace LispMachine.Simulation

open Machine (Walks Sturdy)

variable {S : Type} [Simulation S] {σ : S}

/-- a relation of values that goes on to the parts of pairs -/
structure Deep (σ : S) (R : Value → Value → Prop) : Prop where
  live {v v' : Value} : R v v' → Live σ v v'
  parts {h h' : Handle} {a a' d d' : Value} : R (.cons h) (.cons h') → (left σ).cell? h = some (.cons a d) →
    (right σ).cell? h' = some (.cons a' d') → R a a' ∧ R d d'

theorem deep_live (σ : S) : Deep σ (Live σ) where
  live := id
  parts hv hc hc' := by
    cases hv with
    | cons hk =>
      obtain ⟨s, s', hs, hs', hlike, -, -⟩ := view hk
      simp only [Machine.cell?, Heap.cell?_of_slot? hs, Heap.cell?_of_slot? hs', Option.some.injEq] at hc hc'
      rw [hc, hc'] at hlike
      cases hlike with
      | cons ha hd => exact ⟨ha, hd⟩

theorem deep_code (σ : S) : Deep σ (Code σ) where
  live hv := hv.1.live
  parts hv hc hc' := by
    obtain ⟨s, hs, hcell⟩ := Heap.cell?_eq_some.1 hc
    obtain ⟨s', hs', hcell'⟩ := Heap.cell?_eq_some.1 hc'
    cases hv.1 with
    | cons hk => exact kept_text hk hv.2 hs hcell hs' hcell'

namespace Deep

variable {R : Value → Value → Prop} {v v' : Value}

/-- the pairs at the same place of two lists -/
theorem cons_iff (hR : Deep σ R) {h h' : Handle} (hv : R (.cons h) (.cons h')) :
    (∃ a d, (left σ).cell? h = some (.cons a d)) ↔ ∃ a' d', (right σ).cell? h' = some (.cons a' d') := by
  cases hR.live hv with
  | cons hk =>
    obtain ⟨s, s', hs, hs', hlike, -, -⟩ := view hk
    simp only [Machine.cell?, Heap.cell?_of_slot? hs, Heap.cell?_of_slot? hs', Option.some.injEq]
    generalize s.cell = c, s'.cell = c' at hlike
    cases hlike <;> simp

theorem walks (hR : Deep σ R) {items : List Value} (h : Walks (left σ) v items) (hv : R v v') :
    ∃ items', Walks (right σ) v' items' ∧ List.Forall₂ R items items' := by
  induction h generalizing v' with
  | nil =>
    cases hR.live hv with
    | nil => exact ⟨[], .nil, .nil⟩
  | @cons t a d items hc _ ih =>
    cases hR.live hv with
    | cons hk =>
      obtain ⟨a', d', hc'⟩ := (hR.cons_iff hv).1 ⟨a, d, hc⟩
      obtain ⟨ha, hd⟩ := hR.parts hv hc hc'
      obtain ⟨items', hwalk, hitems⟩ := ih hd
      exact ⟨a' :: items', .cons hc' hwalk, .cons ha hitems⟩

theorem walks' (hR : Deep σ R) {items' : List Value} (h : Walks (right σ) v' items') (hv : R v v') :
    ∃ items, Walks (left σ) v items := by
  induction h generalizing v with
  | nil =>
    cases hR.live hv with
    | nil => exact ⟨[], .nil⟩
  | @cons t a' d' items' hc' _ ih =>
    cases hR.live hv with
    | cons hk =>
      obtain ⟨a, d, hc⟩ := (hR.cons_iff hv).2 ⟨a', d', hc'⟩
      obtain ⟨-, hd⟩ := hR.parts hv hc hc'
      obtain ⟨items, hwalk⟩ := ih hd
      exact ⟨a :: items, .cons hc hwalk⟩

theorem sturdy (hR : Deep σ R) : Sturdy (left σ) fun v => ∃ v', R v v' := by
  rintro h ⟨v', hv⟩
  cases hR.live hv with
  | cons hk =>
    obtain ⟨s, s', hs, hs', -⟩ := view hk
    refine ⟨s, hs, fun a d hcell => ?_⟩
    have hc : (left σ).cell? h = some (.cons a d) := by rw [← hcell]; exact Heap.cell?_of_slot? hs
    obtain ⟨a', d', hc'⟩ := (hR.cons_iff hv).1 ⟨a, d, hc⟩
    exact ⟨d', (hR.parts hv hc hc').2⟩

theorem sturdy' (hR : Deep σ R) : Sturdy (right σ) fun v' => ∃ v, R v v' := by
  rintro h' ⟨v, hv⟩
  generalize hw : Value.cons h' = w at hv
  cases hR.live hv <;> cases hw
  rename_i h hk
  obtain ⟨s, s', hs, hs', -⟩ := view hk
  refine ⟨s', hs', fun a' d' hcell => ?_⟩
  have hc' : (right σ).cell? h' = some (.cons a' d') := by rw [← hcell]; exact Heap.cell?_of_slot? hs'
  obtain ⟨a, d, hc⟩ := (hR.cons_iff hv).2 ⟨a', d', hc'⟩
  exact ⟨d, (hR.parts hv hc hc').2⟩

/-- going through two lists, whatever is made of the elements -/
theorem walkList (hR : Deep σ R) (hv : R v v') (hval : Val σ v v') {α : Type} (f : α → Value → α) (init : α) :
    LooseSim σ (Act.walkList f init v) (Act.walkList f init v') fun τ r r' =>
      τ = σ ∧ ∃ items items', List.Forall₂ R items items' ∧ r = items.foldl f init ∧ r' = items'.foldl f init := by
  by_cases h : ∃ items, Walks (left σ) v items
  · obtain ⟨items, hwalk⟩ := h
    obtain ⟨items', hwalk', hitems⟩ := hR.walks hwalk hv
    exact InStep.read (hwalk.run_walkList init) (hwalk'.run_walkList init) ⟨rfl, items, items', hitems, rfl, rfl⟩
  · have hno : ∀ items, ¬ Walks (left σ) v items := fun items hw => h ⟨items, hw⟩
    have hno' : ∀ items', ¬ Walks (right σ) v' items' := fun items' hw => h (hR.walks' hw hv)
    refine .inr ⟨σ, balanced_refl σ, ?_⟩
    rw [hR.sturdy.run_walkList ⟨v', hv⟩ hno init, hR.sturdy'.run_walkList ⟨v, hv⟩ hno' init]
    exact .error (.improperList hval)

theorem listItems (hR : Deep σ R) (hv : R v v') (hval : Val σ v v') :
    LooseSim σ (Act.listItems v) (Act.listItems v') fun τ items items' => τ = σ ∧ List.Forall₂ R items items' := by
  unfold Act.listItems
  refine (hR.walkList hv hval _ _).bind ?_
  rintro τ _ _ _ ⟨rfl, items, items', hitems, rfl, rfl⟩
  exact .pure ⟨rfl, by simpa using hitems⟩

theorem listLength (hR : Deep σ R) (hv : R v v') (hval : Val σ v v') :
    LooseSim σ (Act.listLength v) (Act.listLength v') fun τ n n' => τ = σ ∧ n = n' := by
  unfold Act.listLength
  refine InStep.mono (hR.walkList hv hval _ _) (fun _ => id) (fun _ _ _ _ => id) ?_
  rintro τ _ _ _ ⟨rfl, items, items', hitems, rfl, rfl⟩
  exact ⟨rfl, by simpa using hitems.length_eq⟩

end Deep

theorem listItems_code {v v' : Value} (hv : Code σ v v') : LooseSim σ (Act.listItems v) (Act.listItems v') fun τ vs vs' =>
    τ = σ ∧ List.Forall₂ (Code σ) vs vs' :=
  (deep_code σ).listItems hv hv.1

theorem listLength_code {v v' : Value} (hv : Code σ v v') :
    LooseSim σ (Act.listLength v) (Act.listLength v') fun τ n n' => τ = σ ∧ n = n' :=
  (deep_code σ).listLength hv hv.1

theorem listItems_live {v v' : Value} (hv : Val σ v v') : LooseSim σ (Act.listItems v) (Act.listItems v') fun τ vs vs' =>
    τ = σ ∧ List.Forall₂ (Live σ) vs vs' :=
  (deep_live σ).listItems hv.live hv

end LispMachine.Simulation
