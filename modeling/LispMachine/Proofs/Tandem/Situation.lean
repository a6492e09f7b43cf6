/-
Two machines that run the same program and take passes at different times.

The machines of a tandem agree in everything but handles, and in what passes have released. Both are sound, so what is held
firmly in both goes on corresponding whatever is run next: a tandem is a kind of situations. If the two are one machine at the
start, they stay one; then they may also call for passes and find the heap full.
-/
import LispMachine.Proofs.Tandem.Machines

namespace LispMachine

/-- what has been written as results and errors -/
def Console.lines (c : Console) : List (Channel × String) := c.written.toList.filter (·.1 ≠ .debug)

/-! ## Agreement -/

/-- values, or references to places, that stand for each other -/
def Value.Same (ρ : Kind → Handle → Handle → Prop) (v v' : Value) : Prop := v.Like ρ v' ∨ v.Leads ρ v'

structure Thread.Alike (ρ : Kind → Handle → Handle → Prop) (t t' : Thread) : Prop where
  id : t.stack.id = t'.stack.id
  capacity : t.stack.capacity = t'.stack.capacity
  items : List.Forall₂ (Value.Like ρ) t.stack.items.toList t'.stack.items.toList
  depth : t.depth = t'.depth
  scopes : List.Forall₂ (ρ .scope) t.scopes.toList t'.scopes.toList
  pins : List.Forall₂ (Value.Same ρ) t.pins.toList t'.pins.toList

/-- what is left of a closed thread does not matter -/
structure Thread.Like (ρ : Kind → Handle → Handle → Prop) (t t' : Thread) : Prop where
  isOpen : t.isOpen = t'.isOpen
  alike : t.isOpen = true → t.Alike ρ t'

namespace Machine

/-- handles of two machines that name the same object -/
abbrev Corr (m m' : Machine) : Kind → Handle → Handle → Prop := m.heap.Corr m'.heap

structure Agree (m m' : Machine) : Prop where
  store : m.heap.Agree m'.heap
  symbols : List.Forall₂ (fun e e' => e.1 = e'.1 ∧ m.Corr m' .symbol e.2 e'.2) m.symbols m'.symbols
  gensyms : m.gensyms = m'.gensyms
  globalScope : Option.Rel (m.Corr m' .scope) m.globalScope m'.globalScope
  uses : ∀ h h', m.Corr m' .scope h h' → m.useCount h = m'.useCount h'
  size : m.threads.size = m'.threads.size
  threads : ∀ th, (m.thread th).Like (m.Corr m') (m'.thread th)
  stackOwners : m.stackOwners = m'.stackOwners
  freeStacks : m.freeStacks = m'.freeStacks
  capacity : m.config.stackCapacity = m'.config.stackCapacity
  lines : m.console.lines = m'.console.lines
  budget : m.console.budget = m'.console.budget

end Machine

theorem Machine.Agree.lookup_symbols {m m' : Machine} (ha : m.Agree m') (name : String) :
    Option.Rel (m.Corr m' .symbol) (m.symbols.lookup name) (m'.symbols.lookup name) := by
  have hs := ha.symbols
  generalize m.symbols = l, m'.symbols = r at hs
  induction hs with
  | nil => exact .none
  | @cons e e' _ _ he _ ih =>
    obtain ⟨n, h⟩ := e
    obtain ⟨n', h'⟩ := e'
    obtain ⟨rfl, hc⟩ := he
    simp only [List.lookup_cons]
    split
    · exact .some hc
    · exact ih

theorem Value.Same.mono {ρ ρ' : Kind → Handle → Handle → Prop} {v v' : Value}
    (hρ : ∀ k h h', ρ k h h' → ρ' k h h') (h : v.Same ρ v') : v.Same ρ' v' := h.imp (.mono hρ) (.mono hρ)

theorem Value.Same.mono_names {ρ ρ' : Kind → Handle → Handle → Prop} {v v' : Value}
    (hρ : ∀ k h h', v.Names h k → v'.Names h' k → ρ k h h' → ρ' k h h') (h : v.Same ρ v') : v.Same ρ' v' :=
  h.imp (.mono_names hρ) (.mono_names hρ)

theorem Value.Same.needsPin_eq {ρ : Kind → Handle → Handle → Prop} {v v' : Value} (h : v.Same ρ v') :
    v.needsPin = v'.needsPin := h.elim (·.needsPin_eq) (·.needsPin_eq)

theorem Value.Same.eq {hp : Heap} {epoch : Nat} {v v' : Value} (ht : hp.Tidy epoch) (h : v.Same (hp.Corr hp) v') :
    v = v' := h.elim (fun h => h.eq ht) fun h => h.eq ht

theorem Thread.Alike.mono {ρ ρ' : Kind → Handle → Handle → Prop} {t t' : Thread}
    (hρ : ∀ k h h', ρ k h h' → ρ' k h h') (h : t.Alike ρ t') : t.Alike ρ' t' where
  id := h.id
  capacity := h.capacity
  items := h.items.imp fun _ _ => .mono hρ
  depth := h.depth
  scopes := h.scopes.imp (hρ _)
  pins := h.pins.imp fun _ _ => .mono hρ

theorem Thread.Like.mono {ρ ρ' : Kind → Handle → Handle → Prop} {t t' : Thread}
    (hρ : ∀ k h h', ρ k h h' → ρ' k h h') (h : t.Like ρ t') : t.Like ρ' t' where
  isOpen := h.isOpen
  alike ho := (h.alike ho).mono hρ

theorem Thread.Like.blank (ρ : Kind → Handle → Handle → Prop) : Thread.blank.Like ρ .blank := ⟨rfl, fun h => by cases h⟩

/-! ## Situations -/

/-- two machines with one open thread in common that run in tandem; `same` if they are one machine -/
structure Tandem (th : ThreadId) (same : Bool) where
  left : Machine
  right : Machine
  sound : left.Sound
  sound' : right.Sound
  agree : left.Agree right
  isOpen : (left.thread th).isOpen = true
  eq : same = true → left = right

namespace Tandem

open Machine (Corr)

variable {th : ThreadId} {same : Bool} {σ τ υ : Tandem th same}

/-- assigning to program text spoils the comparison; two different machines must not call for passes or fill their heaps -/
def Spoils (same : Bool) (e : Event) : Prop :=
  e = .assigned true ∨ same = false ∧ (e = .refused ∨ e = .passed .explicit)

/-- handles of one object, held firmly on both sides -/
structure Kept (σ : Tandem th same) (k : Kind) (h h' : Handle) : Prop where
  corr : Corr σ.left σ.right k h h'
  firm : σ.left.Firm h
  firm' : σ.right.Firm h'

/-- both runs have left what they had entered -/
structure Balanced (σ τ : Tandem th same) : Prop where
  keeps : σ.left.Keeps τ.left
  keeps' : σ.right.Keeps τ.right

/-- both runs have only added to their machines -/
structure Quiet (σ τ : Tandem th same) : Prop where
  adds : σ.left.Adds τ.left
  adds' : σ.right.Adds τ.right

theorem isOpen' (σ : Tandem th same) : (σ.right.thread th).isOpen = true :=
  (σ.agree.threads th).isOpen ▸ σ.isOpen

/-- corresponding objects -/
theorem slots {k : Kind} {h h' : Handle} (hc : Corr σ.left σ.right k h h') : ∃ s s', σ.left.heap.slot? h = some s ∧
    σ.right.heap.slot? h' = some s' ∧ s.cell.Same (Corr σ.left σ.right) s'.cell ∧ s.text = s'.text ∧ s.cell.kind = k := by
  obtain ⟨s, s', hs, hs', hserial, hk, -⟩ := hc
  obtain ⟨hsame, htext⟩ := σ.agree.store.cells h h' s s' hs hs' hserial
  exact ⟨s, s', hs, hs', hsame, htext, hk⟩

theorem corr_unique {k l : Kind} {h h' g g' : Handle} (hh : Corr σ.left σ.right k h h') (hg : Corr σ.left σ.right l g g') :
    h = g ↔ h' = g' := hh.unique σ.sound.store.tidy σ.sound'.store.tidy hg

theorem Kept.balanced (hb : Balanced σ τ) {k : Kind} {h h' : Handle} (hk : σ.Kept k h h') : τ.Kept k h h' := by
  obtain ⟨⟨s, s', hs, hs', hserial, hkind, hkind'⟩, hf, hf'⟩ := hk
  obtain ⟨u, hu, hstable⟩ := hb.keeps.stable h s hf hs
  obtain ⟨u', hu', hstable'⟩ := hb.keeps'.stable h' s' hf' hs'
  have hl := hstable.label
  have hl' := hstable'.label
  simp only [Slot.label, Prod.mk.injEq] at hl hl'
  exact ⟨⟨u, u', hu, hu', by rw [hl.1, hl'.1, hserial], by rw [hl.2.2, hkind], by rw [hl'.2.2, hkind']⟩,
    hb.keeps.firm hf, hb.keeps'.firm hf'⟩

/-- text stays text -/
theorem isText_balanced (hb : Balanced σ τ) {v v' : Value} (hv : v.Like σ.Kept v') (ht : v.IsText σ.left.heap) :
    v.IsText τ.left.heap := by
  cases hv with
  | cons hk =>
    obtain ⟨s, hs, htext⟩ := ht
    obtain ⟨s', hs', hstable⟩ := hb.keeps.stable _ s hk.firm hs
    exact ⟨s', hs', (congrArg (·.2.1) hstable.label).trans htext⟩
  | _ => exact ht

/-- the parts of an object that does not change are kept with it -/
theorem Kept.parts {k : Kind} {h h' : Handle} {s s' : Slot} (hk : σ.Kept k h h') (hs : σ.left.heap.slot? h = some s)
    (hs' : σ.right.heap.slot? h' = some s') (hfirm : s.IsFirm) : s.cell.Same σ.Kept s'.cell := by
  obtain ⟨u, u', hu, hu', hsame, htext, -⟩ := slots hk.corr
  obtain rfl := Option.some.inj (hs.symm.trans hu)
  obtain rfl := Option.some.inj (hs'.symm.trans hu')
  have hfirm' : s'.IsFirm := by
    unfold Slot.IsFirm at *
    rwa [← htext, ← hsame.like.kind_eq]
  refine hsame.mono_mentions fun l t t' ht ht' hc => ⟨hc, ?_, ?_⟩
  · exact .step hk.firm hs hfirm ht
  · exact .step hk.firm' hs' hfirm' ht'

instance : Simulation (Tandem th same) where
  left := left
  right := right
  spoils := Spoils same
  spoils' := Spoils same
  Balanced := Balanced
  Quiet := Quiet
  Obj σ := Corr σ.left σ.right
  Kept := Kept
  Spot σ := Value.Leads σ.Kept
  Placed σ := Value.Leads σ.Kept
  Runnable σ v := v.IsText σ.left.heap
  Common f := ∀ h k, f ≠ .freed h k
  balanced_refl σ := ⟨.refl _, .refl _⟩
  balanced_trans h h' := ⟨h.keeps.trans h'.keeps, h.keeps'.trans h'.keeps'⟩
  quiet_refl σ := ⟨.refl _, .refl _⟩
  quiet_trans h h' := ⟨h.adds.trans h'.adds, h.adds'.trans h'.adds'⟩
  balanced_of_quiet h := ⟨h.adds.toKeeps, h.adds'.toKeeps⟩
  obj_of_kept := Kept.corr
  spot_of_placed := id
  obj_quiet h := .mono h.adds.grows.labelled h.adds'.grows.labelled
  kept_balanced h := Kept.balanced h
  placed_balanced h := .mono fun _ _ _ => Kept.balanced h
  label_balanced {σ τ k h h'} hb hk := by
    obtain ⟨⟨s, s', hs, hs', -⟩, hf, hf'⟩ := hk
    obtain ⟨u, hu, hstable⟩ := hb.keeps.stable h s hf hs
    obtain ⟨u', hu', hstable'⟩ := hb.keeps'.stable h' s' hf' hs'
    simp [hs, hs', hu, hu', hstable.label, hstable'.label]
  runnable_balanced hb hv ht := isText_balanced hb hv ht
  runnable_atom hv := hv.isText
  common hf _ := hf
  isReference_of_spot h := h.isReference
  obj_unique := corr_unique
  view hc := by
    obtain ⟨s, s', hs, hs', hsame, htext, hk⟩ := slots hc
    exact ⟨s, s', hs, hs', hsame.like, htext, hk⟩
  kept_error {σ h h' e e'} hk hc hc' := by
    obtain ⟨s, hs, hcell⟩ := Heap.cell?_eq_some.1 hc
    obtain ⟨s', hs', hcell'⟩ := Heap.cell?_eq_some.1 hc'
    have hsame := hk.parts hs hs' (.inr (.inr (.inr (by rw [hcell]; rfl))))
    rw [hcell, hcell'] at hsame
    cases hsame.like with
    | error he => exact he
  kept_function {σ h h' f f'} hk hc hc' := by
    obtain ⟨s, hs, hcell⟩ := Heap.cell?_eq_some.1 hc
    obtain ⟨s', hs', hcell'⟩ := Heap.cell?_eq_some.1 hc'
    have hsame := hk.parts hs hs' (.inr (.inr (.inl (by rw [hcell]; rfl))))
    have hw := σ.sound.store.wellMade h s hs
    rw [hcell, hcell'] at hsame
    cases hsame.like with
    | function hf => exact ⟨hf, fun list outer => hw.body f list outer hcell, fun p special => hw.primitive f p special hcell⟩
  kept_text {σ h h' s s' a a' d d'} hk ht hs hcell hs' hcell' := by
    obtain ⟨u, hu, htext⟩ := ht
    obtain rfl := Option.some.inj (hs.symm.trans hu)
    have hsame := hk.parts hs hs' (.inl ⟨htext, by rw [hcell]; rfl⟩)
    have hw := σ.sound.store.wellMade h s hs
    obtain ⟨hta, htd⟩ := hw.text a d hcell htext
    rw [hcell, hcell'] at hsame
    cases hsame.like with
    | cons ha hd => exact ⟨⟨ha, hta⟩, hd, htd⟩

end Tandem

end LispMachine
