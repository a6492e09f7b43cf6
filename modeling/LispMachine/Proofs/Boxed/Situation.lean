/-
Two machines that run one program, the left one with variables in slots of its stack and the right one with a box for each.

They agree if there is a pairing that holds of their heaps and of the stack of the thread that is open on both. A run keeps what
stands for each other; it may move variables from slots to boxes, and once it has left the scopes it entered, no scope backed by
the stack is there that was not there before. Such pairs of machines are a kind of situations.
-/
import LispMachine.Proofs.Boxed.Pairing
import LispMachine.Proofs.Tandem.Frames

namespace LispMachine

/-- an event that only a machine with a stack and a bounded heap meets, or one that takes passes -/
def Event.interrupts : Event → Bool
  | .refused | .overflowed | .passed _ => true
  | .assigned _ | .missed | .caught .. => false

namespace Boxed

/-! ## Agreement -/

structure Agree (th : ThreadId) (ρ : Pairing) (l r : Machine) : Prop where
  store : ρ.Holds (l.thread th).stack.id (l.thread th).stack.items l.heap r.heap
  tidy : l.heap.Tidy l.collector.epoch
  tidy' : r.heap.Tidy r.collector.epoch
  unbounded : r.heap.limit = none
  marking : l.collector.marking = false
  marking' : r.collector.marking = false
  symbols : List.Forall₂ (fun e e' => e.1 = e'.1 ∧ ρ.obj .symbol e.2 e'.2) l.symbols r.symbols
  gensyms : l.gensyms = r.gensyms
  globalScope : ∃ g g', l.globalScope = some g ∧ r.globalScope = some g' ∧ ρ.obj .scope g g'
  lines : l.console.lines = r.console.lines
  budget : l.console.budget = r.console.budget
  isOpen : (l.thread th).isOpen = true
  isOpen' : (r.thread th).isOpen = true
  whole : (l.thread th).stack.beyond = 0
  owner : (l.stackOwners[(l.thread th).stack.id]?).join = some th
  scopes : List.Forall₂ ρ.Open (l.thread th).scopes.toList (r.thread th).scopes.toList
  outermost : ∃ g g', (l.thread th).scopes[0]? = some g ∧ (r.thread th).scopes[0]? = some g' ∧ ρ.obj .scope g g'

/-- two machines with one open thread in common, and what stands for what -/
structure Situation (th : ThreadId) where
  left : Machine
  right : Machine
  pairing : Pairing
  agree : Agree th pairing left right

/-- what a run leaves as it was: all but heap, stack, pins, collector and console -/
structure Stays (th : ThreadId) (m m' : Machine) : Prop where
  id : (m'.thread th).stack.id = (m.thread th).stack.id
  scopes : (m'.thread th).scopes = (m.thread th).scopes
  uses : ∀ h, m'.useCount h = m.useCount h
  size : m'.threads.size = m.threads.size
  owners : m'.stackOwners = m.stackOwners
  free : m'.freeStacks = m.freeStacks
  globalScope : m'.globalScope = m.globalScope
  config : m'.config = m.config

theorem Stays.refl (th : ThreadId) (m : Machine) : Stays th m m := ⟨rfl, rfl, fun _ => rfl, rfl, rfl, rfl, rfl, rfl⟩

theorem Stays.trans {th : ThreadId} {m₁ m₂ m₃ : Machine} (h : Stays th m₁ m₂) (h' : Stays th m₂ m₃) : Stays th m₁ m₃ :=
  ⟨h'.id.trans h.id, h'.scopes.trans h.scopes, fun g => (h'.uses g).trans (h.uses g), h'.size.trans h.size,
    h'.owners.trans h.owners, h'.free.trans h.free, h'.globalScope.trans h.globalScope, h'.config.trans h.config⟩

variable {th : ThreadId} {σ τ υ : Situation th}

namespace Situation

/-- the number of slots of the stack in use -/
def height (σ : Situation th) : Nat := (σ.left.thread th).stack.items.size

/-- the value in a slot -/
def item? (σ : Situation th) (i : Nat) : Option Value := (σ.left.thread th).stack.items[i]?

/-- scopes that stand for each other for now -/
abbrev Open (σ : Situation th) (h h' : Handle) : Prop := σ.pairing.Open h h'

/-- references to variables, or to fields of objects, that stand for each other for now -/
def Spot (σ : Situation th) (r r' : Value) : Prop :=
  ∃ h sym, σ.pairing.Variable (σ.left.thread th).stack.id h sym r r'

/-- between two situations nothing has been lost but variables that were in slots and have moved into boxes; there may be more
on the stack -/
structure Keeps (σ τ : Situation th) : Prop where
  extends_ : σ.pairing.Extends τ.pairing
  frame : ∀ {h h'}, τ.pairing.frame h h' → σ.pairing.frame h h'
  slot : ∀ {h sym i b}, τ.pairing.slot h sym i b → σ.pairing.slot h sym i b
  lasts : σ.left.heap.Lasts τ.left.heap
  lasts' : σ.right.heap.Lasts τ.right.heap
  stays : Stays th σ.left τ.left
  stays' : Stays th σ.right τ.right
  height : σ.height ≤ τ.height
  item? : ∀ i, i < σ.height → (∀ h sym b, ¬ σ.pairing.slot h sym i b) → τ.item? i = σ.item? i

/-- and there is not more on the stack -/
structure Balanced (σ τ : Situation th) : Prop extends Keeps σ τ where
  level : τ.height = σ.height

theorem Keeps.refl (σ : Situation th) : Keeps σ σ :=
  ⟨.refl _, id, id, .refl _, .refl _, .refl _ _, .refl _ _, Nat.le_refl _, fun _ _ _ => rfl⟩

theorem Keeps.trans (h : Keeps σ τ) (h' : Keeps τ υ) : Keeps σ υ where
  extends_ := h.extends_.trans h'.extends_
  frame hf := h.frame (h'.frame hf)
  slot hs := h.slot (h'.slot hs)
  lasts := h.lasts.trans h'.lasts
  lasts' := h.lasts'.trans h'.lasts'
  stays := h.stays.trans h'.stays
  stays' := h.stays'.trans h'.stays'
  height := Nat.le_trans h.height h'.height
  item? i hi hfree :=
    (h'.item? i (Nat.lt_of_lt_of_le hi h.height) fun g sym b hs => hfree g sym b (h.slot hs)).trans (h.item? i hi hfree)

theorem Balanced.refl (σ : Situation th) : Balanced σ σ := ⟨.refl σ, rfl⟩

theorem Balanced.trans (h : Balanced σ τ) (h' : Balanced τ υ) : Balanced σ υ :=
  ⟨h.toKeeps.trans h'.toKeeps, h'.level.trans h.level⟩

theorem Keeps.obj (h : Keeps σ τ) (k : Kind) (g g' : Handle) : σ.pairing.obj k g g' → τ.pairing.obj k g g' := h.extends_.obj

theorem Keeps.opened (h : Keeps σ τ) {g g' : Handle} : σ.Open g g' → τ.Open g g' := h.extends_.opened

/-- slots of variables are in use -/
theorem lt_height {h sym b : Handle} {i : Nat} (hs : σ.pairing.slot h sym i b) : i < σ.height := by
  obtain ⟨v, s', v', hst⟩ := σ.agree.store.stores hs
  exact (Array.getElem?_eq_some_iff.1 hst.item).1

end Situation

/-! ## Situations -/

instance : Simulation (Situation th) where
  left := Situation.left
  right := Situation.right
  spoils e := e.interrupts = true
  spoils' _ := False
  Balanced := Situation.Balanced
  Quiet := Situation.Balanced
  Obj σ := σ.pairing.obj
  Kept σ := σ.pairing.obj
  Spot := Situation.Spot
  Placed σ := Value.Through σ.pairing.obj
  Runnable _ _ := True
  Common f := (∀ h k, f ≠ .freed h k) ∧ f ≠ .exhausted
  balanced_refl := .refl
  balanced_trans := .trans
  quiet_refl := .refl
  quiet_trans := .trans
  balanced_of_quiet := id
  obj_of_kept := id
  spot_of_placed hr := ⟨0, 0, .through hr⟩
  obj_quiet h := h.obj _ _ _
  kept_balanced h := h.obj _ _ _
  placed_balanced h := .mono h.obj
  label_balanced {σ τ k h h'} hb hk := by
    obtain ⟨s, s', hf⟩ := σ.agree.store.fits hk
    obtain ⟨u, hu, hlabel⟩ := hb.lasts.labelled h s hf.slot
    obtain ⟨u', hu', hlabel'⟩ := hb.lasts'.labelled h' s' hf.slot'
    simp [hf.slot, hf.slot', hu, hu', hlabel, hlabel']
  runnable_balanced _ _ _ := trivial
  runnable_atom _ := trivial
  common hf he := ⟨hf, he⟩
  isReference_of_spot := by
    rintro σ r r' ⟨h, sym, hs | hr⟩
    · exact ⟨rfl, rfl⟩
    · exact hr.isReference
  obj_unique {σ} _ _ _ _ _ _ hh hg := σ.agree.store.unique hh hg
  view {σ k h h'} hk := by
    obtain ⟨s, s', hf⟩ := σ.agree.store.fits hk
    exact ⟨s, s', hf.slot, hf.slot', hf.alike.like, hf.text, hf.kind⟩
  kept_error {σ h h' e e'} hk hc hc' := by
    obtain ⟨c, c', hcell, hcell', hlike, -⟩ := σ.agree.store.cell hk
    obtain rfl := Option.some.inj (hcell.symm.trans hc)
    obtain rfl := Option.some.inj (hcell'.symm.trans hc')
    cases hlike with
    | error he => exact he
  kept_function {σ h h' f f'} hk hc hc' := by
    obtain ⟨s, s', hf⟩ := σ.agree.store.fits hk
    have hcell : s.cell = .function f := Option.some.inj ((Heap.cell?_of_slot? hf.slot).symm.trans hc)
    have hcell' : s'.cell = .function f' := Option.some.inj ((Heap.cell?_of_slot? hf.slot').symm.trans hc')
    have hlike := hf.alike.like
    rw [hcell, hcell'] at hlike
    cases hlike with
    | function hlike => exact ⟨hlike, fun _ _ _ => trivial, fun p special => hf.alike.suits f p special hcell⟩
  kept_text {σ h h' s s' a a' d d'} hk _ hs hcell hs' hcell' := by
    obtain ⟨u, u', hf⟩ := σ.agree.store.fits hk
    obtain rfl := Option.some.inj (hs.symm.trans hf.slot)
    obtain rfl := Option.some.inj (hs'.symm.trans hf.slot')
    have hlike := hf.alike.like
    rw [hcell, hcell'] at hlike
    cases hlike with
    | cons ha hd => exact ⟨⟨ha, trivial⟩, hd, trivial⟩

end Boxed

end LispMachine
