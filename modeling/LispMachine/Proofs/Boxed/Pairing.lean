/-
Two heaps, one of which has its variables in boxes.

On the left variables of a call live in slots of the caller's stack until something captures them; on the right every variable is
a box from the start. A pairing says which objects stand for each other, which scopes backed by the stack have a like on the
right, and which of their variables are still in a slot. It holds of two heaps if what stands for each other is alike; each
operation on a heap keeps it, and so does moving a variable from its slot into a box, for then the two boxes stand for each
other.
-/
import LispMachine.Proofs.Boxed.Semantics
import LispMachine.Proofs.Tandem.Twins

namespace LispMachine

/-! ## What lasts of a heap -/

namespace Heap

/-- what stays of an object: its label, what lies around it, and a function as a whole -/
structure Lasts (hp hp' : Heap) : Prop where
  slot : ∀ h s, hp.slot? h = some s → ∃ s', hp'.slot? h = some s' ∧ s'.label = s.label ∧ s'.cell.outer = s.cell.outer ∧
    (s.cell.kind = .function → s'.cell = s.cell)

variable {hp hp₁ hp₂ : Heap} {h : Handle} {s : Slot} {c : Cell}

theorem Lasts.refl (hp : Heap) : hp.Lasts hp := ⟨fun _ s hs => ⟨s, hs, rfl, rfl, fun _ => rfl⟩⟩

theorem Lasts.trans (h : hp.Lasts hp₁) (h' : hp₁.Lasts hp₂) : hp.Lasts hp₂ where
  slot g s hs := by
    obtain ⟨s₁, hs₁, hlabel, houter, hfun⟩ := h.slot g s hs
    obtain ⟨s₂, hs₂, hlabel', houter', hfun'⟩ := h'.slot g s₁ hs₁
    refine ⟨s₂, hs₂, hlabel'.trans hlabel, houter'.trans houter, fun hk => (hfun' ?_).trans (hfun hk)⟩
    exact (congrArg (·.2.2) hlabel).trans hk

theorem Lasts.labelled (h : hp.Lasts hp₁) : hp.Labelled hp₁ := fun g s hs =>
  have ⟨s', hs', hlabel, _⟩ := h.slot g s hs
  ⟨s', hs', hlabel⟩

theorem Grows.lasts (h : hp.Grows hp₁) : hp.Lasts hp₁ := ⟨fun g s hs => ⟨s, h g s hs, rfl, rfl, fun _ => rfl⟩⟩

theorem lasts_write (hs : hp.slot? h = some s) (hk : c.kind = s.cell.kind) (houter : c.outer = s.cell.outer)
    (hfun : c.kind ≠ .function) : hp.Lasts (hp.write h c) where
  slot g u hu := by
    rw [slot?_write]
    split
    · rename_i heq
      subst heq
      obtain rfl := Option.some.inj (hs.symm.trans hu)
      exact ⟨{ s with cell := c }, by rw [hs]; rfl, by simp [Slot.label, hk], houter, fun h => absurd (hk.trans h) hfun⟩
    · exact ⟨u, hu, rfl, rfl, fun _ => rfl⟩

theorem slot?_write_self (hs : hp.slot? h = some s) (c : Cell) : (hp.write h c).slot? h = some { s with cell := c } := by
  rw [slot?_write, if_pos rfl, hs]
  rfl

theorem slot?_write_of_ne {g : Handle} (hne : g ≠ h) (c : Cell) : (hp.write h c).slot? g = hp.slot? g := by
  rw [slot?_write, if_neg hne]

/-- the object in `p` was made before the one in `h` -/
def Older (hp : Heap) (p h : Handle) : Prop :=
  ∃ s t, hp.slot? p = some s ∧ hp.slot? h = some t ∧ s.serial < t.serial

/-- the object in `h` was among the first `n` -/
def Within (hp : Heap) (h : Handle) (n : Nat) : Prop := ∃ s, hp.slot? h = some s ∧ s.serial < n

theorem Older.labelled (hl : hp.Labelled hp₁) {p h : Handle} (ho : hp.Older p h) : hp₁.Older p h := by
  obtain ⟨s, t, hs, ht, hlt⟩ := ho
  obtain ⟨s', hs', hlabel⟩ := hl p s hs
  obtain ⟨t', ht', hlabel'⟩ := hl h t ht
  exact ⟨s', t', hs', ht', by
    rw [show s'.serial = s.serial from congrArg Prod.fst hlabel, show t'.serial = t.serial from congrArg Prod.fst hlabel']
    exact hlt⟩

theorem Older.asymm {p h : Handle} (ho : hp.Older p h) : ¬ hp.Older h p := by
  rintro ⟨t', s', ht', hs', hlt'⟩
  obtain ⟨s, t, hs, ht, hlt⟩ := ho
  obtain rfl := Option.some.inj (hs.symm.trans hs')
  obtain rfl := Option.some.inj (ht.symm.trans ht')
  exact Nat.lt_asymm hlt hlt'

theorem Within.older {p h : Handle} {n : Nat} (hw : hp.Within h (n + 1)) (ho : hp.Older p h) : hp.Within p n := by
  obtain ⟨s, t, hs, ht, hlt⟩ := ho
  obtain ⟨u, hu, hn⟩ := hw
  obtain rfl := Option.some.inj (ht.symm.trans hu)
  exact ⟨s, hs, Nat.lt_of_lt_of_le hlt (Nat.le_of_lt_succ hn)⟩

end Heap

/-! ## References and scopes -/

/-- references to fields of objects that stand for each other -/
inductive Value.Through (ρ : Kind → Handle → Handle → Prop) : Value → Value → Prop where
  | box {h h' : Handle} : ρ .box h h' → Through ρ (.ref (.box h)) (.ref (.box h'))
  | car {h h' : Handle} : ρ .cons h h' → Through ρ (.ref (.car h)) (.ref (.car h'))
  | cdr {h h' : Handle} : ρ .cons h h' → Through ρ (.ref (.cdr h)) (.ref (.cdr h'))

/-- scopes with variables that stand for each other in the same order, the one on the right persistent -/
structure Scope.Mirrors (ρ : Kind → Handle → Handle → Prop) (around : Handle → Handle → Prop)
    (var : Handle → Value → Value → Prop) (s s' : Scope) : Prop where
  name : Option.Rel (ρ .symbol) s.name s'.name
  parent : s.parent.Like (fun _ => around) s'.parent
  tables : s.Tables (ρ .symbol) var s'
  keys : (s.table.map Prod.fst).Nodup
  persistent : s'.transient = false

section

variable {ρ ρ' : Kind → Handle → Handle → Prop} (hρ : ∀ k h h', ρ k h h' → ρ' k h h')
include hρ

theorem Value.Through.mono {r r' : Value} (h : r.Through ρ r') : r.Through ρ' r' := by
  cases h with
  | box h => exact .box (hρ _ _ _ h)
  | car h => exact .car (hρ _ _ _ h)
  | cdr h => exact .cdr (hρ _ _ _ h)

theorem Scope.Mirrors.mono {around around' : Handle → Handle → Prop} {var var' : Handle → Value → Value → Prop} {s s' : Scope}
    (h : s.Mirrors ρ around var s') (haround : ∀ p p', s.parent = .scope p → around p p' → around' p p')
    (hvar : ∀ sym r, (sym, r) ∈ s.table → ∀ r', var sym r r' → var' sym r r') : s.Mirrors ρ' around' var' s' where
  name := optionRel_mono (hρ _) h.name
  parent := by
    have hparent := h.parent
    generalize hp : s.parent = p, s'.parent = p' at hparent
    cases hparent with
    | none => exact .none
    | scope hh => exact .scope (haround _ _ hp hh)
  tables := forall₂_imp_mem h.tables fun e he e' _ hee => ⟨hρ _ _ _ hee.1, hvar e.1 e.2 he _ hee.2⟩
  keys := h.keys
  persistent := h.persistent

end

theorem Value.Through.isReference {ρ : Kind → Handle → Handle → Prop} {r r' : Value} (h : r.Through ρ r') :
    r.isReference = true ∧ r'.isReference = true := by
  cases h <;> exact ⟨rfl, rfl⟩

namespace Boxed

/-! ## Pairings -/

/-- what stands for what: objects, scopes backed by the stack on the left, and the variables of these that are in slots -/
structure Pairing where
  obj : Kind → Handle → Handle → Prop
  frame : Handle → Handle → Prop
  /-- the variable of a scope and a symbol, its slot on the left and its box on the right -/
  slot : Handle → Handle → Nat → Handle → Prop

namespace Pairing

/-- scopes that stand for each other, whether backed by the stack or not -/
def Open (ρ : Pairing) (h h' : Handle) : Prop := ρ.obj .scope h h' ∨ ρ.frame h h'

/-- references to a variable of a scope backed by the stack; `id` is the number of the stack -/
inductive Variable (ρ : Pairing) (id : Nat) (h sym : Handle) : Value → Value → Prop where
  | slot {i : Nat} {b : Handle} : ρ.slot h sym i b → Variable ρ id h sym (.ref (.stack id i)) (.ref (.box b))
  | through {r r' : Value} : r.Through ρ.obj r' → Variable ρ id h sym r r'

/-- what may lie around scopes that stand for each other: older scopes that do -/
structure Around (hp hp' : Heap) (P : Handle → Handle → Prop) (h h' p p' : Handle) : Prop where
  pair : P p p'
  older : hp.Older p h
  older' : hp'.Older p' h'

/-- objects that are alike, under the given handles -/
structure Alike (obj : Kind → Handle → Handle → Prop) (hp hp' : Heap) (h h' : Handle) (c c' : Cell) : Prop where
  like : c.Like obj c'
  suits : ∀ f p special, c = .function f → f.body = .primitive p special → p.Suits special
  scope : ∀ sc sc', c = .scope sc → c' = .scope sc' → sc.transient = false ∧
    sc.Mirrors obj (Around hp hp' (obj .scope) h h') (fun _ => Value.Through obj) sc'

/-- what two handles name is alike -/
structure Fits (obj : Kind → Handle → Handle → Prop) (hp hp' : Heap) (k : Kind) (h h' : Handle) (s s' : Slot) : Prop where
  slot : hp.slot? h = some s
  slot' : hp'.slot? h' = some s'
  kind : s.cell.kind = k
  text : s.text = s'.text
  alike : Alike obj hp hp' h h' s.cell s'.cell

/-- a scope backed by the stack, and its like -/
structure Backs (ρ : Pairing) (id : Nat) (hp hp' : Heap) (h h' : Handle) (s s' : Slot) (sc sc' : Scope) : Prop where
  slot : hp.slot? h = some s
  slot' : hp'.slot? h' = some s'
  cell : s.cell = .scope sc
  cell' : s'.cell = .scope sc'
  text : s.text = s'.text
  transient : sc.transient = true
  mirrors : sc.Mirrors ρ.obj (Around hp hp' ρ.Open h h') (ρ.Variable id h) sc'

/-- what is in a slot is in its box -/
structure Stores (obj : Kind → Handle → Handle → Prop) (items : Array Value) (hp' : Heap) (i : Nat) (b : Handle) (v : Value)
    (s' : Slot) (v' : Value) : Prop where
  item : items[i]? = some v
  slot' : hp'.slot? b = some s'
  cell' : s'.cell = .box v'
  text : s'.text = false
  like : v.Like obj v'

/-- what is paired is alike in two heaps and a stack -/
structure Holds (ρ : Pairing) (id : Nat) (items : Array Value) (hp hp' : Heap) : Prop where
  fits : ∀ {k h h'}, ρ.obj k h h' → ∃ s s', Fits ρ.obj hp hp' k h h' s s'
  unique : ∀ {k l h h' g g'}, ρ.obj k h h' → ρ.obj l g g' → (h = g ↔ h' = g')
  backs : ∀ {h h'}, ρ.frame h h' → ∃ s s' sc sc', ρ.Backs id hp hp' h h' s s' sc sc'
  apart : ∀ {k h h' g g'}, ρ.obj k h h' → ρ.frame g g' → h ≠ g ∧ h' ≠ g'
  single : ∀ {h h' g g'}, ρ.frame h h' → ρ.frame g g' → (h = g ↔ h' = g')
  owned : ∀ {h sym i b}, ρ.slot h sym i b → ∃ h', ρ.frame h h'
  stores : ∀ {h sym i b}, ρ.slot h sym i b → ∃ v s' v', Stores ρ.obj items hp' i b v s' v'
  hidden : ∀ {h sym i b k g}, ρ.slot h sym i b → ¬ ρ.obj k g b
  distinct : ∀ {h sym i b g sym' j c}, ρ.slot h sym i b → ρ.slot g sym' j c → i = j ∨ b = c →
    h = g ∧ sym = sym' ∧ i = j ∧ b = c

/-- what stands for each other goes on doing so -/
structure Extends (ρ ρ' : Pairing) : Prop where
  obj : ∀ {k h h'}, ρ.obj k h h' → ρ'.obj k h h'
  frame : ∀ {h h'}, ρ.frame h h' → ρ'.Open h h'

variable {ρ ρ' ρ'' : Pairing} {id : Nat} {items : Array Value} {hp hp' hp₁ hp₁' : Heap}

theorem Extends.refl (ρ : Pairing) : ρ.Extends ρ := ⟨fun h => h, .inr⟩

theorem Extends.opened (h : ρ.Extends ρ') {g g' : Handle} (ho : ρ.Open g g') : ρ'.Open g g' :=
  ho.elim (fun h' => .inl (h.obj h')) h.frame

theorem Extends.trans (h : ρ.Extends ρ') (h' : ρ'.Extends ρ'') : ρ.Extends ρ'' :=
  ⟨fun hh => h'.obj (h.obj hh), fun hh => h'.opened (h.frame hh)⟩

theorem Around.mono {P P' : Handle → Handle → Prop} {h h' p p' : Handle} (ha : Around hp hp' P h h' p p')
    (hP : P p p' → P' p p') (hl : hp.Labelled hp₁) (hl' : hp'.Labelled hp₁') : Around hp₁ hp₁' P' h h' p p' :=
  ⟨hP ha.pair, ha.older.labelled hl, ha.older'.labelled hl'⟩

section

variable {obj obj' : Kind → Handle → Handle → Prop} (hobj : ∀ {k h h'}, obj k h h' → obj' k h h') (hl : hp.Labelled hp₁)
  (hl' : hp'.Labelled hp₁') {h h' : Handle} {s s' : Slot}
include hobj hl hl'

theorem Alike.mono {c c' : Cell} (ha : Alike obj hp hp' h h' c c') : Alike obj' hp₁ hp₁' h h' c c' where
  like := ha.like.mono fun _ _ _ => hobj
  suits := ha.suits
  scope sc sc' hsc hsc' :=
    have ⟨htransient, hmirrors⟩ := ha.scope sc sc' hsc hsc'
    ⟨htransient, hmirrors.mono (fun _ _ _ => hobj) (fun _ _ _ ha => ha.mono hobj hl hl')
      fun _ _ _ _ hr => hr.mono fun _ _ _ => hobj⟩

/-- objects that are left as they are stay alike -/
theorem Fits.mono {k : Kind} (hf : Fits obj hp hp' k h h' s s') (hs : hp₁.slot? h = some s) (hs' : hp₁'.slot? h' = some s') :
    Fits obj' hp₁ hp₁' k h h' s s' where
  slot := hs
  slot' := hs'
  kind := hf.kind
  text := hf.text
  alike := hf.alike.mono hobj hl hl'

end

theorem Backs.mono {h h' : Handle} {s s' : Slot} {sc sc' : Scope} (hobj : ∀ {k h h'}, ρ.obj k h h' → ρ'.obj k h h')
    (hl : hp.Labelled hp₁) (hl' : hp'.Labelled hp₁') (hb : ρ.Backs id hp hp' h h' s s' sc sc') (hs : hp₁.slot? h = some s)
    (hs' : hp₁'.slot? h' = some s') (hopen : ∀ {p p'}, sc.parent = .scope p → ρ.Open p p' → ρ'.Open p p')
    (hslot : ∀ {sym i b}, ρ.slot h sym i b → ρ'.slot h sym i b) : ρ'.Backs id hp₁ hp₁' h h' s s' sc sc' where
  slot := hs
  slot' := hs'
  cell := hb.cell
  cell' := hb.cell'
  text := hb.text
  transient := hb.transient
  mirrors := hb.mirrors.mono (fun _ _ _ => hobj) (fun _ _ hp ha => ha.mono (hopen hp) hl hl') fun _ _ _ _ hr => by
    cases hr with
    | slot hs => exact .slot (hslot hs)
    | through hr => exact .through (hr.mono fun _ _ _ => hobj)

/-- pairs, symbols, errors and boxes are alike if they are so in what they hold -/
theorem Alike.of_like {h h' : Handle} {c c' : Cell} (hc : c.Like ρ.obj c') (hscope : c.kind ≠ .scope)
    (hfun : c.kind ≠ .function) : Alike ρ.obj hp hp' h h' c c' where
  like := hc
  suits _ _ _ hf := absurd (hf ▸ rfl) hfun
  scope _ _ hsc := absurd (hsc ▸ rfl) hscope

/-! ## Changing a pairing -/

/-- one more pair of objects -/
def adding (ρ : Pairing) (k : Kind) (h h' : Handle) : Pairing :=
  { ρ with obj := fun l g g' => ρ.obj l g g' ∨ (l = k ∧ g = h ∧ g' = h') }

/-- the variable of a scope and a symbol goes from its slot into a box -/
def boxing (ρ : Pairing) (h sym n b : Handle) : Pairing :=
  { ρ.adding .box n b with slot := fun g s i c => ρ.slot g s i c ∧ ¬ (g = h ∧ s = sym) }

/-- a scope is backed by the stack no more -/
def dropping (ρ : Pairing) (h : Handle) : Pairing :=
  { ρ with
    frame := fun g g' => ρ.frame g g' ∧ g ≠ h
    slot := fun g s i c => ρ.slot g s i c ∧ g ≠ h }

/-- a scope backed by the stack is persistent from now on -/
def promoting (ρ : Pairing) (h h' : Handle) : Pairing := (ρ.dropping h).adding .scope h h'

/-- one more scope backed by the stack, with the variables that are given by symbol, slot and box -/
def framing (ρ : Pairing) (h h' : Handle) (var : Handle → Nat → Handle → Prop) : Pairing :=
  { ρ with
    frame := fun g g' => ρ.frame g g' ∨ (g = h ∧ g' = h')
    slot := fun g s i b => ρ.slot g s i b ∨ (g = h ∧ var s i b) }

/-- handles that stand for nothing -/
structure Spare (ρ : Pairing) (h h' : Handle) : Prop where
  obj : ∀ k g, ¬ ρ.obj k h g
  obj' : ∀ k g, ¬ ρ.obj k g h'
  frame : ∀ g, ¬ ρ.frame h g
  frame' : ∀ g, ¬ ρ.frame g h'
  box : ∀ g sym i, ¬ ρ.slot g sym i h'

theorem extends_adding (ρ : Pairing) (k : Kind) (h h' : Handle) : ρ.Extends (ρ.adding k h h') := ⟨.inl, .inr⟩

theorem extends_boxing (ρ : Pairing) (h sym n b : Handle) : ρ.Extends (ρ.boxing h sym n b) := ⟨.inl, .inr⟩

theorem extends_promoting {h h' : Handle} (hsingle : ∀ g', ρ.frame h g' → g' = h') : ρ.Extends (ρ.promoting h h') where
  obj := .inl
  frame {g g'} hg := by
    by_cases heq : g = h
    · subst heq
      exact .inl (.inr ⟨rfl, rfl, hsingle _ hg⟩)
    · exact .inr ⟨hg, heq⟩

theorem extends_framing (ρ : Pairing) (h h' : Handle) (var : Handle → Nat → Handle → Prop) :
    ρ.Extends (ρ.framing h h' var) := ⟨fun h => h, fun h => .inr (.inl h)⟩

namespace Holds

variable (H : ρ.Holds id items hp hp')
include H

/-! ## Reading -/

theorem some {k : Kind} {h h' : Handle} (ho : ρ.obj k h h') : (hp.slot? h).isSome ∧ (hp'.slot? h').isSome := by
  obtain ⟨s, s', hf⟩ := H.fits ho
  simp [hf.slot, hf.slot']

theorem frame_some {h h' : Handle} (ho : ρ.frame h h') : (hp.slot? h).isSome ∧ (hp'.slot? h').isSome := by
  obtain ⟨s, s', sc, sc', hb⟩ := H.backs ho
  simp [hb.slot, hb.slot']

/-- the box of a variable is no scope -/
theorem box_ne_frame {h sym b g g' : Handle} {i : Nat} (hs : ρ.slot h sym i b) (hg : ρ.frame g g') : b ≠ g' := by
  rintro rfl
  obtain ⟨v, s', v', hst⟩ := H.stores hs
  obtain ⟨s, u', sc, sc', hb⟩ := H.backs hg
  obtain rfl := Option.some.inj (hst.slot'.symm.trans hb.slot')
  cases hst.cell'.symm.trans hb.cell'

/-- what a reference to a field leads to -/
theorem cell {k : Kind} {h h' : Handle} (ho : ρ.obj k h h') : ∃ c c', hp.cell? h = .some c ∧ hp'.cell? h' = .some c' ∧
    c.Like ρ.obj c' ∧ c.kind = k := by
  obtain ⟨s, s', hf⟩ := H.fits ho
  exact ⟨s.cell, s'.cell, Heap.cell?_of_slot? hf.slot, Heap.cell?_of_slot? hf.slot', hf.alike.like, hf.kind⟩

/-- scopes that stand for each other have the same variables -/
theorem opened {h h' : Handle} (ho : ρ.Open h h') : ∃ sc sc', hp.cell? h = .some (.scope sc) ∧
    hp'.cell? h' = .some (.scope sc') ∧ sc.Mirrors ρ.obj (Around hp hp' ρ.Open h h') (ρ.Variable id h) sc' := by
  rcases ho with ho | ho
  · obtain ⟨s, s', hf⟩ := H.fits ho
    have hlike := hf.alike.like
    have hkind := hf.kind
    have hscope := hf.alike.scope
    have hc := Heap.cell?_of_slot? hf.slot
    have hc' := Heap.cell?_of_slot? hf.slot'
    generalize s.cell = c, s'.cell = c' at hlike hkind hscope hc hc'
    cases hlike <;> cases hkind
    obtain ⟨-, hm⟩ := hscope _ _ rfl rfl
    exact ⟨_, _, hc, hc', hm.mono (fun _ _ _ h => h) (fun _ _ _ ha => ⟨.inl ha.pair, ha.older, ha.older'⟩)
      fun _ _ _ _ hr => .through hr⟩
  · obtain ⟨s, s', sc, sc', hb⟩ := H.backs ho
    exact ⟨sc, sc', hb.cell ▸ Heap.cell?_of_slot? hb.slot, hb.cell' ▸ Heap.cell?_of_slot? hb.slot', hb.mirrors⟩

/-- persistent scopes that stand for each other -/
theorem scope {h h' : Handle} (ho : ρ.obj .scope h h') : ∃ s s' sc sc', Fits ρ.obj hp hp' .scope h h' s s' ∧
    s.cell = .scope sc ∧ s'.cell = .scope sc' ∧ sc.transient = false ∧
    sc.Mirrors ρ.obj (Around hp hp' (ρ.obj .scope) h h') (fun _ => Value.Through ρ.obj) sc' := by
  obtain ⟨s, s', hf⟩ := H.fits ho
  have hlike := hf.alike.like
  have hkind := hf.kind
  have hscope := hf.alike.scope
  generalize hc : s.cell = c, hc' : s'.cell = c' at hlike hkind hscope
  cases hlike <;> cases hkind
  exact ⟨s, s', _, _, hf, hc, hc', hscope _ _ rfl rfl⟩

/-! ## Operations -/

/-- more objects on either side -/
theorem grow (hg : hp.Grows hp₁) (hg' : hp'.Grows hp₁') : ρ.Holds id items hp₁ hp₁' where
  fits ho :=
    have ⟨s, s', hf⟩ := H.fits ho
    ⟨s, s', hf.mono (fun h => h) hg.labelled hg'.labelled (hg _ _ hf.slot) (hg' _ _ hf.slot')⟩
  unique := H.unique
  backs ho :=
    have ⟨s, s', sc, sc', hb⟩ := H.backs ho
    ⟨s, s', sc, sc', hb.mono (fun h => h) hg.labelled hg'.labelled (hg _ _ hb.slot) (hg' _ _ hb.slot') (fun _ h => h) fun h => h⟩
  apart := H.apart
  single := H.single
  owned := H.owned
  stores hs :=
    have ⟨v, s', v', hst⟩ := H.stores hs
    ⟨v, s', v', { hst with slot' := hg' _ _ hst.slot' }⟩
  hidden := H.hidden
  distinct := H.distinct

/-- another stack with the same contents in the slots of variables -/
theorem restack {items' : Array Value} (hitems : ∀ h sym i b, ρ.slot h sym i b → items'[i]? = items[i]?) :
    ρ.Holds id items' hp hp' :=
  { H with
    stores := fun hs =>
      have ⟨v, s', v', hst⟩ := H.stores hs
      ⟨v, s', v', { hst with item := (hitems _ _ _ _ hs).trans hst.item }⟩ }

/-- handles that name nothing stand for nothing -/
theorem spare {h h' : Handle} (hn : hp.slot? h = none) (hn' : hp'.slot? h' = none) : ρ.Spare h h' where
  obj k g ho := by simpa [hn] using (H.some ho).1
  obj' k g ho := by simpa [hn'] using (H.some ho).2
  frame g ho := by simpa [hn] using (H.frame_some ho).1
  frame' g ho := by simpa [hn'] using (H.frame_some ho).2
  box g sym i hs := by
    obtain ⟨v, s', v', hst⟩ := H.stores hs
    rw [hst.slot'] at hn'
    cases hn'

/-- one more pair of alike objects -/
theorem add {k : Kind} {h h' : Handle} {s s' : Slot} (hspare : ρ.Spare h h')
    (hfits : Fits (ρ.adding k h h').obj hp hp' k h h' s s') : (ρ.adding k h h').Holds id items hp hp' where
  fits := by
    rintro l g g' (ho | ⟨rfl, rfl, rfl⟩)
    · obtain ⟨u, u', hf⟩ := H.fits ho
      exact ⟨u, u', hf.mono (fun h => Or.inl h) (Heap.Grows.refl hp).labelled (Heap.Grows.refl hp').labelled hf.slot hf.slot'⟩
    · exact ⟨s, s', hfits⟩
  unique := by
    rintro l l' g g' x x' (hg | ⟨rfl, rfl, rfl⟩) (hx | ⟨rfl, rfl, rfl⟩)
    · exact H.unique hg hx
    · exact ⟨fun heq => absurd hg (heq ▸ hspare.obj _ _), fun heq => absurd hg (heq ▸ hspare.obj' _ _)⟩
    · exact ⟨fun heq => absurd hx (heq ▸ hspare.obj _ _), fun heq => absurd hx (heq ▸ hspare.obj' _ _)⟩
    · exact ⟨fun _ => rfl, fun _ => rfl⟩
  backs ho :=
    have ⟨u, u', sc, sc', hb⟩ := H.backs ho
    ⟨u, u', sc, sc', hb.mono (fun h => Or.inl h) (Heap.Grows.refl hp).labelled (Heap.Grows.refl hp').labelled hb.slot hb.slot'
      (fun _ => (ρ.extends_adding k h h').opened) fun h => h⟩
  apart := by
    rintro l g g' x x' (hg | ⟨rfl, rfl, rfl⟩) hx
    · exact H.apart hg hx
    · exact ⟨fun heq => hspare.frame _ (heq ▸ hx : ρ.frame g x'), fun heq => hspare.frame' _ (heq ▸ hx : ρ.frame x g')⟩
  single := H.single
  owned := H.owned
  stores hs :=
    have ⟨v, s', v', hst⟩ := H.stores hs
    ⟨v, s', v', { hst with like := hst.like.mono fun _ _ _ => .inl }⟩
  hidden := by
    rintro g sym i b l x hs (ho | ⟨rfl, rfl, rfl⟩)
    · exact H.hidden hs ho
    · exact hspare.box _ _ _ hs
  distinct := H.distinct

/-- alike objects made on both sides -/
theorem insert {epoch epoch' : Nat} (ht : hp.Tidy epoch) (ht' : hp'.Tidy epoch') {c c' : Cell} {text : Bool}
    (hc : Alike (ρ.adding c.kind hp.nextHandle hp'.nextHandle).obj (hp.insert c epoch text) (hp'.insert c' epoch' text)
      hp.nextHandle hp'.nextHandle c c') :
    (ρ.adding c.kind hp.nextHandle hp'.nextHandle).Holds id items (hp.insert c epoch text) (hp'.insert c' epoch' text) :=
  (H.grow (ht.grows_insert c text) (ht'.grows_insert c' text)).add (H.spare ht.slot?_nextHandle ht'.slot?_nextHandle)
    ⟨ht.slot?_new c text, ht'.slot?_new c' text, rfl, rfl, hc⟩

/-- other contents of objects that stand for each other -/
theorem write {k : Kind} {h h' : Handle} {s s' : Slot} {c c' : Cell} (ho : ρ.obj k h h') (hf : Fits ρ.obj hp hp' k h h' s s')
    (hk : c.kind = s.cell.kind) (hc : Alike ρ.obj hp hp' h h' c c') : ρ.Holds id items (hp.write h c) (hp'.write h' c') := by
  have hk' : c'.kind = s'.cell.kind := by rw [← hc.like.kind_eq, hk, hf.alike.like.kind_eq]
  have hl := Heap.labelled_write hf.slot hk
  have hl' := Heap.labelled_write hf.slot' hk'
  exact
    { H with
      fits := fun {l g g'} hg => by
        obtain ⟨u, u', hfg⟩ := H.fits hg
        by_cases heq : g = h
        · obtain rfl := (H.unique hg ho).1 heq
          subst heq
          obtain rfl := Option.some.inj (hf.slot.symm.trans hfg.slot)
          obtain rfl := Option.some.inj (hf.slot'.symm.trans hfg.slot')
          exact ⟨_, _, Heap.slot?_write_self hf.slot c, Heap.slot?_write_self hf.slot' c', hk.trans hfg.kind, hf.text,
            hc.mono (fun h => h) hl hl'⟩
        · have hne' : g' ≠ h' := fun heq' => heq ((H.unique hg ho).2 heq')
          exact ⟨u, u', hfg.mono (fun h => h) hl hl' ((Heap.slot?_write_of_ne heq c).trans hfg.slot)
            ((Heap.slot?_write_of_ne hne' c').trans hfg.slot')⟩
      backs := fun {g g'} hg => by
        obtain ⟨u, u', sc, sc', hb⟩ := H.backs hg
        obtain ⟨hne, hne'⟩ := H.apart ho hg
        exact ⟨u, u', sc, sc', hb.mono (fun h => h) hl hl' ((Heap.slot?_write_of_ne hne.symm c).trans hb.slot)
          ((Heap.slot?_write_of_ne hne'.symm c').trans hb.slot') (fun _ h => h) fun h => h⟩
      stores := fun {g sym i b} hs => by
        obtain ⟨v, s', v', hst⟩ := H.stores hs
        have hne : b ≠ h' := fun heq => H.hidden hs (heq ▸ ho)
        exact ⟨v, s', v', { hst with slot' := (Heap.slot?_write_of_ne hne c').trans hst.slot' }⟩ }

/-- another value of a variable, in its slot and in its box -/
theorem set {h sym b : Handle} {i : Nat} {v v₁ v' v₁' : Value} {s' : Slot} (hs : ρ.slot h sym i b)
    (hst : Stores ρ.obj items hp' i b v s' v') (hv : v₁.Like ρ.obj v₁') :
    ρ.Holds id (items.setIfInBounds i v₁) hp (hp'.write b (.box v₁')) := by
  have hl := (Heap.Grows.refl hp).labelled
  have hl' : hp'.Labelled (hp'.write b (.box v₁')) := Heap.labelled_write hst.slot' (by rw [hst.cell']; rfl)
  exact
    { H with
      fits := fun {k g g'} hg => by
        obtain ⟨u, u', hf⟩ := H.fits hg
        have hne : g' ≠ b := fun heq => H.hidden hs (heq ▸ hg)
        exact ⟨u, u', hf.mono (fun h => h) hl hl' hf.slot ((Heap.slot?_write_of_ne hne _).trans hf.slot')⟩
      backs := fun {g g'} hg => by
        obtain ⟨u, u', sc, sc', hb⟩ := H.backs hg
        have hne := H.box_ne_frame hs hg
        exact ⟨u, u', sc, sc', hb.mono (fun h => h) hl hl' hb.slot ((Heap.slot?_write_of_ne hne.symm _).trans hb.slot')
          (fun _ h => h) fun h => h⟩
      stores := fun {g sym' j c} hj => by
        by_cases heq : i = j ∨ b = c
        · obtain ⟨rfl, rfl, rfl, rfl⟩ := H.distinct hs hj heq
          obtain ⟨hlt, -⟩ := Array.getElem?_eq_some_iff.1 hst.item
          exact ⟨v₁, { s' with cell := .box v₁' }, v₁', by simp [hlt], Heap.slot?_write_self hst.slot' _, rfl, hst.text, hv⟩
        · obtain ⟨hi, hb⟩ := not_or.1 heq
          obtain ⟨w, u', w', hstj⟩ := H.stores hj
          exact ⟨w, u', w', { hstj with
            item := by rw [Array.getElem?_setIfInBounds_ne hi]; exact hstj.item
            slot' := (Heap.slot?_write_of_ne (Ne.symm hb) _).trans hstj.slot' }⟩ }

/-! ## Scopes backed by the stack -/

/-- the bindings of a scope one of whose variables has moved from its slot into the box `n` -/
theorem tables_insert {h sym b n : Handle} {i : Nat} {sc sc' : Scope} (hs : ρ.slot h sym i b)
    (hin : (sym, .ref (.stack id i)) ∈ sc.table) (hkeys : (sc.table.map Prod.fst).Nodup)
    (ht : sc.Tables (ρ.obj .symbol) (ρ.Variable id h) sc') :
    (sc.insert sym (.ref (.box n))).Tables (ρ.obj .symbol) ((ρ.boxing h sym n b).Variable id h) sc' := by
  have hmono (l : Kind) (g g' : Handle) : ρ.obj l g g' → (ρ.boxing h sym n b).obj l g g' := .inl
  unfold Scope.insert
  rw [if_pos (Scope.own?_isSome_of_mem hin)]
  unfold Scope.Tables at *
  rw [List.forall₂_map_left_iff]
  refine forall₂_imp_mem ht ?_
  rintro ⟨x, r⟩ he ⟨x', r'⟩ - ⟨hx, hr⟩
  dsimp only at hx hr ⊢
  split
  · rename_i heq
    subst heq
    -- the entry is the one that led to the slot
    obtain rfl := Scope.eq_of_mem hkeys he hin
    refine ⟨hx, ?_⟩
    cases hr with
    | slot hj =>
      obtain ⟨-, -, -, rfl⟩ := H.distinct hs hj (.inl rfl)
      exact .through (.box (.inr ⟨rfl, rfl, rfl⟩))
    | through hr => cases hr
  · rename_i hne
    refine ⟨hx, ?_⟩
    cases hr with
    | slot hj => exact .slot ⟨hj, fun h => hne h.2⟩
    | through hr => exact .through (hr.mono hmono)

/-- A variable moves from its slot into a new box: the box on the right, which was its like, is now an object like any other. -/
theorem box {epoch : Nat} (ht : hp.Tidy epoch) {h h' sym b : Handle} {i : Nat} {s s' t' : Slot} {sc sc' : Scope}
    {v v' : Value} (hf : ρ.frame h h') (hb : ρ.Backs id hp hp' h h' s s' sc sc') (hs : ρ.slot h sym i b)
    (hst : Stores ρ.obj items hp' i b v t' v') (hin : (sym, .ref (.stack id i)) ∈ sc.table) :
    (ρ.boxing h sym hp.nextHandle b).Holds id items
      ((hp.insert (.box v) epoch false).write h (.scope (sc.insert sym (.ref (.box hp.nextHandle))))) hp' := by
  have hgrows := ht.grows_insert (.box v) false
  have hin₁ := hgrows _ _ hb.slot
  have hl₁ : (hp.insert (.box v) epoch false).Labelled _ :=
    Heap.labelled_write (c := .scope (sc.insert sym (.ref (.box hp.nextHandle)))) hin₁ (by rw [hb.cell]; rfl)
  have hl := fun g u hu => hl₁ g u (hgrows g u hu)
  have hl' := (Heap.Grows.refl hp').labelled
  have hne {g : Handle} (hg : (hp.slot? g).isSome) : g ≠ hp.nextHandle := by
    rintro rfl
    simp [ht.slot?_nextHandle] at hg
  have hold {g : Handle} {u : Slot} (hgh : g ≠ h) (hu : hp.slot? g = .some u) :
      ((hp.insert (.box v) epoch false).write h (.scope (sc.insert sym (.ref (.box hp.nextHandle))))).slot? g = .some u :=
    (Heap.slot?_write_of_ne hgh _).trans (hgrows g u hu)
  have hnew : (hp.nextHandle : Handle) ≠ h := (hne (by rw [hb.slot]; rfl)).symm
  refine
    { fits := ?_
      unique := ?_
      backs := fun {g g'} hg => ?_
      apart := ?_
      single := H.single
      owned := fun hg => H.owned hg.1
      stores := fun hg => ?_
      hidden := ?_
      distinct := fun hg hx => H.distinct hg.1 hx.1 }
  · rintro k g g' (ho | ⟨rfl, rfl, rfl⟩)
    · obtain ⟨u, u', hfg⟩ := H.fits ho
      exact ⟨u, u', hfg.mono (fun h => Or.inl h) hl hl' (hold (H.apart ho hf).1 hfg.slot) hfg.slot'⟩
    · refine ⟨_, t', (Heap.slot?_write_of_ne hnew _).trans (ht.slot?_new (.box v) false), hst.slot', rfl, hst.text.symm, ?_⟩
      rw [hst.cell']
      exact .of_like (.box (hst.like.mono fun _ _ _ => .inl)) (by simp [Cell.kind]) (by simp [Cell.kind])
  · rintro k l g g' x x' (hg | ⟨rfl, rfl, rfl⟩) (hx | ⟨rfl, rfl, rfl⟩)
    · exact H.unique hg hx
    · exact ⟨fun heq => absurd heq (hne (H.some hg).1), fun heq => absurd (heq ▸ hg) (H.hidden hs)⟩
    · exact ⟨fun heq => absurd heq.symm (hne (H.some hx).1), fun heq => absurd (heq ▸ hx) (H.hidden hs)⟩
    · exact ⟨fun _ => rfl, fun _ => rfl⟩
  · by_cases heq : g = h
    · obtain rfl := (H.single hg hf).1 heq
      subst heq
      have hmirrors : sc.Mirrors (ρ.boxing g sym hp.nextHandle b).obj
          (Around _ hp' (ρ.boxing g sym hp.nextHandle b).Open g g') (ρ.Variable id g) sc' :=
        hb.mirrors.mono (fun _ _ _ => .inl) (fun _ _ _ ha => ha.mono (ρ.extends_boxing g sym hp.nextHandle b).opened hl hl')
          fun _ _ _ _ h => h
      have htables := H.tables_insert (n := hp.nextHandle) hs hin hb.mirrors.keys hb.mirrors.tables
      refine ⟨_, s', _, sc', Heap.slot?_write_self hin₁ _, hb.slot', rfl, hb.cell', hb.text, ?_, ?_, ?_, ?_, ?_, ?_⟩
      · rw [Scope.insert_transient]
        exact hb.transient
      · rw [Scope.insert_name]
        exact hmirrors.name
      · rw [Scope.insert_parent]
        exact hmirrors.parent
      · exact htables.imp fun _ _ h => ⟨.inl h.1, h.2⟩
      · exact Scope.nodup_insert hmirrors.keys _ _
      · exact hmirrors.persistent
    · obtain ⟨u, u', sc₁, sc₁', hbg⟩ := H.backs hg
      exact ⟨u, u', sc₁, sc₁', hbg.mono (fun h => Or.inl h) hl hl' (hold heq hbg.slot) hbg.slot'
        (fun _ => (ρ.extends_boxing h sym _ b).opened) fun hs => ⟨hs, fun h => heq h.1⟩⟩
  · rintro k g g' x x' (hg | ⟨rfl, rfl, rfl⟩) hx
    · exact H.apart hg hx
    · exact ⟨fun heq => hne (H.frame_some hx).1 heq.symm, H.box_ne_frame hs hx⟩
  · obtain ⟨w, u', w', hsg⟩ := H.stores hg.1
    exact ⟨w, u', w', { hsg with like := hsg.like.mono fun _ _ _ => .inl }⟩
  · rintro g sym' j c k x hg (ho | ⟨rfl, rfl, rfl⟩)
    · exact H.hidden hg.1 ho
    · obtain ⟨hg, hnot⟩ := hg
      obtain ⟨rfl, rfl, -⟩ := H.distinct hg hs (.inr rfl)
      exact hnot ⟨rfl, rfl⟩

/-- a scope backed by the stack, when none of its variables is in a slot any more and what lies around it is persistent -/
theorem persistent {h h' : Handle} {s s' : Slot} {sc sc' : Scope} (hb : ρ.Backs id hp hp' h h' s s' sc sc')
    (htable : ∀ e ∈ sc.table, ∀ j i, e.2 ≠ .ref (.stack j i)) (hparent : ∀ p, sc.parent = .scope p → ∃ q, ρ.obj .scope p q) :
    ({ sc with transient := false } : Scope).Mirrors ρ.obj (Around hp hp' (ρ.obj .scope) h h')
      (fun _ => Value.Through ρ.obj) sc' := by
  obtain ⟨hname, hout, htables, hkeys, hpersistent⟩ := hb.mirrors
  refine ⟨hname, ?_, ?_, hkeys, hpersistent⟩
  · revert hout
    dsimp only
    generalize hp : sc.parent = p, sc'.parent = p'
    rintro (_ | ha)
    · exact .none
    · obtain ⟨q, hq⟩ := hparent _ hp
      exact .scope ⟨ha.pair.elim (fun ho => ho) fun hfr => absurd rfl (H.apart hq hfr).1, ha.older, ha.older'⟩
  · refine forall₂_imp_mem htables ?_
    rintro ⟨x, r⟩ he ⟨x', r'⟩ - ⟨hx, hr⟩
    have hne := htable _ he
    refine ⟨hx, ?_⟩
    cases hr with
    | slot hj => exact absurd rfl (hne _ _)
    | through hr => exact hr

/-- A scope backed by the stack becomes persistent when none of its variables is in a slot any more and what lies around it is
persistent already. -/
theorem promote {h h' : Handle} {s s' : Slot} {sc sc' : Scope} (hf : ρ.frame h h') (hb : ρ.Backs id hp hp' h h' s s' sc sc')
    (htable : ∀ e ∈ sc.table, ∀ j i, e.2 ≠ .ref (.stack j i)) (hparent : ∀ p, sc.parent = .scope p → ∃ q, ρ.obj .scope p q) :
    (ρ.promoting h h').Holds id items (hp.write h (.scope { sc with transient := false })) hp' := by
  have hmono (l : Kind) (g g' : Handle) : ρ.obj l g g' → (ρ.promoting h h').obj l g g' := .inl
  have hext : ρ.Extends (ρ.promoting h h') := ρ.extends_promoting fun g' hg => ((H.single hg hf).1 rfl)
  have hl : hp.Labelled (hp.write h (.scope { sc with transient := false })) :=
    Heap.labelled_write hb.slot (by rw [hb.cell]; rfl)
  have hl' := (Heap.Grows.refl hp').labelled
  have hold {g : Handle} {u : Slot} (hgh : g ≠ h) (hu : hp.slot? g = .some u) :
      (hp.write h (.scope { sc with transient := false })).slot? g = .some u := (Heap.slot?_write_of_ne hgh _).trans hu
  refine
    { fits := ?_
      unique := ?_
      backs := fun {g g'} hg => ?_
      apart := ?_
      single := fun hg hx => H.single hg.1 hx.1
      owned := fun hg => ?_
      stores := fun hg => ?_
      hidden := ?_
      distinct := fun hg hx => H.distinct hg.1 hx.1 }
  · rintro k g g' (ho | ⟨rfl, rfl, rfl⟩)
    · obtain ⟨u, u', hfg⟩ := H.fits ho
      exact ⟨u, u', hfg.mono hext.obj hl hl' (hold (H.apart ho hf).1 hfg.slot) hfg.slot'⟩
    · refine ⟨_, s', Heap.slot?_write_self hb.slot _, hb.slot', rfl, hb.text, ?_⟩
      rw [hb.cell']
      refine ⟨.scope (optionRel_mono (hmono _) hb.mirrors.name), by rintro _ _ _ ⟨⟩, ?_⟩
      rintro _ _ ⟨⟩ ⟨⟩
      exact ⟨rfl, (H.persistent hb htable hparent).mono hmono (fun _ _ _ ha => ha.mono hext.obj hl hl')
        fun _ _ _ _ hr => hr.mono hmono⟩
  · rintro k l g g' x x' (hg | ⟨rfl, rfl, rfl⟩) (hx | ⟨rfl, rfl, rfl⟩)
    · exact H.unique hg hx
    · obtain ⟨hne, hne'⟩ := H.apart hg hf
      exact iff_of_false hne hne'
    · obtain ⟨hne, hne'⟩ := H.apart hx hf
      exact iff_of_false hne.symm hne'.symm
    · exact ⟨fun _ => rfl, fun _ => rfl⟩
  · obtain ⟨u, u', sc₁, sc₁', hbg⟩ := H.backs hg.1
    exact ⟨u, u', sc₁, sc₁', hbg.mono hext.obj hl hl' (hold hg.2 hbg.slot) hbg.slot' (fun _ => hext.opened)
      fun hs => ⟨hs, hg.2⟩⟩
  · rintro k g g' x x' (hg | ⟨rfl, rfl, rfl⟩) ⟨hx, hne⟩
    · exact H.apart hg hx
    · exact ⟨hne.symm, fun heq => hne ((H.single hx hf).2 heq.symm)⟩
  · obtain ⟨h', hfr⟩ := H.owned hg.1
    exact ⟨h', hfr, hg.2⟩
  · obtain ⟨w, u', w', hsg⟩ := H.stores hg.1
    exact ⟨w, u', w', { hsg with like := hsg.like.mono hmono }⟩
  · rintro g sym j c k x ⟨hg, hne⟩ (ho | ⟨rfl, rfl, rfl⟩)
    · exact H.hidden hg ho
    · exact H.box_ne_frame hg hf rfl

/-- the last scope backed by the stack that has been made is there no more, and with it go its variables -/
theorem drop {h : Handle} (hlast : ∀ {g g'}, ρ.frame g g' → g ≠ h → hp.Older g h) : (ρ.dropping h).Holds id items hp hp' where
  fits := H.fits
  unique := H.unique
  backs {g g'} hg := by
    obtain ⟨u, u', sc, sc', hb⟩ := H.backs hg.1
    obtain ⟨hname, hout, htables, hkeys, hpersistent⟩ := hb.mirrors
    refine ⟨u, u', sc, sc', { hb with mirrors := ⟨hname, ?_, ?_, hkeys, hpersistent⟩ }⟩
    · revert hout
      generalize sc.parent = p, sc'.parent = p'
      rintro (_ | ha)
      · exact .none
      · refine .scope ⟨ha.pair.imp (fun ho => ho) fun hfr => ⟨hfr, ?_⟩, ha.older, ha.older'⟩
        -- what lies around a scope is older than the scope, and so not the last that was made
        rintro rfl
        exact Heap.Older.asymm (hlast hg.1 hg.2) ha.older
    · exact htables.imp fun e e' hee => ⟨hee.1, by
        obtain ⟨x, r⟩ := e
        obtain ⟨x', r'⟩ := e'
        cases hee.2 with
        | slot hj => exact .slot ⟨hj, hg.2⟩
        | through hr => exact .through hr⟩
  apart ho hg := H.apart ho hg.1
  single hg hx := H.single hg.1 hx.1
  owned hg :=
    have ⟨h', hfr⟩ := H.owned hg.1
    ⟨h', hfr, hg.2⟩
  stores hg := H.stores hg.1
  hidden hg := H.hidden hg.1
  distinct hg hx := H.distinct hg.1 hx.1

/-- one more scope backed by the stack, with its variables in slots and boxes that stand for nothing else -/
theorem frame {h h' : Handle} {var : Handle → Nat → Handle → Prop} {s s' : Slot} {sc sc' : Scope} (hspare : ρ.Spare h h')
    (hb : (ρ.framing h h' var).Backs id hp hp' h h' s s' sc sc')
    (hstores : ∀ {sym i b}, var sym i b → ∃ v t' v', Stores ρ.obj items hp' i b v t' v')
    (hhidden : ∀ {sym i b}, var sym i b → ∀ k g, ¬ ρ.obj k g b)
    (hapart : ∀ {sym i b}, var sym i b → ∀ {g sym' j c}, ρ.slot g sym' j c → i ≠ j ∧ b ≠ c)
    (hdistinct : ∀ {sym i b sym' j c}, var sym i b → var sym' j c → i = j ∨ b = c → sym = sym' ∧ i = j ∧ b = c) :
    (ρ.framing h h' var).Holds id items hp hp' where
  fits := H.fits
  unique := H.unique
  backs {g g'} hg := by
    obtain hg | ⟨rfl, rfl⟩ := hg
    · obtain ⟨u, u', sc, sc', hbg⟩ := H.backs hg
      have hl := (Heap.Grows.refl hp).labelled
      have hl' := (Heap.Grows.refl hp').labelled
      have hkept : (ρ.framing h h' var).Backs id hp hp' g g' u u' sc sc' :=
        hbg.mono (ρ.extends_framing h h' var).obj hl hl' hbg.slot hbg.slot' (fun _ => (ρ.extends_framing h h' var).opened) .inl
      exact ⟨u, u', sc, sc', hkept⟩
    · exact ⟨s, s', sc, sc', hb⟩
  apart := by
    rintro k g g' x x' ho (hx | ⟨rfl, rfl⟩)
    · exact H.apart ho hx
    · exact ⟨fun heq => hspare.obj _ _ (heq ▸ ho), fun heq => hspare.obj' _ _ (heq ▸ ho)⟩
  single := by
    rintro g g' x x' (hg | ⟨rfl, rfl⟩) (hx | ⟨rfl, rfl⟩)
    · exact H.single hg hx
    · exact iff_of_false (fun heq => hspare.frame _ (heq ▸ hg)) fun heq => hspare.frame' _ (heq ▸ hg)
    · exact iff_of_false (fun heq => hspare.frame _ (heq ▸ hx)) fun heq => hspare.frame' _ (heq ▸ hx)
    · exact ⟨fun _ => rfl, fun _ => rfl⟩
  owned := by
    rintro g sym i b (hg | ⟨rfl, -⟩)
    · obtain ⟨g', hfr⟩ := H.owned hg
      exact ⟨g', .inl hfr⟩
    · exact ⟨h', .inr ⟨rfl, rfl⟩⟩
  stores := by
    rintro g sym i b (hg | ⟨rfl, hv⟩)
    · exact H.stores hg
    · exact hstores hv
  hidden := by
    rintro g sym i b k x (hg | ⟨rfl, hv⟩)
    · exact H.hidden hg
    · exact hhidden hv k x
  distinct := by
    rintro g sym i b x sym' j c (hg | ⟨rfl, hv⟩) (hx | ⟨rfl, hw⟩) heq
    · exact H.distinct hg hx heq
    · obtain ⟨hne, hne'⟩ := hapart hw hg
      exact absurd heq (not_or.2 ⟨hne.symm, hne'.symm⟩)
    · obtain ⟨hne, hne'⟩ := hapart hv hx
      exact absurd heq (not_or.2 ⟨hne, hne'⟩)
    · obtain ⟨hsym, hi, hb⟩ := hdistinct hv hw heq
      exact ⟨rfl, hsym, hi, hb⟩

end Holds

end Pairing

end Boxed

end LispMachine
