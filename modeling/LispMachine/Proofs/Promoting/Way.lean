/-
What a machine may become while scopes are being promoted.

Bindings move one by one from slots of a stack into new boxes. On the way (`Machine.Promoting`) a binding is where it was, or in a
box of its own that holds what the slot holds, and nothing else is touched, in whatever order the bindings are taken. So a look-up
from any scope reads the same value at every point of the way (`Machine.Promoting.looksAlike`).
-/
import LispMachine.Proofs.Data
import LispMachine.Proofs.Tandem.Machines
import LispMachine.Proofs.Visibility

namespace LispMachine

/-- whether a value is a reference to a slot of a stack -/
def Value.onStack : Value → Bool
  | .ref (.stack _ _) => true
  | _ => false

theorem Value.exists_of_onStack {r : Value} (h : r.onStack = true) : ∃ id i, r = .ref (.stack id i) := by
  unfold onStack at h
  split at h
  · exact ⟨_, _, rfl⟩
  · cases h

namespace Machine

variable {m m' m'' : Machine} {hs : List Handle} {g h t sym : Handle} {s : Scope} {r r' v : Value}

/-! ## What is promoted -/

/-- a scope and those around it, from the inside out -/
inductive Chain (m : Machine) : Handle → List Handle → Prop where
  | outermost {h : Handle} {s : Scope} : m.cell? h = some (.scope s) → s.parent.handle? = none → Chain m h [h]
  | inside {h p : Handle} {s : Scope} {hs : List Handle} : m.cell? h = some (.scope s) → s.parent.handle? = some p →
      Chain m p hs → Chain m h (h :: hs)

/-- the number of bindings of the scopes that are in slots of a stack -/
def stackBacked (m : Machine) (hs : List Handle) : Nat := (hs.map fun t => (m.scope t).table.countP (·.2.onStack)).sum

/-- the tables of the scopes bind every symbol once, transient ones to slots of a stack or to boxes, persistent ones to boxes, and
what any scope refers to has not been released -/
structure Promotable (hs : List Handle) (m : Machine) : Prop where
  booked : ∃ issued, m.heap.Booked issued
  scopes : ∀ t ∈ hs, ∃ s, m.cell? t = some (.scope s)
  keys : ∀ t ∈ hs, ((m.scope t).table.map Prod.fst).Nodup
  backed : ∀ t ∈ hs, ∀ e ∈ (m.scope t).table,
    (∃ b v, e.2 = .ref (.box b) ∧ m.cell? b = some (.box v)) ∨ (m.scope t).transient = true ∧ e.2.onStack = true
  there : ∀ t, ∀ e ∈ (m.scope t).table, ∀ p, e.2 = .ref p → m.dangles p = false

/-- what a binding refers to is what it was, or a new box that holds the value of the slot it was -/
inductive Moves (m m' : Machine) : Value → Value → Prop where
  | stays {r : Value} : Moves m m' r r
  | boxed {id i : Nat} {b : Handle} : m.heap.slot? b = none → m'.cell? b = some (.box (m.load (.stack id i))) →
      Moves m m' (.ref (.stack id i)) (.ref (.box b))

/-- a scope binds the same symbols in the same order as before; it may have become persistent -/
structure Rebinds (m m' : Machine) (s s' : Scope) : Prop where
  name : s'.name = s.name
  parent : s'.parent = s.parent
  table : List.Forall₂ (fun e e' => e'.1 = e.1 ∧ Moves m m' e.2 e'.2) s.table s'.table
  transient : s'.transient = true → s.transient = true

/-- what a machine may have become when the scopes `hs` are being promoted -/
structure Promoting (hs : List Handle) (m m' : Machine) : Prop where
  promotable : m'.Promotable hs
  rest : m' = { m with heap := m'.heap, journal := m'.journal }
  rebinds : ∀ t, Rebinds m m' (m.scope t) (m'.scope t)
  seats : ∀ t ∈ hs, ∀ x, m.heap.slot? t = some x → m'.heap.slot? t = some { x with cell := .scope (m'.scope t) }
  others : ∀ t ∉ hs, ∀ x, m.heap.slot? t = some x → m'.heap.slot? t = some x
  boxes : ∀ t x, m'.heap.slot? t = some x → m.heap.slot? t = none → ∃ v, x.cell = .box v
  own : ∀ t t' k k' b, m.heap.slot? b = none → (k, .ref (.box b)) ∈ (m'.scope t).table →
    (k', .ref (.box b)) ∈ (m'.scope t').table → t = t' ∧ k = k'
  births : m'.heap.births + m'.stackBacked hs = m.heap.births + m.stackBacked hs
  room : m.heap.room + m.heap.births ≤ m'.heap.room + m'.heap.births
  limit : m'.heap.limit = m.heap.limit

theorem Promotable.scope_cell (hm : m.Promotable hs) (ht : t ∈ hs) : m.cell? t = some (.scope (m.scope t)) := by
  obtain ⟨s, hs⟩ := hm.scopes t ht
  rw [hs, scope_of_cell hs]

/-- a scope that binds something is there -/
theorem cell_of_mem {e : Handle × Value} (he : e ∈ (m.scope t).table) : m.cell? t = some (.scope (m.scope t)) := by
  by_contra hno
  have hempty : m.scope t = {} := scope_of_not_cell fun s hs => hno (by rw [hs, scope_of_cell hs])
  rw [hempty] at he
  cases he

theorem Chain.exists_scope (hc : m.Chain h hs) (ht : t ∈ hs) : ∃ s, m.cell? t = some (.scope s) := by
  induction hc with
  | outermost hcell => exact List.mem_singleton.1 ht ▸ ⟨_, hcell⟩
  | inside hcell _ _ ih =>
    rcases List.mem_cons.1 ht with rfl | ht
    · exact ⟨_, hcell⟩
    · exact ih ht

/-- in a sound machine it is enough to know where the bindings are -/
theorem Sound.promotable (hm : m.Sound) (hbooked : ∃ issued, m.heap.Booked issued) (hc : m.Chain h hs)
    (hbacked : ∀ t ∈ hs, ∀ e ∈ (m.scope t).table,
      (∃ b, e.2 = .ref (.box b)) ∨ (m.scope t).transient = true ∧ e.2.onStack = true) : m.Promotable hs where
  booked := hbooked
  scopes _ ht := hc.exists_scope ht
  keys t ht := by
    obtain ⟨s, hs⟩ := hc.exists_scope ht
    obtain ⟨x, hx, hcell⟩ := Heap.cell?_eq_some.1 hs
    rw [scope_of_cell hs]
    exact (hm.store.wellMade t x hx).keys s hcell
  backed t ht e he := by
    refine (hbacked t ht e he).imp_left ?_
    rintro ⟨b, hb⟩
    have hnames : e.2.Names b .box := hb ▸ .boxField b
    obtain ⟨c, hcell, hkind⟩ := Heap.kind?_eq_some.1 (hm.store.held t _ (cell_of_mem he) b .box (.names (.binding he hnames)))
    cases c with
    | box v => exact ⟨b, v, hb, hcell⟩
    | _ => cases hkind
  there t e he p hp := by
    obtain ⟨sym, r⟩ := e
    obtain rfl : r = .ref p := hp
    have hthere {b : Handle} {k : Kind} (hnames : (Value.ref p).Names b k) : (m.heap.slot? b).isNone = false := by
      have hkind := hm.store.held t _ (cell_of_mem he) b k (.names (.binding he hnames))
      exact Option.isNone_eq_false_iff.2 (Heap.isSome_of_kind? hkind)
    cases p with
    | stack => rfl
    | box b => exact hthere (.boxField b)
    | car b => exact hthere (.carField b)
    | cdr b => exact hthere (.cdrField b)

theorem Rebinds.refl (m m' : Machine) (s : Scope) : Rebinds m m' s s :=
  ⟨rfl, rfl, List.forall₂_same.2 fun _ _ => ⟨rfl, .stays⟩, id⟩

theorem Promoting.refl (hm : m.Promotable hs) : Promoting hs m m where
  promotable := hm
  rest := rfl
  rebinds t := .refl m m _
  seats t ht x hx := by
    have hcell := (Heap.cell?_of_slot? hx).symm.trans (hm.scope_cell ht)
    rw [hx, ← Option.some.inj hcell]
  others _ _ _ hx := hx
  boxes t x hx hnone := by cases hx.symm.trans hnone
  own t t' k k' b hnone hmem _ := by
    have hthere := hm.there t _ hmem _ rfl
    simp [dangles, hnone] at hthere
  births := rfl
  room := le_rfl
  limit := rfl

/-! ## On the way -/

section

variable (hp : Promoting hs m m')
include hp

theorem Promoting.load_stack (id i : Nat) : m'.load (.stack id i) = m.load (.stack id i) := by
  rw [hp.rest]
  rfl

/-- what is there stays there -/
theorem Promoting.slot_some {x : Slot} (hx : m.heap.slot? t = some x) : ∃ x', m'.heap.slot? t = some x' := by
  by_cases ht : t ∈ hs
  · exact ⟨_, hp.seats t ht x hx⟩
  · exact ⟨x, hp.others t ht x hx⟩

theorem Promoting.vacant (hnone : m'.heap.slot? t = none) : m.heap.slot? t = none := by
  cases hx : m.heap.slot? t with
  | none => rfl
  | some x =>
    obtain ⟨x', hx'⟩ := hp.slot_some hx
    cases hx'.symm.trans hnone

/-- an object that is no scope stays as it is -/
theorem Promoting.cell_kept {c : Cell} (hm : m.Promotable hs) (hc : m.cell? t = some c) (hno : ∀ s, c ≠ .scope s) :
    m'.cell? t = some c := by
  have ht : t ∉ hs := fun ht => by
    obtain ⟨s, hs⟩ := hm.scopes t ht
    exact hno s (Option.some.inj (hc.symm.trans hs))
  obtain ⟨x, hx, hcell⟩ := Heap.cell?_eq_some.1 hc
  exact Heap.cell?_eq_some.2 ⟨x, hp.others t ht x hx, hcell⟩

end

theorem Moves.trans {r'' : Value} (hp : Promoting hs m m') (hp' : Promoting hs m' m'') (h₁ : Moves m m' r r')
    (h₂ : Moves m' m'' r' r'') : Moves m m'' r r'' := by
  cases h₁ with
  | stays =>
    cases h₂ with
    | stays => exact .stays
    | boxed hnone hcell => exact .boxed (hp.vacant hnone) (hp.load_stack _ _ ▸ hcell)
  | boxed hnone hcell =>
    cases h₂ with
    | stays => exact .boxed hnone (hp'.cell_kept hp.promotable hcell (by simp))

theorem Rebinds.trans {s' s'' : Scope} (hp : Promoting hs m m') (hp' : Promoting hs m' m'') (h₁ : Rebinds m m' s s')
    (h₂ : Rebinds m' m'' s' s'') : Rebinds m m'' s s'' where
  name := h₂.name.trans h₁.name
  parent := h₂.parent.trans h₁.parent
  table := by
    have h := h₁.table
    have h' := h₂.table
    generalize s.table = l, s'.table = l', s''.table = l'' at h h'
    induction h generalizing l'' with
    | nil =>
      cases h'
      exact .nil
    | cons he _ ih =>
      obtain _ | ⟨he', hrest⟩ := h'
      exact .cons ⟨he'.1.trans he.1, he.2.trans hp hp' he'.2⟩ (ih _ hrest)
  transient h := h₁.transient (h₂.transient h)

/-- every binding comes from one of the bindings before -/
theorem Rebinds.exists_before {s' : Scope} (hr : Rebinds m m' s s') {e' : Handle × Value} (he' : e' ∈ s'.table) :
    ∃ e ∈ s.table, e'.1 = e.1 ∧ Moves m m' e.2 e'.2 :=
  forall₂_exists hr.table.flip he'

/-- a reference to a box in a table is in the table before, unless the box is new -/
theorem Rebinds.mem_of_box {s' : Scope} (hr : Rebinds m m' s s') {k b : Handle} (hmem : (k, .ref (.box b)) ∈ s'.table)
    (hthere : m.heap.slot? b ≠ none) : (k, .ref (.box b)) ∈ s.table := by
  obtain ⟨⟨k₀, r₀⟩, he, rfl, hmoves⟩ := hr.exists_before hmem
  generalize hr : Value.ref (.box b) = r at hmoves
  cases hmoves with
  | stays => exact hr ▸ he
  | boxed hnone _ =>
    cases hr
    exact absurd hnone hthere

theorem Promoting.trans (hp : Promoting hs m m') (hp' : Promoting hs m' m'') : Promoting hs m m'' where
  promotable := hp'.promotable
  rest := by
    rw [hp'.rest, hp.rest]
  rebinds t := (hp.rebinds t).trans hp hp' (hp'.rebinds t)
  seats t ht x hx := by
    rw [hp'.seats t ht _ (hp.seats t ht x hx)]
  others t ht x hx := hp'.others t ht x (hp.others t ht x hx)
  boxes t x hx hnone := by
    cases hx' : m'.heap.slot? t with
    | none => exact hp'.boxes t x hx hx'
    | some x' =>
      obtain ⟨v, hv⟩ := hp.boxes t x' hx' hnone
      have hcell := hp'.cell_kept hp.promotable ((Heap.cell?_of_slot? hx').trans (congrArg some hv)) (by simp)
      exact ⟨v, Option.some.inj ((Heap.cell?_of_slot? hx).symm.trans hcell)⟩
  own t t' k k' b hnone hmem hmem' := by
    by_cases hb : m'.heap.slot? b = none
    · exact hp'.own t t' k k' b hb hmem hmem'
    · exact hp.own t t' k k' b hnone ((hp'.rebinds t).mem_of_box hmem hb) ((hp'.rebinds t').mem_of_box hmem' hb)
  births := hp'.births.trans hp.births
  room := hp.room.trans hp'.room
  limit := hp'.limit.trans hp.limit

/-! ## Looking up -/

/-- what a binding reads as -/
def read (m : Machine) : Value → Value
  | .ref p => m.load p
  | v => v

/-- what a look-up of a symbol from a scope reads, if it finds a binding -/
def seen (m : Machine) (t sym : Handle) : Option Value := (m.lookup? t sym).map m.read

/-- a look-up of any symbol from anywhere finds a binding if it did before, and it reads the same -/
def LooksAlike (m m' : Machine) : Prop := ∀ t sym, m'.seen t sym = m.seen t sym

theorem Rebinds.own?_cases {s' : Scope} (hr : Rebinds m m' s s') (sym : Handle) :
    s.own? sym = none ∧ s'.own? sym = none ∨
      ∃ r r', s.own? sym = some r ∧ s'.own? sym = some r' ∧ (sym, r) ∈ s.table ∧ Moves m m' r r' := by
  have h := hr.table
  unfold Scope.own?
  generalize s.table = l, s'.table = l' at h
  induction h with
  | nil => exact .inl ⟨rfl, rfl⟩
  | @cons e e' l l' he _ ih =>
    obtain ⟨_, r⟩ := e
    obtain ⟨k, r'⟩ := e'
    obtain ⟨rfl, hmoves⟩ := he
    by_cases hk : sym = k
    · subst hk
      exact .inr ⟨r, r', List.lookup_cons_self, List.lookup_cons_self, List.mem_cons_self, hmoves⟩
    · simp only [List.lookup_cons, beq_false_of_ne hk, List.mem_cons]
      rcases ih with ih | ⟨r₁, r₂, h₁, h₂, hmem, hmoves⟩
      · exact .inl ih
      · exact .inr ⟨r₁, r₂, h₁, h₂, .inr hmem, hmoves⟩

section

variable (hm : m.Promotable hs) (hp : Promoting hs m m')
include hp

/-- no way outwards is changed -/
theorem Promoting.resolves_iff {n : Nat} : m'.Resolves sym g n t ↔ m.Resolves sym g n t := by
  induction n generalizing t with
  | zero =>
    rw [resolves_zero, resolves_zero]
    refine and_congr_right fun _ => ?_
    rcases (hp.rebinds t).own?_cases sym with ⟨h, h'⟩ | ⟨r, r', h, h', -⟩ <;> simp [h, h']
  | succ n ih =>
    rw [resolves_succ, resolves_succ, (hp.rebinds t).parent]
    refine and_congr ?_ (exists_congr fun p => and_congr_right fun _ => ih)
    rcases (hp.rebinds t).own?_cases sym with ⟨h, h'⟩ | ⟨r, r', h, h', -⟩ <;> simp [h, h']

include hm

/-- a place that has not been released holds what it held -/
theorem Promoting.load_kept {p : Place} (hthere : m.dangles p = false) : m'.load p = m.load p := by
  cases p with
  | stack id i => exact hp.load_stack id i
  | _ b =>
    obtain ⟨x, hx⟩ : ∃ x, m.heap.slot? b = some x := Option.isSome_iff_exists.1 (by simpa [dangles] using hthere)
    by_cases hb : b ∈ hs
    · simp [load, hm.scope_cell hb, hp.promotable.scope_cell hb]
    · simp [load, cell?, Heap.cell?, hx, hp.others b hb x hx]

/-- a binding reads as it did, whether it has moved or not -/
theorem Promoting.read_eq {k : Handle} (hmem : (k, r) ∈ (m.scope t).table) (hmoves : Moves m m' r r') :
    m'.read r' = m.read r := by
  cases hmoves with
  | stays =>
    cases r with
    | ref p => exact hp.load_kept hm (hm.there t _ hmem p rfl)
    | _ => rfl
  | boxed _ hcell => simp [read, load, hcell]

theorem Promoting.looksAlike : m.LooksAlike m' := by
  intro t sym
  unfold seen
  obtain ⟨issued, hbooked⟩ := hm.booked
  obtain ⟨issued', hbooked'⟩ := hp.promotable.booked
  cases hfound : m.lookup? t sym with
  | none =>
    cases hfound' : m'.lookup? t sym with
    | none => rfl
    | some r' =>
      obtain ⟨g, n, hres, hown'⟩ := (lookup?_eq_some hbooked').1 hfound'
      rcases (hp.rebinds g).own?_cases sym with ⟨-, h'⟩ | ⟨r, -, hown, -⟩
      · cases h'.symm.trans hown'
      · cases hfound.symm.trans ((lookup?_eq_some hbooked).2 ⟨g, n, hp.resolves_iff.1 hres, hown⟩)
  | some r =>
    obtain ⟨g, n, hres, hown⟩ := (lookup?_eq_some hbooked).1 hfound
    rcases (hp.rebinds g).own?_cases sym with ⟨h, -⟩ | ⟨r₁, r', h, hown', hmem, hmoves⟩
    · cases h.symm.trans hown
    · obtain rfl := Option.some.inj (h.symm.trans hown)
      rw [(lookup?_eq_some hbooked').2 ⟨g, n, hp.resolves_iff.2 hres, hown'⟩]
      exact congrArg some (hp.read_eq hm hmem hmoves)

end

end Machine

end LispMachine
