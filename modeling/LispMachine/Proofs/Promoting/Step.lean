/-
One step of promotion.

A step overwrites one scope by another that binds the same symbols, and may add boxes (`Machine.Rescoped`). A binding that moves
into a new box is one (`Machine.promoting_moving`), and a scope that becomes persistent when all its bindings have moved is one
(`Machine.promoting_persisting`).
-/
import LispMachine.Proofs.Promoting.Way

namespace LispMachine

namespace Machine

variable {m m' m'' : Machine} {hs : List Handle} {g h t sym : Handle} {s : Scope} {r r' v : Value}

/-! ## One step -/

/-- one scope is overwritten by another, and boxes may be added: no other object is touched -/
structure Rescoped (g : Handle) (new : Scope) (m m' : Machine) : Prop where
  rest : m' = { m with heap := m'.heap, journal := m'.journal }
  booked : ∃ issued, m'.heap.Booked issued
  slots : ∀ t x, m.heap.slot? t = some x → m'.heap.slot? t = some (if t = g then { x with cell := .scope new } else x)
  boxes : ∀ t x, m'.heap.slot? t = some x → m.heap.slot? t = none → ∃ v, x.cell = .box v
  room : m.heap.room + m.heap.births ≤ m'.heap.room + m'.heap.births
  limit : m'.heap.limit = m.heap.limit

section

variable {new : Scope} {x : Slot} (hw : Rescoped g new m m')
include hw

theorem Rescoped.slot_of_ne (hx : m.heap.slot? t = some x) (hne : t ≠ g) : m'.heap.slot? t = some x := by
  rw [hw.slots t x hx, if_neg hne]

theorem Rescoped.dangles {p : Place} (hthere : m.dangles p = false) : m'.dangles p = false := by
  cases p with
  | stack id i => rfl
  | _ b =>
    obtain ⟨x, hx⟩ : ∃ x, m.heap.slot? b = some x := Option.isSome_iff_exists.1 (by simpa [Machine.dangles] using hthere)
    simp [Machine.dangles, hw.slots b x hx]

variable (hg : m.cell? g = some (.scope (m.scope g)))
include hg

theorem Rescoped.scope_eq (t : Handle) : m'.scope t = if t = g then new else m.scope t := by
  by_cases ht : t = g
  · subst ht
    obtain ⟨x, hx, -⟩ := Heap.cell?_eq_some.1 hg
    have hslot := hw.slots t x hx
    rw [if_pos rfl] at hslot ⊢
    exact scope_of_cell (Heap.cell?_of_slot? hslot)
  · rw [if_neg ht]
    cases hx : m.heap.slot? t with
    | some x => exact scope_congr (by simp [cell?, Heap.cell?, hx, hw.slot_of_ne hx ht])
    | none =>
      rw [scope_of_not_cell (m := m) fun s hs => by simp [cell?, Heap.cell?, hx] at hs]
      refine scope_of_not_cell fun s hs => ?_
      obtain ⟨x', hx', hcell⟩ := Heap.cell?_eq_some.1 hs
      obtain ⟨v, hv⟩ := hw.boxes t x' hx' hx
      cases hv.symm.trans hcell

/-- a scope stays in its place -/
theorem Rescoped.seat (hx : m.heap.slot? t = some x) (hs : x.cell = .scope s) :
    m'.heap.slot? t = some { x with cell := .scope (m'.scope t) } := by
  rw [hw.slots t x hx, hw.scope_eq hg]
  split
  · rfl
  · have hscope : m.scope t = s := scope_of_cell ((Heap.cell?_of_slot? hx).trans (congrArg some hs))
    rw [hscope, ← hs]

/-- a box is what it was -/
theorem Rescoped.cell_box {b : Handle} {w : Value} (hb : m.cell? b = some (.box w)) : m'.cell? b = some (.box w) := by
  obtain ⟨x, hx, hcell⟩ := Heap.cell?_eq_some.1 hb
  have hne : b ≠ g := by
    rintro rfl
    cases hb.symm.trans hg
  exact Heap.cell?_eq_some.2 ⟨x, hw.slot_of_ne hx hne, hcell⟩

end

theorem Rebinds.keys_eq {s' : Scope} (hr : Rebinds m m' s s') : s'.table.map Prod.fst = s.table.map Prod.fst := by
  have hkeys : List.Forall₂ (fun e' e => e'.1 = e.1) s'.table s.table := hr.table.flip.imp fun _ _ h => h.1
  rw [← List.forall₂_eq_eq_eq, List.forall₂_map_left_iff, List.forall₂_map_right_iff]
  exact hkeys

/-- where one scope is another, what it counts for is counted anew -/
theorem stackBacked_eq (hnodup : hs.Nodup) (hg : g ∈ hs) (hsame : ∀ t, t ≠ g → m'.scope t = m.scope t) :
    m'.stackBacked hs + (m.scope g).table.countP (·.2.onStack) =
      m.stackBacked hs + (m'.scope g).table.countP (·.2.onStack) := by
  have hsum (m : Machine) : m.stackBacked hs = (m.scope g).table.countP (·.2.onStack) + m.stackBacked (hs.erase g) := by
    unfold stackBacked
    rw [((List.perm_cons_erase hg).map _).sum_eq, List.map_cons, List.sum_cons]
  have hrest : m'.stackBacked (hs.erase g) = m.stackBacked (hs.erase g) := by
    unfold stackBacked
    refine congrArg List.sum (List.map_congr_left fun t ht => ?_)
    rw [hsame t (hnodup.mem_erase_iff.1 ht).1]
  rw [hsum m', hsum m, hrest]
  omega

section

variable {new : Scope} (hw : Rescoped g new m m') (hm : m.Promotable hs) (hg : g ∈ hs) (hr : Rebinds m m' (m.scope g) new)
  (hopen : ∀ e ∈ new.table, e.2.onStack = true → new.transient = true)
include hw hm hg hr hopen

/-- a scope that binds the same symbols keeps everything in a state from which promotion can go on -/
theorem Rescoped.promotable : m'.Promotable hs where
  booked := hw.booked
  scopes t ht := by
    obtain ⟨s, hs⟩ := hm.scopes t ht
    obtain ⟨x, hx, hcell⟩ := Heap.cell?_eq_some.1 hs
    exact ⟨_, Heap.cell?_of_slot? (hw.seat (hm.scope_cell hg) hx hcell)⟩
  keys t ht := by
    rw [hw.scope_eq (hm.scope_cell hg)]
    split
    · rw [hr.keys_eq]
      exact hm.keys g hg
    · exact hm.keys t ht
  backed t ht e he := by
    rw [hw.scope_eq (hm.scope_cell hg)] at he ⊢
    obtain ⟨k, r⟩ := e
    split at he <;> rename_i heq
    · rw [if_pos heq]
      obtain ⟨⟨_, _⟩, he₀, rfl, hmoves⟩ := hr.exists_before he
      cases hmoves with
      | stays =>
        rcases hm.backed g hg _ he₀ with ⟨b, w, hb, hcell⟩ | ⟨-, hslot⟩
        · exact .inl ⟨b, w, hb, hw.cell_box (hm.scope_cell hg) hcell⟩
        · exact .inr ⟨hopen _ he hslot, hslot⟩
      | boxed _ hcell => exact .inl ⟨_, _, rfl, hcell⟩
    · rw [if_neg heq]
      rcases hm.backed t ht _ he with ⟨b, w, hb, hcell⟩ | hslot
      · exact .inl ⟨b, w, hb, hw.cell_box (hm.scope_cell hg) hcell⟩
      · exact .inr hslot
  there t e he p hp := by
    rw [hw.scope_eq (hm.scope_cell hg)] at he
    obtain ⟨k, r⟩ := e
    split at he
    · obtain ⟨⟨_, _⟩, he₀, rfl, hmoves⟩ := hr.exists_before he
      cases hmoves with
      | stays => exact hw.dangles (hm.there g _ he₀ p hp)
      | boxed _ hcell =>
        cases hp
        obtain ⟨x, hx, -⟩ := Heap.cell?_eq_some.1 hcell
        simp [Machine.dangles, hx]
    · exact hw.dangles (hm.there t _ he p hp)

/-- **One step of promotion**: a scope that binds the same symbols, with one binding less on the stack for each new box, takes the
place of another -/
theorem Rescoped.promoting (hnodup : hs.Nodup)
    (hown : ∀ k k' b, m.heap.slot? b = none → (k, .ref (.box b)) ∈ new.table → (k', .ref (.box b)) ∈ new.table → k = k')
    (hbirths : m'.heap.births + new.table.countP (·.2.onStack) = m.heap.births + (m.scope g).table.countP (·.2.onStack)) :
    Promoting hs m m' where
  promotable := hw.promotable hm hg hr hopen
  rest := hw.rest
  rebinds t := by
    rw [hw.scope_eq (hm.scope_cell hg)]
    split
    · rename_i ht
      exact ht ▸ hr
    · exact .refl ..
  seats t ht x hx := by
    obtain ⟨s, hs⟩ := hm.scopes t ht
    exact hw.seat (hm.scope_cell hg) hx (Option.some.inj ((Heap.cell?_of_slot? hx).symm.trans hs))
  others t ht x hx := hw.slot_of_ne hx fun heq => ht (heq ▸ hg)
  boxes := hw.boxes
  own t t' k k' b hnone hmem hmem' := by
    have hnew {t k : Handle} (hin : (k, .ref (.box b)) ∈ (m'.scope t).table) : t = g ∧ (k, .ref (.box b)) ∈ new.table := by
      rw [hw.scope_eq (hm.scope_cell hg)] at hin
      split at hin
      · exact ⟨‹t = g›, hin⟩
      · have hthere := hm.there t _ hin _ rfl
        simp [Machine.dangles, hnone] at hthere
    obtain ⟨ht, hin⟩ := hnew hmem
    obtain ⟨ht', hin'⟩ := hnew hmem'
    exact ⟨ht.trans ht'.symm, hown k k' b hnone hin hin'⟩
  births := by
    have hscope := hw.scope_eq (hm.scope_cell hg)
    have hsum := stackBacked_eq hnodup hg fun t ht => (hscope t).trans (if_neg ht)
    rw [hscope, if_pos rfl] at hsum
    omega
  room := hw.room
  limit := hw.limit

end

/-! ## One binding -/

/-- when one binding leaves the stack there is one less -/
theorem countP_replaced {l : List (Handle × Value)} (hkeys : (l.map Prod.fst).Nodup) (hmem : (sym, r) ∈ l)
    (hr : r.onStack = true) (hr' : r'.onStack = false) :
    (l.map fun e => if e.1 = sym then (sym, r') else e).countP (·.2.onStack) + 1 = l.countP (·.2.onStack) := by
  induction l with
  | nil => cases hmem
  | cons e l ih =>
    rw [List.map_cons, List.nodup_cons] at hkeys
    by_cases he : e.1 = sym
    · have hrest : l.map (fun e => if e.1 = sym then (sym, r') else e) = l := by
        refine (List.map_congr_left fun d hd => if_neg ?_).trans (List.map_id' l)
        rintro rfl
        exact hkeys.1 (he ▸ List.mem_map_of_mem hd)
      have hhead : e = (sym, r) := by
        rcases List.mem_cons.1 hmem with heq | hin
        · exact heq.symm
        · exact absurd (List.mem_map_of_mem hin) (he ▸ hkeys.1)
      rw [List.map_cons, if_pos he, hrest, hhead, List.countP_cons_of_neg (by simp [hr']), List.countP_cons_of_pos (by simp [hr])]
    · have hin : (sym, r) ∈ l := by
        rcases List.mem_cons.1 hmem with rfl | hin
        · exact absurd rfl he
        · exact hin
      have hrest := ih hkeys.2 hin
      rw [List.map_cons, if_neg he, List.countP_cons, List.countP_cons]
      omega

/-- the machine after a binding of a scope has moved into a new box -/
def moving (m : Machine) (g sym : Handle) (v : Value) : Machine :=
  let new := (m.scope g).insert sym (.ref (.box m.heap.nextHandle))
  { m with heap := (m.inserting (.box v) false).heap.write g (.scope new) }

section

variable (hm : m.Promotable hs) (hg : g ∈ hs)
include hm hg

theorem slot?_moving (sym : Handle) (v : Value) (t : Handle) : (m.moving g sym v).heap.slot? t =
    if t = g then (m.heap.slot? g).map ({ · with cell := .scope ((m.scope g).insert sym (.ref (.box m.heap.nextHandle))) })
    else if t = m.heap.nextHandle then some ⟨.box v, m.collector.epoch, m.heap.births, false⟩ else m.heap.slot? t := by
  obtain ⟨issued, hbooked⟩ := hm.booked
  obtain ⟨x, hx, -⟩ := Heap.cell?_eq_some.1 (hm.scope_cell hg)
  have hne : g ≠ m.heap.nextHandle := by
    rintro rfl
    cases hx.symm.trans hbooked.slot?_nextHandle
  unfold moving inserting
  rw [Heap.slot?_write, hbooked.slot?_insert, hbooked.slot?_insert, if_neg hne]

theorem cell_moving_new (sym : Handle) (v : Value) : (m.moving g sym v).cell? m.heap.nextHandle = some (.box v) := by
  obtain ⟨issued, hbooked⟩ := hm.booked
  have hne : m.heap.nextHandle ≠ g := fun heq => by
    obtain ⟨x, hx, -⟩ := Heap.cell?_eq_some.1 (hm.scope_cell hg)
    cases hx.symm.trans (heq ▸ hbooked.slot?_nextHandle)
  have hslot := slot?_moving hm hg sym v m.heap.nextHandle
  rw [if_neg hne, if_pos rfl] at hslot
  exact Heap.cell?_of_slot? hslot

theorem rescoped_moving (hroom : m.heap.isFull = false) (sym : Handle) (v : Value) :
    Rescoped g ((m.scope g).insert sym (.ref (.box m.heap.nextHandle))) m (m.moving g sym v) where
  rest := rfl
  booked := by
    obtain ⟨issued, hbooked⟩ := hm.booked
    exact ⟨_, (hbooked.insert hroom ..).same (.write ..)⟩
  slots t x hx := by
    obtain ⟨issued, hbooked⟩ := hm.booked
    have hold : t ≠ m.heap.nextHandle := by
      rintro rfl
      cases hx.symm.trans hbooked.slot?_nextHandle
    rw [slot?_moving hm hg, if_neg hold]
    split
    · rename_i ht
      rw [← ht, hx]
      rfl
    · exact hx
  boxes t x hx hnone := by
    rw [slot?_moving hm hg] at hx
    split at hx
    · rename_i ht
      rw [← ht, hnone] at hx
      cases hx
    · split at hx
      · cases hx
        exact ⟨_, rfl⟩
      · cases hnone.symm.trans hx
  room := by
    have hinsert := m.heap.room_insert (.box v) m.collector.epoch false
    simp only [moving, inserting, Heap.write_births, Heap.insert_births, Heap.room, Heap.write_free, Heap.write_limit,
      Heap.write_size] at hinsert ⊢
    omega
  limit := by simp only [moving, inserting, Heap.write_limit, Heap.insert_limit]

/-- the scope of a binding that moves binds the same symbols -/
theorem rebinds_moving {id i : Nat} (hmem : (sym, .ref (.stack id i)) ∈ (m.scope g).table) :
    Rebinds m (m.moving g sym (m.load (.stack id i))) (m.scope g)
      ((m.scope g).insert sym (.ref (.box m.heap.nextHandle))) := by
  obtain ⟨issued, hbooked⟩ := hm.booked
  refine ⟨Scope.insert_name .., Scope.insert_parent .., ?_, by rw [Scope.insert_transient]; exact fun h => h⟩
  rw [Scope.insert, if_pos (Scope.own?_isSome_of_mem hmem)]
  refine List.forall₂_map_right_iff.2 (List.forall₂_same.2 fun e he => ?_)
  split
  · rename_i heq
    have hvalue : e.2 = .ref (.stack id i) := Scope.eq_of_mem (hm.keys g hg) (heq ▸ he) hmem
    rw [hvalue]
    exact ⟨heq.symm, .boxed hbooked.slot?_nextHandle (cell_moving_new hm hg sym _)⟩
  · exact ⟨rfl, .stays⟩

/-- **One binding moves**: what was in a slot of the stack is in a new box, and no other binding, scope or object is touched -/
theorem promoting_moving (hnodup : hs.Nodup) (hroom : m.heap.isFull = false) {id i : Nat}
    (hmem : (sym, .ref (.stack id i)) ∈ (m.scope g).table) : Promoting hs m (m.moving g sym (m.load (.stack id i))) := by
  have htransient : (m.scope g).transient = true := by
    rcases hm.backed g hg _ hmem with ⟨b, v, hb, -⟩ | ⟨hopen, -⟩
    · cases hb
    · exact hopen
  refine (rescoped_moving hm hg hroom sym _).promoting hm hg (rebinds_moving hm hg hmem) ?_ hnodup ?_ ?_
  · exact fun _ _ _ => (Scope.insert_transient ..).trans htransient
  · intro k k' b hnone hin hin'
    -- what is bound to a box that has not been there is the binding that moves
    have hmoved {k : Handle} (hin : (k, .ref (.box b)) ∈ ((m.scope g).insert sym (.ref (.box m.heap.nextHandle))).table) :
        k = sym := by
      rcases Scope.mem_of_mem_insert hin with heq | ⟨hold, -⟩
      · exact congrArg Prod.fst heq
      · have hthere := hm.there g _ hold _ rfl
        simp [dangles, hnone] at hthere
    exact (hmoved hin).trans (hmoved hin').symm
  · have hone : ((m.scope g).insert sym (.ref (.box m.heap.nextHandle))).table.countP (·.2.onStack) + 1 =
        (m.scope g).table.countP (·.2.onStack) := by
      rw [Scope.insert, if_pos (Scope.own?_isSome_of_mem hmem)]
      exact countP_replaced (hm.keys g hg) hmem rfl rfl
    have hbirths : (m.moving g sym (m.load (.stack id i))).heap.births = m.heap.births + 1 := by
      simp only [moving, inserting, Heap.write_births, Heap.insert_births]
    omega

end

/-! ## One scope -/

/-- the machine after a scope has become persistent -/
def persisting (m : Machine) (g : Handle) : Machine :=
  { m with heap := m.heap.write g (.scope { m.scope g with transient := false }) }

theorem rescoped_persisting (hm : m.Promotable hs) (g : Handle) :
    Rescoped g { m.scope g with transient := false } m (m.persisting g) where
  rest := rfl
  booked := by
    obtain ⟨issued, hbooked⟩ := hm.booked
    exact ⟨_, hbooked.same (.write ..)⟩
  slots t x hx := by
    rw [persisting, Heap.slot?_write]
    split
    · rename_i ht
      rw [← ht, hx]
      rfl
    · exact hx
  boxes t x hx hnone := by
    rw [persisting, Heap.slot?_write] at hx
    split at hx
    · rename_i ht
      rw [← ht, hnone] at hx
      cases hx
    · cases hnone.symm.trans hx
  room := by simp only [persisting, Heap.write_births, Heap.room, Heap.write_free, Heap.write_limit, Heap.write_size, le_refl]
  limit := by simp only [persisting, Heap.write_limit]

/-- **One scope becomes persistent** when all its bindings have left the stack, and nothing else is touched -/
theorem promoting_persisting (hm : m.Promotable hs) (hg : g ∈ hs) (hnodup : hs.Nodup)
    (hall : ∀ e ∈ (m.scope g).table, e.2.onStack = false) : Promoting hs m (m.persisting g) := by
  have hr : Rebinds m (m.persisting g) (m.scope g) { m.scope g with transient := false } :=
    ⟨rfl, rfl, List.forall₂_same.2 fun _ _ => ⟨rfl, .stays⟩, nofun⟩
  refine (rescoped_persisting hm g).promoting hm hg hr ?_ hnodup ?_ ?_
  · intro e he hslot
    cases (hall e he).symm.trans hslot
  · intro k k' b hnone hin _
    have hthere := hm.there g _ hin _ rfl
    simp [dangles, hnone] at hthere
  · rw [persisting, Heap.write_births]

end Machine

end LispMachine
