/-
Where a definition is visible.

A look-up goes outwards from a scope, by parents that were fixed when the scopes were made, and takes the first binding it meets
(`Machine.lookup?_eq_some`). A definition is a binding in one scope. So it is visible from a scope exactly if the way outwards
comes to the scope of the definition before it comes to another binding of the symbol (`Machine.bind_visible`). Which scope stands
in for the global one does not change any way outwards: what is defined in a stand-in is visible from the scopes inside the
stand-in alone.
-/
import LispMachine.Machine.Scopes
import LispMachine.Proofs.Interning
import LispMachine.Proofs.Storing

namespace LispMachine

namespace Machine

variable {m : Machine} {sym g g' t : Handle} {n n' k : Nat} {r : Value}

/-- the way outwards from a scope comes to `g` as the first scope that binds the symbol; there are `n` scopes before it -/
inductive Resolves (m : Machine) (sym g : Handle) : Nat → Handle → Prop where
  | own {r : Value} : (m.scope g).own? sym = some r → Resolves m sym g 0 g
  | outer {t p : Handle} {n : Nat} : (m.scope t).own? sym = none → (m.scope t).parent.handle? = some p →
      Resolves m sym g n p → Resolves m sym g (n + 1) t

theorem resolves_zero : m.Resolves sym g 0 t ↔ t = g ∧ ∃ r, (m.scope t).own? sym = some r := by
  constructor
  · rintro ⟨hr⟩
    exact ⟨rfl, _, hr⟩
  · rintro ⟨rfl, r, hr⟩
    exact .own hr

theorem resolves_succ : m.Resolves sym g (n + 1) t ↔
    (m.scope t).own? sym = none ∧ ∃ p, (m.scope t).parent.handle? = some p ∧ m.Resolves sym g n p := by
  constructor
  · rintro (_ | ⟨hnone, hp, h⟩)
    exact ⟨hnone, _, hp, h⟩
  · rintro ⟨hnone, p, hp, h⟩
    exact .outer hnone hp h

theorem Resolves.unique (h : m.Resolves sym g n t) (h' : m.Resolves sym g' n' t) : g = g' ∧ n = n' := by
  induction h generalizing n' with
  | own hr =>
    cases h' with
    | own => exact ⟨rfl, rfl⟩
    | outer hnone => cases hr.symm.trans hnone
  | outer hnone hp _ ih =>
    cases h' with
    | own hr => cases hr.symm.trans hnone
    | outer _ hp' h' =>
      cases Option.some.inj (hp.symm.trans hp')
      obtain ⟨rfl, rfl⟩ := ih h'
      exact ⟨rfl, rfl⟩

/-- a scope with a parent is there -/
theorem exists_slot_of_parent {p : Handle} (hp : (m.scope t).parent.handle? = some p) : ∃ s, m.heap.slot? t = some s := by
  cases hs : m.heap.slot? t with
  | some s => exact ⟨s, rfl⟩
  | none =>
    have hempty : m.scope t = {} := by simp [scope, cell?, Heap.cell?, hs]
    rw [hempty] at hp
    cases hp

/-- the scopes before the one with the binding are there, and none comes twice -/
theorem Resolves.before (h : m.Resolves sym g n t) : ∃ ts : List Handle, ts.length = n ∧ ts.Nodup ∧
    ∀ u ∈ ts, (∃ s, m.heap.slot? u = some s) ∧ ∃ i ≤ n, m.Resolves sym g i u := by
  induction h with
  | own => exact ⟨[], rfl, List.nodup_nil, by simp⟩
  | @outer t p n hnone hp hrest ih =>
    obtain ⟨ts, hlen, hnodup, hts⟩ := ih
    have hwhole : m.Resolves sym g (n + 1) t := .outer hnone hp hrest
    refine ⟨t :: ts, by rw [List.length_cons, hlen], List.nodup_cons.2 ⟨fun hmem => ?_, hnodup⟩, ?_⟩
    · -- the way from the later occurrence would be shorter than the same way from the first
      obtain ⟨-, i, hi, h⟩ := hts t hmem
      have := (h.unique hwhole).2
      omega
    · refine List.forall_mem_cons.2 ⟨⟨exists_slot_of_parent hp, _, le_rfl, hwhole⟩, fun u hu => ?_⟩
      obtain ⟨hthere, i, hi, h⟩ := hts u hu
      exact ⟨hthere, i, hi.trans (Nat.le_succ n), h⟩

/-- the way is no longer than there have been objects -/
theorem Resolves.length_le {issued : List Handle} (hm : m.heap.Booked issued) (h : m.Resolves sym g n t) : n ≤ m.heap.births := by
  obtain ⟨ts, rfl, hnodup, hts⟩ := h.before
  have hsub : ts ⊆ issued := fun u hu => by
    obtain ⟨⟨s, hs⟩, -⟩ := hts u hu
    exact List.mem_of_getElem? (hm.home u s hs)
  rw [hm.births]
  exact (hnodup.subperm hsub).length_le

theorem Resolves.lookupWithin (h : m.Resolves sym g n t) (hn : n < k) :
    m.lookupWithin sym k t = (m.scope g).own? sym := by
  induction h generalizing k with
  | own hr =>
    obtain ⟨k, rfl⟩ := Nat.exists_eq_add_of_lt hn
    rw [Machine.lookupWithin, hr]
  | @outer t p n hnone hp _ ih =>
    obtain ⟨k, rfl⟩ := Nat.exists_eq_add_of_lt hn
    rw [Machine.lookupWithin, hnone, hp]
    exact ih (by omega)

theorem resolves_of_lookupWithin (h : m.lookupWithin sym k t = some r) :
    ∃ g n, m.Resolves sym g n t ∧ (m.scope g).own? sym = some r := by
  induction k generalizing t with
  | zero => cases h
  | succ k ih =>
    rw [Machine.lookupWithin] at h
    cases hown : (m.scope t).own? sym with
    | some r' =>
      rw [hown] at h
      exact ⟨t, 0, .own hown, hown.trans h⟩
    | none =>
      rw [hown] at h
      cases hp : (m.scope t).parent.handle? with
      | none =>
        rw [hp] at h
        cases h
      | some p =>
        rw [hp] at h
        obtain ⟨g, n, hres, hr⟩ := ih h
        exact ⟨g, n + 1, .outer hown hp hres, hr⟩

/-- a look-up finds the first binding on the way outwards -/
theorem lookup?_eq_some {issued : List Handle} (hm : m.heap.Booked issued) :
    m.lookup? t sym = some r ↔ ∃ g n, m.Resolves sym g n t ∧ (m.scope g).own? sym = some r := by
  refine ⟨resolves_of_lookupWithin, fun ⟨g, n, h, hr⟩ => ?_⟩
  rw [lookup?, h.lookupWithin (Nat.lt_succ_of_le (h.length_le hm)), hr]

/-- a look-up depends on what the scopes bind the symbol to, and on what is around them -/
theorem lookup?_congr {m' : Machine} (hm : ∃ issued, m.heap.Booked issued) (hm' : ∃ issued, m'.heap.Booked issued)
    (hown : ∀ t, (m'.scope t).own? sym = (m.scope t).own? sym) (hparent : ∀ t, (m'.scope t).parent = (m.scope t).parent)
    (t : Handle) : m'.lookup? t sym = m.lookup? t sym := by
  have hres {g t : Handle} {n : Nat} : m'.Resolves sym g n t ↔ m.Resolves sym g n t := by
    induction n generalizing t with
    | zero => rw [resolves_zero, resolves_zero, hown]
    | succ n ih => simp only [resolves_succ, hown, hparent, ih]
  obtain ⟨_, hm⟩ := hm
  obtain ⟨_, hm'⟩ := hm'
  refine Option.ext fun r => ?_
  simp only [lookup?_eq_some hm, lookup?_eq_some hm', hres, hown]

/-- among the same scopes, and with as many objects made, a look-up finds the same -/
theorem lookup?_of_scopes {m' : Machine} (hbirths : m'.heap.births = m.heap.births) (hscope : ∀ t, m'.scope t = m.scope t)
    (t sym : Handle) : m'.lookup? t sym = m.lookup? t sym := by
  have hwithin (k : Nat) : m'.lookupWithin sym k t = m.lookupWithin sym k t := by
    induction k generalizing t with
    | zero => rfl
    | succ k ih => simp only [lookupWithin, hscope, ih]
  rw [lookup?, hbirths, hwithin, lookup?]

end Machine

/-! ## Binding -/

theorem Scope.own?_insert {s : Scope} {sym : Handle} (hs : s.own? sym = none) (r : Value) :
    (s.insert sym r).own? sym = some r ∧ (s.insert sym r).parent = s.parent ∧ ∀ k, k ≠ sym → (s.insert sym r).own? k = s.own? k := by
  unfold insert
  rw [if_neg (by simp [hs])]
  refine ⟨List.lookup_cons_self, rfl, fun k hk => ?_⟩
  simp [own?, List.lookup_cons, beq_false_of_ne hk]

namespace Machine

variable {m : Machine} {g sym t : Handle}

/-- a machine after a symbol has been bound to a value in the scope `g`: the binding is there, no way outwards is changed, and every
other place holds what it held -/
structure Binds (m : Machine) (g sym : Handle) (v : Value) (p : Place) (m' : Machine) : Prop where
  booked : ∃ issued, m'.heap.Booked issued
  others : ∀ t, t ≠ g → m'.scope t = m.scope t
  parent : (m'.scope g).parent = (m.scope g).parent
  own : (m'.scope g).own? sym = some (.ref p)
  rest : ∀ k, k ≠ sym → (m'.scope g).own? k = (m.scope g).own? k
  there : m'.dangles p = false
  value : m'.load p = v
  places : ∀ q, q ≠ p → m'.load q = m.load q

/-- a new binding is a new box in the table of the scope -/
theorem binds_new {m' : Machine} {s : Scope} {v : Value} {issued : List Handle} (hm : m.heap.Booked issued)
    (hg : m.cell? g = some (.scope s)) (hown : s.own? sym = none) (hroom : m.heap.isFull = false)
    (hrest : m' = { m.inserting (.box v) false with heap := m'.heap })
    (hheap : m'.heap = (m.inserting (.box v) false).heap.write g (.scope (s.insert sym (.ref (.box m.heap.nextHandle))))) :
    m.Binds g sym v (.box m.heap.nextHandle) m' := by
  have hne : g ≠ m.heap.nextHandle := by
    rintro rfl
    obtain ⟨slot, hslot, -⟩ := Heap.cell?_eq_some.1 hg
    cases hslot.symm.trans hm.slot?_nextHandle
  have hvacant : m.cell? m.heap.nextHandle = none := by simp [cell?, Heap.cell?, hm.slot?_nextHandle]
  have hmade (t : Handle) : (m.inserting (.box v) false).cell? t = if t = m.heap.nextHandle then some (.box v) else m.cell? t := by
    unfold cell? Heap.cell? inserting
    rw [hm.slot?_insert]
    split <;> rfl
  have hcell (t : Handle) : m'.cell? t = if t = g then some (.scope (s.insert sym (.ref (.box m.heap.nextHandle))))
      else (m.inserting (.box v) false).cell? t := by
    rw [cell?, hheap]
    exact Heap.cell?_write_eq ((hmade g).trans ((if_neg hne).trans hg)) _ t
  have hnew := scope_of_cell ((hcell g).trans (if_pos rfl))
  obtain ⟨hown', hparent, hrest'⟩ := Scope.own?_insert hown (.ref (.box m.heap.nextHandle))
  refine ⟨⟨_, hheap ▸ (hm.insert hroom ..).same (.write ..)⟩, fun t ht => ?_, ?_, by rw [hnew, hown'], fun k hk => ?_, ?_,
    ?_, fun q hq => ?_⟩
  · by_cases hbox : t = m.heap.nextHandle
    · subst hbox
      simp [scope, hcell, hmade, ht, hvacant]
    · exact scope_congr ((hcell t).trans ((if_neg ht).trans ((hmade t).trans (if_neg hbox))))
  · rw [hnew, scope_of_cell hg, hparent]
  · rw [hnew, scope_of_cell hg, hrest' k hk]
  · have hbox : m'.cell? m.heap.nextHandle = some (.box v) := (hcell _).trans ((if_neg hne.symm).trans ((hmade _).trans (if_pos rfl)))
    obtain ⟨x, hx, -⟩ := Heap.cell?_eq_some.1 hbox
    simp [dangles, hx]
  · simp [load, hcell, hmade, hne.symm]
  · cases q with
    | stack id i =>
      rw [hrest]
      rfl
    | _ t =>
      -- what the scope was and is, and what was vacant, are read as unset
      by_cases hscope : t = g
      · subst hscope
        simp [load, hcell, hg]
      · by_cases hbox : t = m.heap.nextHandle
        · subst hbox
          simp_all [load]
        · simp [load, hcell, hmade, hbox, hscope]

end Machine

namespace Act

open Machine

variable {R : Machine → Machine → Prop} {m : Machine} {g sym : Handle} {s : Scope} {issued : List Handle}

theorem ends_onScope (hg : m.cell? g = some (.scope s)) (f : Scope → Scope) : (onScope g f).Ends m
    (fun _ m' => m' = { m with heap := m.heap.write g (.scope (f s)) }) fun _ _ => False := by
  unfold onScope Ends
  rw [run_modify, hg]

/-- a binding is made, or kept if it is not to be overwritten; otherwise nothing has been done but to build -/
theorem ends_bindIn [AllowsBuilding R] (hm : m.heap.Booked issued) (hg : m.cell? g = some (.scope s))
    (hbox : ∀ r, s.own? sym = some r → ∃ b, r = .ref (.box b)) (v : Value) (overwrite : Bool) :
    (bindIn g sym v overwrite).Ends m (fun r m' => ∃ b, r = .ref (.box b) ∧
      (m.Binds g sym v (.box b) m' ∧ (overwrite = false → s.own? sym = none) ∨
        overwrite = false ∧ s.own? sym = some r ∧ m' = m)) fun _ m' => R m m' := by
  have hscope := Machine.scope_of_cell hg
  unfold bindIn
  refine .read ?_
  rw [hscope]
  cases hown : s.own? sym with
  | some r =>
    obtain ⟨b, rfl⟩ := hbox r hown
    cases overwrite with
    | false => exact ⟨b, rfl, .inr ⟨rfl, rfl, rfl⟩⟩
    | true =>
      refine (ends_store (p := .box b) (by simp) v).bind ?_
      rintro _ m' hstored
      have hsame := hstored.scopes
      exact ⟨b, rfl, .inl ⟨⟨⟨_, hm.same hstored.books⟩, fun t _ => hsame t, by rw [hsame], by rw [hsame, hscope, hown],
        fun _ _ => by rw [hsame], hstored.there, hstored.value, hstored.others⟩, by simp⟩⟩
  | none =>
    have hbuilt : R m (Outcome.machine ((allocate (.box v)).run m)) := Obeys.leads m
    rw [Machine.run_allocate] at hbuilt
    refine Ends.bind (P := fun h m₁ => h = m.heap.nextHandle ∧ m.heap.isFull = false ∧ m₁ = m.inserting (.box v) false) ?_ ?_
    · unfold Ends
      rw [Machine.run_allocate]
      cases hfull : m.heap.isFull with
      | true => rwa [hfull] at hbuilt
      | false => exact ⟨rfl, rfl, rfl⟩
    rintro _ _ ⟨rfl, hroom, rfl⟩
    rw [hroom] at hbuilt
    have hkept : (m.inserting (.box v) false).cell? g = m.cell? g := (Heap.cell?_insert hm.toInOrder hg ..).trans hg.symm
    refine .read ?_
    split
    · exact hbuilt
    · refine ((ends_onScope (hkept.trans hg) _).mono (fun _ _ h => h) fun _ _ hno => hno.elim).bind fun _ m' hm' => ?_
      subst hm'
      exact ⟨_, rfl, .inl ⟨Machine.binds_new hm hg hown hroom rfl rfl, fun _ => rfl⟩⟩

theorem ends_bind [AllowsBuilding R] (hm : m.heap.Booked issued) (hg : m.cell? g = some (.scope s))
    (hbox : ∀ r, s.own? sym = some r → ∃ b, r = .ref (.box b)) (v : Value) :
    (bind g sym v).Ends m (fun _ m' => ∃ p, m.Binds g sym v p m') fun _ m' => R m m' :=
  (ends_bindIn hm hg hbox v true).bind fun _ _ ⟨_, _, h⟩ => ⟨_, (h.resolve_right (by simp)).1⟩

end Act

namespace Machine

variable {m m' : Machine} {g sym : Handle} {v : Value} {p : Place}

/-- a way outwards that does not come to the new binding is as it was -/
theorem Binds.resolves_iff (h : m.Binds g sym v p m') {g' t : Handle} {n : Nat} (hno : ∀ k, ¬ m'.Resolves sym g k t) :
    m'.Resolves sym g' n t ↔ m.Resolves sym g' n t := by
  have hne {t : Handle} (hno : ∀ k, ¬ m'.Resolves sym g k t) : t ≠ g := by
    rintro rfl
    exact hno 0 (.own h.own)
  induction n generalizing t with
  | zero => rw [resolves_zero, resolves_zero, h.others t (hne hno)]
  | succ n ih =>
    rw [resolves_succ, resolves_succ, h.others t (hne hno)]
    refine and_congr_right fun hnone => exists_congr fun q => and_congr_right fun hq => ih fun k hk => ?_
    have hsame := h.others t (hne hno)
    exact hno (k + 1) (.outer (hsame ▸ hnone) (hsame ▸ hq) hk)

theorem Binds.lookup?_found (h : m.Binds g sym v p m') {t : Handle} {n : Nat} (hres : m'.Resolves sym g n t) :
    m'.lookup? t sym = some (.ref p) := by
  obtain ⟨_, hm'⟩ := h.booked
  exact (lookup?_eq_some hm').2 ⟨g, n, hres, h.own⟩

theorem Binds.lookup?_eq (h : m.Binds g sym v p m') (hm : ∃ issued, m.heap.Booked issued) {t : Handle}
    (hno : ∀ n, ¬ m'.Resolves sym g n t) : m'.lookup? t sym = m.lookup? t sym := by
  obtain ⟨_, hm⟩ := hm
  obtain ⟨_, hm'⟩ := h.booked
  refine Option.ext fun r => ?_
  rw [lookup?_eq_some hm', lookup?_eq_some hm]
  refine exists_congr fun g' => exists_congr fun n => ?_
  rw [h.resolves_iff hno]
  refine and_congr_right fun hres => ?_
  have hne : g' ≠ g := by
    rintro rfl
    exact hno n ((h.resolves_iff hno).2 hres)
  rw [h.others g' hne]

/-- **A definition is visible where the way outwards comes to it.** Bind a symbol to a value in a scope that keeps its bindings in
boxes. If that does not fail, a look-up from any scope from which the way outwards comes to this scope before it comes to another
binding of the symbol finds a place with the value, and a look-up from any other scope finds what it found before. -/
theorem bind_visible {issued : List Handle} {s : Scope} (hm : m.heap.Booked issued) (hg : m.cell? g = some (.scope s))
    (hbox : ∀ r, s.own? sym = some r → ∃ b, r = .ref (.box b)) (v : Value) : (Act.bind g sym v).Ends m
    (fun _ m' => ∃ p, m'.load p = v ∧ ∀ t,
      (∀ n, m'.Resolves sym g n t → m'.lookup? t sym = some (.ref p)) ∧
      ((∀ n, ¬ m'.Resolves sym g n t) → m'.lookup? t sym = m.lookup? t sym))
    fun _ _ => True := by
  refine (Act.ends_bind (R := fun _ _ => True) hm hg hbox v).mono ?_ fun _ _ h => h
  rintro _ m' ⟨p, h⟩
  exact ⟨p, h.value, fun t => ⟨fun n hres => h.lookup?_found hres, h.lookup?_eq ⟨_, hm⟩⟩⟩

end Machine

end LispMachine
