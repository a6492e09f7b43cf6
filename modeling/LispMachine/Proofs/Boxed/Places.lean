/-
Places and bindings on two machines, one of which has its variables in boxes.

A variable is in a slot on the left as long as nothing has captured it, and in a box on the right. Reading and storing treat the
two alike. Scopes that stand for each other have the same bindings in the same order, so a look-up finds places that do, however
many scopes it passes through.
-/
import LispMachine.Proofs.Boxed.Objects

namespace LispMachine.Boxed

open Pairing
open Simulation (InStep Sim Later Val)

variable {th : ThreadId} {σ τ : Situation th}

/-! ## Reading -/

theorem load_slot {m : Machine} {i : Nat} {v : Value} (hown : (m.stackOwners[(m.thread th).stack.id]?).join = some th)
    (hv : (m.thread th).stack.items[i]? = some v) : m.load (.stack (m.thread th).stack.id i) = v := by
  simp only [Machine.load, Machine.stack?, hown, Option.map_some, Stack.get, hv, Option.getD_some]

theorem load_box {m : Machine} {b : Handle} {s : Slot} {v : Value} (hs : m.heap.slot? b = some s) (hc : s.cell = .box v) :
    m.load (.box b) = v ∧ m.dangles (.box b) = false := by
  simp [Machine.load, Machine.cell?, Heap.cell?_of_slot? hs, hc, Machine.dangles, hs]

/-- references to places that stand for each other lead to values that do -/
theorem load_like {p p' : Place} (h : σ.Spot (.ref p) (.ref p')) :
    (σ.left.load p).Like σ.pairing.obj (σ.right.load p') ∧ σ.left.dangles p = false ∧ σ.right.dangles p' = false := by
  have hfield {k : Kind} {h h' : Handle} (hk : σ.pairing.obj k h h') : ∃ c c', σ.left.cell? h = some c ∧
      σ.right.cell? h' = some c' ∧ c.Like σ.pairing.obj c' ∧ c.kind = k ∧
      (σ.left.heap.slot? h).isNone = false ∧ (σ.right.heap.slot? h').isNone = false := by
    obtain ⟨s, s', hf⟩ := σ.agree.store.fits hk
    exact ⟨s.cell, s'.cell, Heap.cell?_of_slot? hf.slot, Heap.cell?_of_slot? hf.slot', hf.alike.like, hf.kind,
      by simp [hf.slot], by simp [hf.slot']⟩
  obtain ⟨g, sym, hr⟩ := h
  cases hr with
  | slot hs =>
    obtain ⟨v, s', v', hst⟩ := σ.agree.store.stores hs
    obtain ⟨hload, hin⟩ := load_box hst.slot' hst.cell'
    rw [load_slot σ.agree.owner hst.item, hload]
    exact ⟨hst.like, rfl, hin⟩
  | through hr =>
    cases hr with
    | box hk =>
      obtain ⟨c, c', hc, hc', hlike, hkind, hin, hin'⟩ := hfield hk
      refine ⟨?_, hin, hin'⟩
      simp only [Machine.load, hc, hc']
      cases hlike <;> cases hkind
      assumption
    | car hk =>
      obtain ⟨c, c', hc, hc', hlike, hkind, hin, hin'⟩ := hfield hk
      refine ⟨?_, hin, hin'⟩
      simp only [Machine.load, hc, hc']
      cases hlike <;> cases hkind
      assumption
    | cdr hk =>
      obtain ⟨c, c', hc, hc', hlike, hkind, hin, hin'⟩ := hfield hk
      refine ⟨?_, hin, hin'⟩
      simp only [Machine.load, hc, hc']
      cases hlike <;> cases hkind
      assumption

/-- places that stand for each other are places -/
theorem places {r r' : Value} (h : σ.Spot r r') : ∃ p p', r = .ref p ∧ r' = .ref p' := by
  obtain ⟨g, sym, hs | hr⟩ := h
  · exact ⟨_, _, rfl, rfl⟩
  · cases hr <;> exact ⟨_, _, rfl, rfl⟩

theorem deref_sim {r r' : Value} (h : σ.Spot r r') :
    Sim σ (Act.deref r) (Act.deref r') fun τ v v' => τ = σ ∧ Val τ v v' := by
  obtain ⟨p, p', rfl, rfl⟩ := places h
  obtain ⟨hlike, hin, hin'⟩ := load_like h
  exact .read (Tandem.run_look hin) (Tandem.run_look hin') ⟨rfl, hlike⟩

/-! ## Storing -/

theorem follows_write {k : Kind} {h h' : Handle} {s s' : Slot} {c c' : Cell} (ho : σ.pairing.obj k h h')
    (hf : Fits σ.pairing.obj σ.left.heap σ.right.heap k h h' s s') (hk : c.kind = s.cell.kind)
    (hc : Alike σ.pairing.obj σ.left.heap σ.right.heap h h' c c') (houter : c.outer = s.cell.outer)
    (houter' : c'.outer = s'.cell.outer) (hfun : c.kind ≠ .function) :
    Follows σ σ.pairing (σ.left.heap.write h c) (σ.right.heap.write h' c') where
  store := σ.agree.store.write ho hf hk hc
  extends_ := .refl _
  frame := id
  slot := id
  lasts := Heap.lasts_write hf.slot hk houter hfun
  lasts' := Heap.lasts_write hf.slot' (by rw [← hc.like.kind_eq, hk, hf.alike.like.kind_eq]) houter'
    (hc.like.kind_eq ▸ hfun)
  tidy := σ.agree.tidy.write h c
  tidy' := σ.agree.tidy'.write h' c'
  unbounded := (limit_write ..).trans σ.agree.unbounded

/-- other contents of pairs or boxes -/
theorem overwrite_sim {k : Kind} {h h' : Handle} {s s' : Slot} {c c' : Cell} {old old' : Value} (ho : σ.pairing.obj k h h')
    (hf : Fits σ.pairing.obj σ.left.heap σ.right.heap k h h' s s') (hk : c.kind = s.cell.kind) (hc : c.Like σ.pairing.obj c')
    (hscope : c.kind ≠ .scope) (hfun : c.kind ≠ .function) :
    Sim σ (Act.overwrite h old c) (Act.overwrite h' old' c') fun _ _ _ => True := by
  have houter {c : Cell} (hs : c.kind ≠ .scope) (hf : c.kind ≠ .function) : c.outer = .none := by
    cases c with
    | scope => exact absurd rfl hs
    | function => exact absurd rfl hf
    | _ => rfl
  have hk' : c'.kind = s'.cell.kind := by rw [← hc.kind_eq, hk, hf.alike.like.kind_eq]
  have hfollows := follows_write ho hf hk (.of_like hc hscope hfun)
    ((houter hscope hfun).trans (houter (hk ▸ hscope) (hk ▸ hfun)).symm)
    ((houter (hc.kind_eq ▸ hscope) (hc.kind_eq ▸ hfun)).trans
      (houter (hk' ▸ hc.kind_eq ▸ hscope) (hk' ▸ hc.kind_eq ▸ hfun)).symm) hfun
  exact done (σ.reheap hfollows) (σ.balanced_reheap hfollows) (Tandem.run_overwrite σ.agree.marking h old c)
    (Tandem.run_overwrite σ.agree.marking' h' old' c') trivial

/-- a store into a pair -/
theorem assign_sim {h h' : Handle} {x y x' y' old old' a d a' d' : Value} {e e' n n' : Nat} {text text' : Bool}
    (ho : σ.pairing.obj .cons h h')
    (hf : Fits σ.pairing.obj σ.left.heap σ.right.heap .cons h h' ⟨.cons x y, e, n, text⟩ ⟨.cons x' y', e', n', text'⟩)
    (ha : Val σ a a') (hd : Val σ d d') :
    Sim σ (do Act.note (.assigned text); Act.overwrite h old (.cons a d))
      (do Act.note (.assigned text'); Act.overwrite h' old' (.cons a' d')) fun _ _ _ => True := by
  have hl := (Idle.refl th σ.left).note (.assigned text)
  have hr := (Idle.refl th σ.right).note (.assigned text')
  refine resume (z := Act.overwrite h old (.cons a d)) (w := Act.overwrite h' old' (.cons a' d')) hl hr rfl rfl ?_
  exact overwrite_sim (σ := σ.idle hl hr) ho hf rfl (.cons ha hd) (by simp [Cell.kind]) (by simp [Cell.kind])

theorem Agree.set {ρ : Pairing} {l r : Machine} {h sym b : Handle} {i : Nat} {v v₁ v' v₁' : Value} {s' : Slot}
    (ha : Agree th ρ l r) (hs : ρ.slot h sym i b) (hst : Stores ρ.obj (l.thread th).stack.items r.heap i b v s' v')
    (hv : v₁.Like ρ.obj v₁') : Agree th ρ (l.onThread th (Thread.setting i v₁)) { r with heap := r.heap.write b (.box v₁') } := by
  have hthread := Machine.thread_onThread ha.isOpen (Thread.setting i v₁) th
  rw [if_pos rfl] at hthread
  exact
    { ha with
      store := by rw [hthread]; exact ha.store.set hs hst hv
      tidy' := ha.tidy'.write b _
      unbounded := (limit_write ..).trans ha.unbounded
      isOpen := by rw [hthread]; exact ha.isOpen
      whole := by rw [hthread]; exact ha.whole
      owner := by rw [hthread]; exact ha.owner
      scopes := by rw [hthread]; exact ha.scopes
      outermost := by rw [hthread]; exact ha.outermost }

/-- a store into a variable that is in a slot -/
theorem set_sim {h sym b : Handle} {i : Nat} {v v₁ v' v₁' old : Value} {s' : Slot} (hs : σ.pairing.slot h sym i b)
    (hst : Stores σ.pairing.obj (σ.left.thread th).stack.items σ.right.heap i b v s' v') (hv : Val σ v₁ v₁') :
    Sim σ (modify fun m => m.onThread th (Thread.setting i v₁)) (Act.overwrite b old (.box v₁')) fun _ _ _ => True := by
  have hthread := Machine.thread_onThread σ.agree.isOpen (Thread.setting i v₁) th
  rw [if_pos rfl] at hthread
  let τ : Situation th := ⟨_, _, σ.pairing, σ.agree.set hs hst hv⟩
  refine done (a := ⟨⟩) (b := ⟨⟩) τ
    { extends_ := .refl _
      frame := id
      slot := id
      lasts := .refl _
      lasts' := Heap.lasts_write hst.slot' (by rw [hst.cell']; rfl) (by rw [hst.cell']; rfl) (by simp [Cell.kind])
      stays := ⟨by rw [hthread]; rfl, by rw [hthread]; rfl, fun _ => rfl, Array.size_modify .., rfl, rfl, rfl, rfl⟩
      stays' := ⟨rfl, rfl, fun _ => rfl, rfl, rfl, rfl, rfl, rfl⟩
      height := ?_
      item? := fun j hj hfree => ?_
      level := ?_ } rfl (Tandem.run_overwrite σ.agree.marking' b old _) trivial
  · unfold Situation.height
    rw [hthread]
    exact Nat.le_of_eq (by simp [Thread.setting])
  · unfold Situation.item?
    rw [hthread]
    have hne : i ≠ j := by
      rintro rfl
      exact hfree h sym b hs
    exact Array.getElem?_setIfInBounds_ne hne
  · unfold Situation.height
    rw [hthread]
    simp [Thread.setting]

section

variable {m : Machine} {h : Handle} {v : Value}

theorem run_store_slot {i : Nat} (hown : (m.stackOwners[(m.thread th).stack.id]?).join = some th)
    (hbeyond : (m.thread th).stack.beyond = 0) (hi : i < (m.thread th).stack.items.size) :
    (Act.store (.stack (m.thread th).stack.id i) v).run m =
      (modify (fun m => m.onThread th (Thread.setting i v)) : Act PUnit).run m := by
  have hset := Tandem.set_stack hbeyond i v
  rw [if_pos hi] at hset
  unfold Act.store
  rw [Act.run_bind]
  simp only [Act.run_get, hown, hset]
  rfl

theorem run_store_box {old : Value} (hc : m.cell? h = some (.box old)) :
    (Act.store (.box h) v).run m = (Act.overwrite h old (.box v)).run m := by
  unfold Act.store
  rw [Act.run_bind]
  simp only [Act.run_get, hc]

theorem run_store_car {old d : Value} {e n : Nat} {text : Bool} (hs : m.heap.slot? h = some ⟨.cons old d, e, n, text⟩) :
    (Act.store (.car h) v).run m = (do Act.note (.assigned text); Act.overwrite h old (.cons v d) : Act Unit).run m := by
  unfold Act.store
  rw [Act.run_bind]
  simp only [Act.run_get, hs]

theorem run_store_cdr {a old : Value} {e n : Nat} {text : Bool} (hs : m.heap.slot? h = some ⟨.cons a old, e, n, text⟩) :
    (Act.store (.cdr h) v).run m = (do Act.note (.assigned text); Act.overwrite h old (.cons a v) : Act Unit).run m := by
  unfold Act.store
  rw [Act.run_bind]
  simp only [Act.run_get, hs]

end

theorem storeThrough_sim {r r' v v' : Value} (hr : σ.Spot r r') (hv : Val σ v v') :
    Sim σ (Act.storeThrough r v) (Act.storeThrough r' v') fun _ _ _ => True := by
  obtain ⟨g, sym, hr⟩ := hr
  cases hr with
  | @slot i b hs =>
    obtain ⟨w, s', w', hst⟩ := σ.agree.store.stores hs
    obtain ⟨hi, -⟩ := Array.getElem?_eq_some_iff.1 hst.item
    exact same_run (run_store_slot σ.agree.owner σ.agree.whole hi)
      (run_store_box (hst.cell' ▸ Heap.cell?_of_slot? hst.slot')) (set_sim hs hst hv)
  | through hr =>
    cases hr with
    | @box h h' hk =>
      obtain ⟨⟨c, e, n, text⟩, ⟨c', e', n', text'⟩, hf⟩ := σ.agree.store.fits hk
      have hlike := hf.alike.like
      have hkind := hf.kind
      cases hlike <;> cases hkind
      exact same_run (run_store_box (Heap.cell?_of_slot? hf.slot)) (run_store_box (Heap.cell?_of_slot? hf.slot'))
        (overwrite_sim hk hf hf.kind.symm (.box hv) (by simp [Cell.kind]) (by simp [Cell.kind]))
    | @car h h' hk =>
      obtain ⟨⟨c, e, n, text⟩, ⟨c', e', n', text'⟩, hf⟩ := σ.agree.store.fits hk
      have hlike := hf.alike.like
      have hkind := hf.kind
      cases hlike with
      | cons _ hd => exact same_run (run_store_car hf.slot) (run_store_car hf.slot') (assign_sim hk hf hv hd)
      | _ => cases hkind
    | @cdr h h' hk =>
      obtain ⟨⟨c, e, n, text⟩, ⟨c', e', n', text'⟩, hf⟩ := σ.agree.store.fits hk
      have hlike := hf.alike.like
      have hkind := hf.kind
      cases hlike with
      | cons ha _ => exact same_run (run_store_cdr hf.slot) (run_store_cdr hf.slot') (assign_sim hk hf ha hv)
      | _ => cases hkind

/-! ## Look-up -/

theorem scope_of_cell {m : Machine} {h : Handle} {sc : Scope} (hc : m.heap.cell? h = some (.scope sc)) : m.scope h = sc := by
  simp [Machine.scope, Machine.cell?, hc]

/-- a look-up through scopes that are related finds related places; it goes outwards to older scopes -/
theorem lookupWithin_rel {P : Handle → Handle → Prop} {V : Value → Value → Prop} {sym sym' : Handle}
    (hP : ∀ h h', P h h' → ∃ sc sc' var, σ.left.heap.cell? h = some (.scope sc) ∧ σ.right.heap.cell? h' = some (.scope sc') ∧
      sc.Mirrors σ.pairing.obj (Around σ.left.heap σ.right.heap P h h') var sc' ∧ ∀ r r', var sym r r' → V r r')
    (hsym : σ.pairing.obj .symbol sym sym') {n n' : Nat} {h h' : Handle} (hh : P h h') (hn : σ.left.heap.Within h n)
    (hn' : σ.right.heap.Within h' n') :
    Option.Rel V (σ.left.lookupWithin sym n h) (σ.right.lookupWithin sym' n' h') := by
  induction n generalizing n' h h' with
  | zero => obtain ⟨_, _, hlt⟩ := hn; cases hlt
  | succ n ih =>
    cases n' with
    | zero => obtain ⟨_, _, hlt⟩ := hn'; cases hlt
    | succ n' =>
      obtain ⟨sc, sc', var, hc, hc', hm, hvar⟩ := hP h h' hh
      have hown := hm.tables.own? (fun _ _ _ _ => σ.agree.store.unique) hsym
      have hparent := hm.parent
      simp only [Machine.lookupWithin, scope_of_cell hc, scope_of_cell hc']
      generalize sc.own? sym = o, sc'.own? sym' = o' at hown
      generalize sc.parent = p, sc'.parent = p' at hparent
      cases hown with
      | some hr => exact .some (hvar _ _ hr)
      | none =>
        cases hparent with
        | none => exact .none
        | scope ha => exact ih ha.pair (hn.older ha.older) (hn'.older ha.older')

/-- what is there was among the objects made so far -/
theorem within_births {hp : Heap} {epoch : Nat} (ht : hp.Tidy epoch) {h : Handle} (hs : (hp.slot? h).isSome) :
    hp.Within h (hp.births + 1) := by
  obtain ⟨s, hs⟩ := Option.isSome_iff_exists.1 hs
  exact ⟨s, hs, Nat.lt_succ_of_lt (ht.serial_lt h s hs)⟩

theorem some_of_open {h h' : Handle} (ho : σ.Open h h') : (σ.left.heap.slot? h).isSome ∧ (σ.right.heap.slot? h').isSome :=
  ho.elim σ.agree.store.some σ.agree.store.frame_some

theorem lookup?_spot {h h' sym sym' : Handle} (ho : σ.Open h h') (hsym : σ.pairing.obj .symbol sym sym') :
    Option.Rel σ.Spot (σ.left.lookup? h sym) (σ.right.lookup? h' sym') := by
  obtain ⟨hin, hin'⟩ := some_of_open ho
  refine lookupWithin_rel (P := σ.Open) (fun g g' hg => ?_) hsym ho (within_births σ.agree.tidy hin)
    (within_births σ.agree.tidy' hin')
  obtain ⟨sc, sc', hc, hc', hm⟩ := σ.agree.store.opened hg
  exact ⟨sc, sc', _, hc, hc', hm, fun r r' hr => ⟨g, sym, hr⟩⟩

theorem lookup?_placed {h h' sym sym' : Handle} (ho : σ.pairing.obj .scope h h') (hsym : σ.pairing.obj .symbol sym sym') :
    Option.Rel (Value.Through σ.pairing.obj) (σ.left.lookup? h sym) (σ.right.lookup? h' sym') := by
  obtain ⟨hin, hin'⟩ := σ.agree.store.some ho
  refine lookupWithin_rel (P := σ.pairing.obj .scope) (fun g g' hg => ?_) hsym ho (within_births σ.agree.tidy hin)
    (within_births σ.agree.tidy' hin')
  obtain ⟨s, s', sc, sc', hf, hc, hc', -, hm⟩ := σ.agree.store.scope hg
  exact ⟨sc, sc', _, hc ▸ Heap.cell?_of_slot? hf.slot, hc' ▸ Heap.cell?_of_slot? hf.slot', hm, fun _ _ hr => hr⟩

/-! ## Binding -/

/-- scopes that stand for each other stay alike when a symbol is bound in both -/
theorem mirrors_insert {around : Handle → Handle → Prop} {var : Handle → Value → Value → Prop} {sc sc' : Scope}
    (hm : sc.Mirrors σ.pairing.obj around var sc') {sym sym' : Handle} (hsym : σ.pairing.obj .symbol sym sym') {r r' : Value}
    (hr : var sym r r') : (sc.insert sym r).Mirrors σ.pairing.obj around var (sc'.insert sym' r') where
  name := by rw [Scope.insert_name, Scope.insert_name]; exact hm.name
  parent := by rw [Scope.insert_parent, Scope.insert_parent]; exact hm.parent
  tables := hm.tables.insert (fun _ _ _ _ => σ.agree.store.unique) hsym hr
  keys := Scope.nodup_insert hm.keys sym r
  persistent := by rw [Scope.insert_transient]; exact hm.persistent

/-- new bindings in persistent scopes -/
theorem insert_sim {h h' sym sym' : Handle} {r r' : Value} (ho : σ.pairing.obj .scope h h')
    (hsym : σ.pairing.obj .symbol sym sym') (hr : r.Through σ.pairing.obj r') :
    Sim σ (Act.onScope h (·.insert sym r)) (Act.onScope h' (·.insert sym' r')) fun _ _ _ => True := by
  obtain ⟨s, s', sc, sc', hf, hc, hc', htransient, hm⟩ := σ.agree.store.scope ho
  have halike : Alike σ.pairing.obj σ.left.heap σ.right.heap h h' (.scope (sc.insert sym r)) (.scope (sc'.insert sym' r')) := by
    have hnew : (sc.insert sym r).Mirrors σ.pairing.obj _ (fun _ => Value.Through σ.pairing.obj) (sc'.insert sym' r') :=
      mirrors_insert hm hsym hr
    refine ⟨.scope hnew.name, by rintro _ _ _ ⟨⟩, ?_⟩
    rintro _ _ ⟨⟩ ⟨⟩
    exact ⟨by rw [Scope.insert_transient]; exact htransient, hnew⟩
  have hfollows := follows_write ho hf (c := .scope (sc.insert sym r)) (by rw [hc]; rfl) halike
    (by rw [hc]; exact Scope.insert_parent ..) (by rw [hc']; exact Scope.insert_parent ..) (by simp [Cell.kind])
  exact done (σ.reheap hfollows) (σ.balanced_reheap hfollows) (Tandem.run_onScope (hc ▸ Heap.cell?_of_slot? hf.slot) _)
    (Tandem.run_onScope (hc' ▸ Heap.cell?_of_slot? hf.slot') _) trivial

/-- persistent scopes stay so -/
theorem persistent {h h' : Handle} (ho : σ.pairing.obj .scope h h') :
    (σ.left.scope h).transient = false ∧ (σ.right.scope h').transient = false := by
  obtain ⟨s, s', sc, sc', hf, hc, hc', htransient, hm⟩ := σ.agree.store.scope ho
  rw [scope_of_cell (hc ▸ Heap.cell?_of_slot? hf.slot), scope_of_cell (hc' ▸ Heap.cell?_of_slot? hf.slot')]
  exact ⟨htransient, hm.persistent⟩

theorem own?_placed {h h' sym sym' : Handle} (ho : σ.pairing.obj .scope h h') (hsym : σ.pairing.obj .symbol sym sym') :
    Option.Rel (Value.Through σ.pairing.obj) ((σ.left.scope h).own? sym) ((σ.right.scope h').own? sym') := by
  obtain ⟨s, s', sc, sc', hf, hc, hc', -, hm⟩ := σ.agree.store.scope ho
  rw [scope_of_cell (hc ▸ Heap.cell?_of_slot? hf.slot), scope_of_cell (hc' ▸ Heap.cell?_of_slot? hf.slot')]
  exact hm.tables.own? (fun _ _ _ _ => σ.agree.store.unique) hsym

theorem bindIn_sim {g g' sym sym' : Handle} {v v' : Value} (overwrite : Bool) (hg : σ.pairing.obj .scope g g')
    (hsym : σ.pairing.obj .symbol sym sym') (hv : Val σ v v') :
    Sim σ (Act.bindIn g sym v overwrite) (Act.bindIn g' sym' v' overwrite) Simulation.Placed := by
  unfold Act.bindIn
  refine Sim.get ?_
  have hown := own?_placed hg hsym
  simp only [Simulation.left, Simulation.right]
  generalize (σ.left.scope g).own? sym = o, (σ.right.scope g').own? sym' = o' at hown
  cases hown with
  | some hr =>
    cases overwrite with
    | false => exact .pure hr
    | true => exact (storeThrough_sim ⟨0, 0, .through hr⟩ hv).bind fun τ _ _ hτ _ => .pure (hτ.placed hr)
  | none =>
    refine (allocate_sim (.of_like (.box hv) (by simp [Cell.kind]) (by simp [Cell.kind]))).bind fun τ b b' hτ hmade => Sim.get ?_
    obtain ⟨hl, hr⟩ := persistent (hτ.kept hg)
    have hb : (Value.ref (.box b)).Through τ.pairing.obj (.ref (.box b')) := .box hmade.obj
    simp only [Simulation.left, Simulation.right, hl, hr, Bool.false_eq_true, if_false]
    exact (insert_sim (hτ.kept hg) (hτ.kept hsym) hb).bind fun υ _ _ hυ _ => .pure (hυ.placed hb)

end LispMachine.Boxed
