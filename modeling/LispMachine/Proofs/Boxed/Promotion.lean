/-
Promotion, on the machine with variables in slots.

What promotes a scope is run on the left alone. Each variable that is still in a slot moves into a new box, which stands for the
box that the variable has had on the right from the start; when all have moved, the scopes stand for each other for good. The
scopes around a scope are promoted before it, and they are older, so that the walk outwards ends.
-/
import LispMachine.Proofs.Boxed.Scopes

namespace LispMachine.Boxed

open Pairing
open Simulation (Sim Later)

variable {th : ThreadId} {σ τ : Situation th} {h h' : Handle}

/-- a scope backed by the stack -/
theorem backs_scope (hf : σ.pairing.frame h h') : ∃ s s' sc', σ.pairing.Backs (σ.left.thread th).stack.id σ.left.heap
    σ.right.heap h h' s s' (σ.left.scope h) sc' := by
  obtain ⟨s, s', sc, sc', hb⟩ := σ.agree.store.backs hf
  have hscope : σ.left.scope h = sc := scope_of_cell (hb.cell ▸ Heap.cell?_of_slot? hb.slot)
  exact ⟨s, s', sc', hscope ▸ hb⟩

/-- what lies around a scope stays there -/
theorem parent_lasts (ho : σ.Open h h') (hb : Situation.Balanced σ τ) :
    (τ.left.scope h).parent = (σ.left.scope h).parent := by
  obtain ⟨sc, _, hc, -, -⟩ := σ.agree.store.opened ho
  obtain ⟨sc₁, _, hc₁, -, -⟩ := τ.agree.store.opened (hb.opened ho)
  obtain ⟨s, hs, hcell⟩ := Heap.cell?_eq_some.1 hc
  obtain ⟨u, hu, -, houter, -⟩ := hb.lasts.slot h s hs
  have hcell₁ := Option.some.inj ((Heap.cell?_of_slot? hu).symm.trans hc₁)
  rw [hcell, hcell₁] at houter
  rw [scope_of_cell hc, scope_of_cell hc₁]
  exact houter

theorem scope_cell? (hf : σ.pairing.frame h h') : σ.left.cell? h = some (.scope (σ.left.scope h)) := by
  obtain ⟨s, s', sc', hb⟩ := backs_scope hf
  exact hb.cell ▸ Heap.cell?_of_slot? hb.slot

/-! ## Variables -/

/-- a reference to a slot of a stack -/
def IsSlot (r : Value) : Prop := ∃ j i, r = .ref (.stack j i)

theorem follows_box {sym b : Handle} {i : Nat} {v : Value} (hf : σ.pairing.frame h h') (hs : σ.pairing.slot h sym i b)
    (hv : σ.item? i = some v) (hin : (sym, .ref (.stack (σ.left.thread th).stack.id i)) ∈ (σ.left.scope h).table) :
    Follows σ (σ.pairing.boxing h sym σ.left.heap.nextHandle b)
      ((σ.left.heap.insert (.box v) σ.left.collector.epoch false).write h
        (.scope ((σ.left.scope h).insert sym (.ref (.box σ.left.heap.nextHandle))))) σ.right.heap := by
  obtain ⟨s, s', sc', hb⟩ := backs_scope hf
  obtain ⟨w, t', w', hst⟩ := σ.agree.store.stores hs
  obtain rfl : v = w := Option.some.inj (hv.symm.trans hst.item)
  have hgrows := σ.agree.tidy.grows_insert (.box v) false
  exact
    { store := σ.agree.store.box σ.agree.tidy hf hb hs hst hin
      extends_ := σ.pairing.extends_boxing _ _ _ _
      frame := id
      slot := And.left
      lasts := hgrows.lasts.trans (Heap.lasts_write (hgrows _ _ hb.slot) (by rw [hb.cell]; rfl)
        (by rw [hb.cell]; exact Scope.insert_parent ..) (by simp [Cell.kind]))
      lasts' := .refl _
      tidy := (σ.agree.tidy.insert _ false).write h _
      tidy' := σ.agree.tidy'
      unbounded := σ.agree.unbounded }

/-- a variable moves from its slot into a box -/
theorem box_sim {sym b : Handle} {i : Nat} (hf : σ.pairing.frame h h') (hs : σ.pairing.slot h sym i b)
    (hin : (sym, .ref (.stack (σ.left.thread th).stack.id i)) ∈ (σ.left.scope h).table) :
    Sim σ
      (do
        let box ← Act.allocate (.box ((← get).load (.stack (σ.left.thread th).stack.id i)))
        Act.onScope h (·.insert sym (.ref (.box box)))) (pure ()) fun τ _ _ =>
      τ.pairing.frame h h' ∧ ∃ n, τ.left.scope h = (σ.left.scope h).insert sym (.ref (.box n)) := by
  obtain ⟨v, t', v', hst⟩ := σ.agree.store.stores hs
  have hload := load_slot σ.agree.owner hst.item
  have hget : (get : Act Machine).run σ.left = .ok σ.left σ.left := rfl
  cases hfull : σ.left.heap.isFull with
  | true =>
    refine interrupted (e := .refused) rfl ?_
    rw [Act.bind_ok hget, Act.bind_error (Tandem.run_allocate_full hfull)]
    exact List.mem_cons_self
  | false =>
    have hfollows := follows_box hf hs hst.item hin
    obtain ⟨s, s', sc', hb⟩ := backs_scope hf
    have hslot := σ.agree.tidy.grows_insert (.box v) false _ _ hb.slot
    have hcell : (σ.left.alloc (.box v) false).cell? h = some (.scope (σ.left.scope h)) :=
      hb.cell ▸ Heap.cell?_of_slot? hslot
    refine done (a := ()) (σ.reheap hfollows) (σ.balanced_reheap hfollows) ?_ rfl ⟨hf, σ.left.heap.nextHandle, ?_⟩
    · rw [Act.bind_ok hget, hload, Act.bind_ok (Tandem.run_allocate hfull)]
      exact Tandem.run_onScope hcell _
    · exact Tandem.scope_written (m := σ.left.alloc (.box v) false) hslot _

/-- when all bindings have been gone through, none leads to a slot -/
theorem promoteBindings_sim (es : List (Handle × Value)) (hf : σ.pairing.frame h h')
    (hin : ∀ e ∈ es, e ∈ (σ.left.scope h).table) (hkeys : (es.map Prod.fst).Nodup)
    (hrest : ∀ e ∈ (σ.left.scope h).table, e ∈ es ∨ ¬ IsSlot e.2) :
    Sim σ (Act.promoteBindings h es) (pure ()) fun τ _ _ =>
      τ.pairing.frame h h' ∧ ∀ e ∈ (τ.left.scope h).table, ¬ IsSlot e.2 := by
  induction es generalizing σ with
  | nil => exact .pure ⟨hf, fun e he => (hrest e he).resolve_left List.not_mem_nil⟩
  | cons e es ih =>
    obtain ⟨hhere, hmore⟩ := List.forall_mem_cons.1 hin
    obtain ⟨s, s', sc', hb⟩ := backs_scope hf
    obtain ⟨sym, r⟩ := e
    obtain ⟨⟨x', r'⟩, -, -, hvar⟩ := forall₂_exists hb.mirrors.tables hhere
    dsimp only at hvar
    obtain ⟨hsym, htail⟩ := List.nodup_cons.1 hkeys
    have hne {e : Handle × Value} (he : e ∈ es) (heq : e.1 = sym) : False := hsym (List.mem_map.2 ⟨e, he, heq⟩)
    unfold Act.promoteBindings
    cases hvar with
    | @slot i b hs =>
      refine same_run (z := (do
        let box ← Act.allocate (.box ((← get).load (.stack (σ.left.thread th).stack.id i)))
        Act.onScope h (·.insert sym (.ref (.box box)))) >>= fun _ => Act.promoteBindings h es)
        (Act.run_bind_assoc (x := Act.allocate _) σ.left _ _).symm rfl ?_
      refine leftThen (box_sim hf hs hhere) fun τ _ _ hτ => ?_
      obtain ⟨hf, n, hscope⟩ := hτ
      refine ih hf (fun e he => ?_) htail fun e he => ?_
      · rw [hscope]
        exact Scope.mem_insert_of_ne (hmore e he) (hne he) _
      · rw [hscope] at he
        rcases Scope.mem_of_mem_insert he with rfl | ⟨he, hesym⟩
        · exact .inr fun ⟨_, _, h⟩ => by cases h
        · exact (hrest e he).imp_left fun hin => (List.mem_cons.1 hin).resolve_left fun heq => hesym (heq ▸ rfl)
    | through hr =>
      have hplain : ¬ IsSlot r := by
        rintro ⟨j, i, rfl⟩
        cases hr
      have hgo := ih hf hmore htail fun e he => (hrest e he).elim
        (fun hin => (List.mem_cons.1 hin).elim (fun heq => .inr (heq ▸ hplain)) .inl) .inr
      cases hr <;> exact hgo

/-! ## Scopes -/

theorem follows_promote (hf : σ.pairing.frame h h') (htable : ∀ e ∈ (σ.left.scope h).table, ¬ IsSlot e.2)
    (hparent : ∀ p, (σ.left.scope h).parent = .scope p → ∃ q, σ.pairing.obj .scope p q) :
    Follows σ (σ.pairing.promoting h h') (σ.left.heap.write h (.scope { σ.left.scope h with transient := false }))
      σ.right.heap := by
  obtain ⟨s, s', sc', hb⟩ := backs_scope hf
  exact
    { store := σ.agree.store.promote hf hb (fun e he j i heq => htable e he ⟨j, i, heq⟩) hparent
      extends_ := σ.pairing.extends_promoting fun g' hg => (σ.agree.store.single hg hf).1 rfl
      frame := And.left
      slot := And.left
      lasts := Heap.lasts_write hb.slot (by rw [hb.cell]; rfl) (by rw [hb.cell]; rfl) (by simp [Cell.kind])
      lasts' := .refl _
      tidy := σ.agree.tidy.write h _
      tidy' := σ.agree.tidy'
      unbounded := σ.agree.unbounded }

/-- a scope that is not persistent yet becomes so when the scopes around it are -/
theorem promoteOne_sim (ho : σ.Open h h')
    (hparent : ∀ p, (σ.left.scope h).parent = .scope p → ∃ q, σ.pairing.obj .scope p q) :
    Sim σ
      (do
        let s := (← get).scope h
        if s.transient then
          Act.promoteBindings h s.table
          Act.onScope h ({ · with transient := false }))
      (pure ()) fun τ _ _ => τ.pairing.obj .scope h h' := by
  refine leftThen (P := fun τ m _ => τ = σ ∧ m = σ.left) (.read rfl rfl ⟨rfl, rfl⟩) ?_
  rintro τ _ - ⟨rfl, rfl⟩
  dsimp only
  rcases ho with ho | hf
  · rw [(persistent ho).1]
    exact .pure ho
  · obtain ⟨s, s', sc', hb⟩ := backs_scope hf
    rw [hb.transient]
    refine leftThen (promoteBindings_sim _ hf (fun _ => id) hb.mirrors.keys fun _ => .inl) fun υ _ hυ hp => ?_
    obtain ⟨hf, htable⟩ := hp
    have hkept := parent_lasts (.inr ‹τ.pairing.frame h h'›) hυ
    have hfollows := follows_promote hf htable fun p hp =>
      have ⟨q, hq⟩ := hparent p (hkept.symm.trans hp)
      ⟨q, hυ.extends_.obj hq⟩
    exact done (υ.reheap hfollows) (υ.balanced_reheap hfollows) (Tandem.run_onScope (scope_cell? hf) _) rfl (.inr ⟨rfl, rfl, rfl⟩)

theorem promoteWithin_sim (n : Nat) (ho : σ.Open h h') (hn : σ.left.heap.Within h n) :
    Sim σ (Act.promoteWithin n h) (pure ()) fun τ _ _ => τ.pairing.obj .scope h h' := by
  induction n generalizing σ h h' with
  | zero => obtain ⟨_, _, hlt⟩ := hn; cases hlt
  | succ n ih =>
    obtain ⟨sc, sc', hc, -, hm⟩ := σ.agree.store.opened ho
    have hscope : σ.left.scope h = sc := scope_of_cell hc
    have hparent := hm.parent
    -- the scope itself, once those around it are persistent
    have hself {τ : Situation th} (hτ : Situation.Balanced σ τ) (hp : ∀ p, sc.parent = .scope p → ∃ q, τ.pairing.obj .scope p q) :=
      promoteOne_sim (hτ.opened ho) fun p hsc => hp p (hscope ▸ (parent_lasts ho hτ).symm.trans hsc)
    unfold Act.promoteWithin
    refine leftThen (P := fun τ m _ => τ = σ ∧ m = σ.left) (.read rfl rfl ⟨rfl, rfl⟩) ?_
    rintro τ _ - ⟨rfl, rfl⟩
    rw [hscope]
    generalize hp : sc.parent = p, sc'.parent = p' at hparent
    cases hparent with
    | none => exact hself (.refl _) fun p hp' => by rw [hp] at hp'; cases hp'
    | scope ha =>
      refine leftThen (ih ha.pair (hn.older ha.older)) fun υ _ hυ hq => hself hυ fun p hp' => ?_
      obtain rfl := Outer.scope.inj (hp.symm.trans hp')
      exact ⟨_, hq⟩

theorem promote_sim (ho : σ.Open h h') : Sim σ (Act.promote h) (pure ()) fun τ _ _ => τ.pairing.obj .scope h h' := by
  unfold Act.promote
  refine leftThen (P := fun τ m _ => τ = σ ∧ m = σ.left) (.read rfl rfl ⟨rfl, rfl⟩) ?_
  rintro τ _ - ⟨rfl, rfl⟩
  exact promoteWithin_sim _ ho (within_births τ.agree.tidy (some_of_open ho).1)

/-- the scopes that a function made now captures -/
theorem scopeForFunction_sim (σ : Situation th) :
    Sim σ (Act.scopeForFunction th) (Act.currentScope th) fun τ h h' => τ.pairing.obj .scope h h' := by
  obtain ⟨h, h', hh, hh', ho⟩ := current_open σ
  unfold Act.scopeForFunction
  refine same_run (w := pure () >>= fun _ => pure h') (Act.bind_ok (run_currentScope hh)) (run_currentScope hh') ?_
  exact (promote_sim ho).bind fun υ _ _ _ ho => .pure ho

end LispMachine.Boxed
