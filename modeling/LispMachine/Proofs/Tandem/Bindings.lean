/-
Bindings on two machines in tandem: look-up, binding and promotion.

Scopes that stand for each other have the same bindings in the same order, so a look-up finds places that stand for each other. A
scope gets bindings but loses none; where a stack-backed binding moves into a box, nothing is lost that is held firmly.
-/
import LispMachine.Proofs.Tandem.Scopes

namespace LispMachine.Tandem

open Machine (Corr)
open Simulation (InStep Sim QuietSim Later)

variable {th : ThreadId} {same : Bool} {σ τ : Tandem th same}

/-! ## Look-up -/

/-- the scopes with handles that are kept -/
theorem scope_like {h h' : Handle} (hk : σ.Kept .scope h h') : ∃ s s', σ.left.heap.slot? h = some s ∧
    σ.right.heap.slot? h' = some s' ∧ s.serial = s'.serial ∧ s.cell = .scope (σ.left.scope h) ∧
    s'.cell = .scope (σ.right.scope h') ∧ (σ.left.scope h).Like σ.Kept (σ.right.scope h') := by
  obtain ⟨s, s', hs, hs', hserial, hkind, hkind'⟩ := hk.corr
  have hparts := hk.parts hs hs' (.inr (.inl hkind))
  obtain ⟨sc, hsc⟩ : ∃ sc, s.cell = .scope sc := by
    cases hc : s.cell <;> rw [hc] at hkind <;> cases hkind
    exact ⟨_, rfl⟩
  obtain ⟨sc', hsc'⟩ : ∃ sc, s'.cell = .scope sc := by
    cases hc : s'.cell <;> rw [hc] at hkind' <;> cases hkind'
    exact ⟨_, rfl⟩
  have hl : σ.left.scope h = sc := by
    simp [Machine.scope, Machine.cell?, Heap.cell?_of_slot? hs, hsc]
  have hr : σ.right.scope h' = sc' := by
    simp [Machine.scope, Machine.cell?, Heap.cell?_of_slot? hs', hsc']
  rw [hl, hr]
  exact ⟨s, s', hs, hs', hserial, hsc, hsc', hparts.scope sc sc' hsc hsc'⟩

theorem own?_leads {ρ : Kind → Handle → Handle → Prop}
    (hunique : ∀ a a' b b', ρ .symbol a a' → ρ .symbol b b' → (a = b ↔ a' = b')) {s s' : Scope} (hs : s.Like ρ s')
    {sym sym' : Handle} (hsym : ρ .symbol sym sym') : Option.Rel (Value.Leads ρ) (s.own? sym) (s'.own? sym') :=
  Scope.Tables.own? (V := fun _ => Value.Leads ρ) hunique hs.table hsym

theorem own?_like {s s' : Scope} (hs : s.Like σ.Kept s') {sym sym' : Handle} (hsym : σ.Kept .symbol sym sym') :
    Option.Rel (Value.Leads σ.Kept) (s.own? sym) (s'.own? sym') :=
  own?_leads (fun _ _ _ _ h h' => corr_unique h.corr h'.corr) hs hsym

theorem lookupWithin_like (n : Nat) {g g' sym sym' : Handle} (hg : σ.Kept .scope g g') (hsym : σ.Kept .symbol sym sym') :
    Option.Rel (Value.Leads σ.Kept) (σ.left.lookupWithin sym n g) (σ.right.lookupWithin sym' n g') := by
  induction n generalizing g g' with
  | zero => exact .none
  | succ n ih =>
    obtain ⟨-, -, -, -, -, -, -, hlike⟩ := scope_like hg
    have hown := own?_like hlike hsym
    have hparent := hlike.parent
    simp only [Machine.lookupWithin]
    generalize (σ.left.scope g).own? sym = r, (σ.right.scope g').own? sym' = r' at hown
    generalize (σ.left.scope g).parent = p, (σ.right.scope g').parent = p' at hparent
    cases hown with
    | some hr => exact .some hr
    | none =>
      cases hparent with
      | none => exact .none
      | scope hp => exact ih hp

theorem lookup?_like {g g' sym sym' : Handle} (hg : σ.Kept .scope g g') (hsym : σ.Kept .symbol sym sym') :
    Option.Rel (Value.Leads σ.Kept) (σ.left.lookup? g sym) (σ.right.lookup? g' sym') := by
  unfold Machine.lookup?
  rw [σ.agree.store.births]
  exact lookupWithin_like _ hg hsym

/-! ## Changing scopes -/

/-- a scope gets other bindings, and nothing is lost that is held firmly -/
structure Rebinds (sc new : Scope) : Prop where
  name : new.name = sc.name
  parent : new.parent = sc.parent
  table : ∀ e ∈ sc.table, ∃ r, (e.1, r) ∈ new.table ∧ ∀ t k, e.2.Names t k → r = e.2
  keys : (new.table.map Prod.fst).Nodup

theorem Rebinds.stable {sc new : Scope} (h : Rebinds sc new) {s : Slot} (hs : s.cell = .scope sc) :
    s.Stable { s with cell := .scope new } where
  label := by simp [Slot.label, hs, Cell.kind]
  fixed _ hk := absurd (by rw [hs]; rfl) hk
  scope old hold := by
    obtain rfl := Cell.scope.inj (hs.symm.trans hold)
    exact ⟨new, rfl, h.name, h.parent, h.table⟩

theorem run_onScope {m : Machine} {h : Handle} {sc : Scope} (hc : m.cell? h = some (.scope sc)) (f : Scope → Scope) :
    (Act.onScope h f).run m = .ok () (m.written h (.scope (f sc))) := by
  simp [Act.onScope, hc, Machine.written]

theorem onScope_sim {h h' : Handle} (hk : σ.Kept .scope h h') {f f' : Scope → Scope}
    (hf : Rebinds (σ.left.scope h) (f (σ.left.scope h))) (hf' : Rebinds (σ.right.scope h') (f' (σ.right.scope h')))
    (hlike : (f (σ.left.scope h)).Like (Corr σ.left σ.right) (f' (σ.right.scope h'))) :
    Sim σ (Act.onScope h f) (Act.onScope h' f') fun τ _ _ =>
      τ.left = σ.left.written h (.scope (f (σ.left.scope h))) ∧ τ.right = σ.right.written h' (.scope (f' (σ.right.scope h'))) := by
  obtain ⟨s, s', hs, hs', hserial, hsc, hsc', -⟩ := scope_like hk
  let τ := σ.writing hs hs' hserial (by rw [hsc]; rfl) (by simp [Cell.kind]) hlike.same
    ⟨by simp, by simp, by simp, by simpa using hf.keys⟩
  have hrun := run_onScope (m := σ.left) (h := h) (hsc ▸ Heap.cell?_of_slot? hs) f
  have hrun' := run_onScope (m := σ.right) (h := h') (hsc' ▸ Heap.cell?_of_slot? hs') f'
  exact done τ ⟨Machine.keeps_written hs (hf.stable hsc), Machine.keeps_written hs' (hf'.stable hsc')⟩ hrun hrun' ⟨rfl, rfl⟩

/-! ## New bindings -/

/-- alike scopes stay alike when a symbol is bound in both -/
theorem insert_like {s s' : Scope} (hs : s.Like (Corr σ.left σ.right) s') {sym sym' : Handle}
    (hsym : Corr σ.left σ.right .symbol sym sym') {r r' : Value} (hr : r.Leads (Corr σ.left σ.right) r') :
    (s.insert sym r).Like (Corr σ.left σ.right) (s'.insert sym' r') := by
  have htables := Scope.Tables.insert (V := fun _ => Value.Leads (Corr σ.left σ.right)) (fun _ _ _ _ h h' => corr_unique h h')
    hs.table hsym hr
  rw [s.insert_eq, s'.insert_eq]
  exact { hs with table := htables }

/-- a binding that holds nothing may be replaced -/
theorem rebinds_insert {sc : Scope} (hkeys : (sc.table.map Prod.fst).Nodup) {sym : Handle}
    (hold : ∀ r, (sym, r) ∈ sc.table → ∀ t k, ¬ r.Names t k) (r : Value) : Rebinds sc (sc.insert sym r) := by
  have hnodup := Scope.nodup_insert hkeys sym r
  unfold Scope.insert at *
  split
  · rename_i hsome
    refine ⟨rfl, rfl, fun e he => ?_, by rwa [if_pos hsome] at hnodup⟩
    by_cases heq : e.1 = sym
    · refine ⟨r, List.mem_map.2 ⟨e, he, by rw [if_pos heq, heq]⟩, fun t k hn => ?_⟩
      obtain ⟨x, v⟩ := e
      obtain rfl : x = sym := heq
      exact absurd hn (hold v he t k)
    · exact ⟨e.2, List.mem_map.2 ⟨e, he, by rw [if_neg heq]⟩, fun _ _ _ => rfl⟩
  · rename_i hnone
    exact ⟨rfl, rfl, fun e he => ⟨e.2, List.mem_cons_of_mem _ he, fun _ _ _ => rfl⟩, by rwa [if_neg hnone] at hnodup⟩

/-- the bindings of a scope that is kept are of different symbols -/
theorem nodup_scope {h h' : Handle} (hk : σ.Kept .scope h h') :
    ((σ.left.scope h).table.map Prod.fst).Nodup ∧ ((σ.right.scope h').table.map Prod.fst).Nodup := by
  obtain ⟨s, s', hs, hs', -, hsc, hsc', -⟩ := scope_like hk
  exact ⟨(σ.sound.store.wellMade h s hs).keys _ hsc, (σ.sound'.store.wellMade h' s' hs').keys _ hsc'⟩

/-- what a scope that is kept binds a symbol to is kept with it -/
theorem kept_binding {h h' : Handle} (hk : σ.Kept .scope h h') {sym sym' : Handle} {r r' : Value}
    (hr : r.Leads (Corr σ.left σ.right) r') (hin : (sym, r) ∈ (σ.left.scope h).table)
    (hin' : (sym', r') ∈ (σ.right.scope h').table) : r.Leads σ.Kept r' := by
  obtain ⟨s, s', hs, hs', -, hsc, hsc', -⟩ := scope_like hk
  refine hr.mono_names fun k t t' hn hn' hc => ⟨hc, ?_, ?_⟩
  · exact .step hk.firm hs (.inr (.inl (by rw [hsc]; rfl))) (by rw [hsc]; exact .names (.binding hin hn))
  · exact .step hk.firm' hs' (.inr (.inl (by rw [hsc']; rfl))) (by rw [hsc']; exact .names (.binding hin' hn'))

theorem scope_of_slot {m : Machine} {h : Handle} {s : Slot} {sc : Scope} (hs : m.heap.slot? h = some s)
    (hsc : s.cell = .scope sc) : m.scope h = sc := by
  simp [Machine.scope, Machine.cell?, Heap.cell?_of_slot? hs, hsc]

/-- a scope is what was written there -/
theorem scope_written {m : Machine} {h : Handle} {s : Slot} (hs : m.heap.slot? h = some s) (sc : Scope) :
    (m.written h (.scope sc)).scope h = sc :=
  scope_of_slot (s := { s with cell := .scope sc }) (by simp [Machine.written, Heap.slot?_write, hs]) rfl

/-- bindings that stand for each other are made in scopes that do, in place of such as hold nothing -/
theorem rebind_sim {h h' sym sym' : Handle} {r r' : Value} (hk : σ.Kept .scope h h') (hsym : σ.Kept .symbol sym sym')
    (hr : r.Leads (Corr σ.left σ.right) r') (hold : ∀ r, (sym, r) ∈ (σ.left.scope h).table → ∀ t k, ¬ r.Names t k)
    (hold' : ∀ r, (sym', r) ∈ (σ.right.scope h').table → ∀ t k, ¬ r.Names t k) :
    Sim σ (Act.onScope h (·.insert sym r)) (Act.onScope h' (·.insert sym' r')) fun τ _ _ =>
      r.Leads τ.Kept r' ∧ τ.left.scope h = (σ.left.scope h).insert sym r ∧
        τ.right.scope h' = (σ.right.scope h').insert sym' r' := by
  obtain ⟨s, s', hs, hs', -, hsc, hsc', hlike⟩ := scope_like hk
  obtain ⟨hkeys, hkeys'⟩ := nodup_scope hk
  refine Sim.mono (onScope_sim hk (rebinds_insert hkeys hold r) (rebinds_insert hkeys' hold' r')
    (insert_like (hlike.mono fun _ _ _ => Kept.corr) hsym.corr hr)) fun τ _ _ hτ h => ?_
  obtain ⟨hl, hr'⟩ := h
  have hleft : τ.left.scope h = (σ.left.scope h).insert sym r := by rw [hl]; exact scope_written hs _
  have hright : τ.right.scope h' = (σ.right.scope h').insert sym' r' := by rw [hr']; exact scope_written hs' _
  have hcorr : ∀ k t t', Corr σ.left σ.right k t t' → Corr τ.left τ.right k t t' := by
    intro k t t' hc
    rw [hl, hr']
    exact hc.mono (Heap.labelled_write hs (by rw [hsc]; rfl)) (Heap.labelled_write hs' (by rw [hsc']; rfl))
  have hin : (sym, r) ∈ (τ.left.scope h).table := by rw [hleft]; exact Scope.mem_insert ..
  have hin' : (sym', r') ∈ (τ.right.scope h').table := by rw [hright]; exact Scope.mem_insert ..
  exact ⟨kept_binding (hτ.kept hk) (hr.mono hcorr) hin hin', hleft, hright⟩

theorem scope_quiet {h h' : Handle} (hk : σ.Kept .scope h h') (hq : Quiet σ τ) :
    τ.left.scope h = σ.left.scope h ∧ τ.right.scope h' = σ.right.scope h' := by
  obtain ⟨s, s', hs, hs', -, hsc, hsc', -⟩ := scope_like hk
  exact ⟨scope_of_slot (hq.adds.grows h s hs) hsc, scope_of_slot (hq.adds'.grows h' s' hs') hsc'⟩

/-- a box made on both sides for values that correspond -/
theorem allocateBox_sim {v v' : Value} (hv : v.Like (Corr σ.left σ.right) v') :
    QuietSim σ (Act.allocate (.box v)) (Act.allocate (.box v')) fun τ b b' =>
      (Value.ref (.box b)).Leads (Corr τ.left τ.right) (.ref (.box b')) :=
  InStep.mono (allocate_sim (by simp [Cell.kind]) ((Cell.Like.box hv).same (by simp [Cell.kind]))
    fun epoch serial => ⟨by simp, by simp, by simp, by simp⟩) (fun _ => id) (fun _ _ _ _ => id)
    fun _ _ _ _ hmade => .box hmade.corr

theorem bindIn_sim {g g' sym sym' : Handle} {v v' : Value} (overwrite : Bool) (hg : σ.Kept .scope g g')
    (hsym : σ.Kept .symbol sym sym') (hv : Simulation.Val σ v v') :
    Sim σ (Act.bindIn g sym v overwrite) (Act.bindIn g' sym' v' overwrite) Simulation.Placed := by
  unfold Act.bindIn
  refine Sim.get ?_
  obtain ⟨-, -, -, -, -, -, -, hlike⟩ := scope_like hg
  have hown := own?_like hlike hsym
  dsimp only
  generalize ho : (σ.left.scope g).own? sym = o, ho' : (σ.right.scope g').own? sym' = o' at hown
  cases hown with
  | some hr =>
    cases overwrite with
    | false => exact .pure hr
    | true => exact (storeThrough_sim hr hv).bind fun τ _ _ hτ _ => .pure (hτ.placed hr)
  | none =>
    refine (Sim.of_quiet (allocateBox_sim hv.live)).bind fun τ b b' hτ hb => Sim.get ?_
    obtain ⟨hq, hb⟩ := hb
    obtain ⟨hl, hr⟩ := scope_quiet hg hq
    change Sim τ (do if (τ.left.scope g).transient = true then _ else _) (do if (τ.right.scope g').transient = true then _ else _) _
    rw [hl, hr, hlike.transient]
    split
    · exact .raise (.bare ⟨by simp, by simp, by simp⟩)
    · refine Sim.bind (rebind_sim (hτ.kept hg) (hτ.kept hsym) hb ?_ ?_) fun υ _ _ _ h => .pure h.1
      · rw [hl]; exact fun r hin => absurd hin (Scope.not_mem_of_own?_eq_none ho r)
      · rw [hr]; exact fun r hin => absurd hin (Scope.not_mem_of_own?_eq_none ho' r)

/-! ## The scopes of a thread -/

/-- the innermost scopes of the thread -/
theorem current_kept (σ : Tandem th same) : ∃ h h', (σ.left.thread th).scopes.back? = some h ∧
    (σ.right.thread th).scopes.back? = some h' ∧ σ.Kept .scope h h' := by
  have hscopes := List.rel_reverse σ.scopes_kept
  have hsize := σ.fits.inside
  rw [← Array.length_toList, ← List.length_reverse] at hsize
  rw [← Array.getLast?_toList, ← Array.getLast?_toList, List.getLast?_eq_head?_reverse, List.getLast?_eq_head?_reverse]
  generalize (σ.left.thread th).scopes.toList.reverse = l, (σ.right.thread th).scopes.toList.reverse = r at hscopes hsize
  cases hscopes with
  | nil => exact absurd rfl hsize
  | cons hg _ => exact ⟨_, _, rfl, rfl, hg⟩

theorem currentScope_sim (σ : Tandem th same) :
    Sim σ (Act.currentScope th) (Act.currentScope th) fun τ h h' => τ = σ ∧ τ.Kept .scope h h' := by
  obtain ⟨h, h', hh, hh', hk⟩ := σ.current_kept
  refine .read (a := h) (b := h') ?_ ?_ ⟨rfl, hk⟩
  · change (Act.currentScope th).run σ.left = _
    simp [Act.currentScope, Act.run_bind, hh]
    rfl
  · change (Act.currentScope th).run σ.right = _
    simp [Act.currentScope, Act.run_bind, hh']
    rfl

/-- a scope over references that stand for each other -/
theorem newTransient_sim {parent parent' : Outer} {syms syms' : List Handle} {refs refs' : List Value}
    (hparent : parent.Like σ.Kept parent') (hsyms : List.Forall₂ (σ.Kept .symbol) syms syms')
    (hrefs : List.Forall₂ (Value.Leads σ.Kept) refs refs') :
    Sim σ (Act.newTransient th parent syms refs) (Act.newTransient th parent' syms' refs') fun τ h h' => τ.Kept .scope h h' := by
  have htable {s s' : Scope} (hs : s.Like (Corr σ.left σ.right) s') (hn : (s.table.map Prod.fst).Nodup)
      {es es' : List (Handle × Value)} (hes : List.Forall₂ (fun e e' => σ.Kept .symbol e.1 e'.1 ∧ e.2.Leads σ.Kept e'.2) es es') :
      ((es.foldl (fun s e => Scope.insert s e.1 e.2) s).Like (Corr σ.left σ.right)
        (es'.foldl (fun s e => Scope.insert s e.1 e.2) s')) ∧
      ((es.foldl (fun s e => Scope.insert s e.1 e.2) s).table.map Prod.fst).Nodup := by
    induction hes generalizing s s' with
    | nil => exact ⟨hs, hn⟩
    | cons he _ ih =>
      exact ih (insert_like hs he.1.corr (he.2.mono fun _ _ _ => Kept.corr)) (Scope.nodup_insert hn _ _)
  have hzip : List.Forall₂ (fun e e' : Handle × Value => σ.Kept .symbol e.1 e'.1 ∧ e.2.Leads σ.Kept e'.2)
      (syms.zip refs) (syms'.zip refs') := by
    induction hsyms generalizing refs refs' with
    | nil => exact .nil
    | cons hsym _ ih =>
      cases hrefs with
      | nil => exact .nil
      | cons hr hrefs => exact .cons ⟨hsym, hr⟩ (ih hrefs)
  have hempty : Scope.Like (Corr σ.left σ.right) {} {} := ⟨.none, .none, .nil, rfl⟩
  obtain ⟨hlike, hnodup⟩ := htable hempty List.nodup_nil hzip
  unfold Act.newTransient
  rw [hsyms.length_eq, hrefs.length_eq]
  split
  · exact .fault (by simp) (by simp)
  · refine Simulation.QuietSim.sim (allocateScope_sim ?_ ?_)
    · exact ⟨.none, hparent.mono fun _ _ _ => Kept.corr, hlike.table, rfl⟩
    · exact hnodup

/-! ## Promotion -/

/-- bindings of a scope that are still to be looked at -/
structure Pending (sc : Scope) (es : List (Handle × Value)) : Prop where
  distinct : (es.map Prod.fst).Nodup
  bound : ∀ e ∈ es, e ∈ sc.table
  keys : (sc.table.map Prod.fst).Nodup

namespace Pending

variable {sc : Scope} {e : Handle × Value} {es : List (Handle × Value)}

theorem tail (h : Pending sc (e :: es)) : Pending sc es where
  distinct := (List.nodup_cons.1 h.distinct).2
  bound x hx := h.bound x (List.mem_cons_of_mem _ hx)
  keys := h.keys

/-- a symbol is bound to one reference -/
theorem eq (h : Pending sc (e :: es)) {r : Value} (hr : (e.1, r) ∈ sc.table) : r = e.2 :=
  congrArg Prod.snd (List.inj_on_of_nodup_map h.keys hr (h.bound e List.mem_cons_self) rfl)

/-- binding the first symbol anew leaves the others bound as they are -/
theorem insert (h : Pending sc (e :: es)) (r : Value) : Pending (sc.insert e.1 r) es where
  distinct := (List.nodup_cons.1 h.distinct).2
  bound x hx := by
    have hne : x.1 ≠ e.1 := fun heq => (List.nodup_cons.1 h.distinct).1 (heq ▸ List.mem_map_of_mem hx)
    have hin := h.bound x (List.mem_cons_of_mem _ hx)
    unfold Scope.insert
    split
    · exact List.mem_map.2 ⟨x, hin, if_neg hne⟩
    · exact List.mem_cons_of_mem _ hin
  keys := Scope.nodup_insert h.keys _ _

end Pending

theorem promoteBindings_sim {h h' : Handle} (hk : σ.Kept .scope h h') {es es' : List (Handle × Value)}
    (hes : List.Forall₂ (fun e e' => σ.Kept .symbol e.1 e'.1 ∧ e.2.Leads σ.Kept e'.2) es es')
    (hp : Pending (σ.left.scope h) es) (hp' : Pending (σ.right.scope h') es') :
    Sim σ (Act.promoteBindings h es) (Act.promoteBindings h' es') fun _ _ _ => True := by
  induction es generalizing σ es' with
  | nil => cases hes; exact .pure trivial
  | cons e es ih =>
    cases hes with
    | @cons _ e' _ es' he hes =>
      have hrest : Sim σ (Act.promoteBindings h es) (Act.promoteBindings h' es') fun _ _ _ => True :=
        ih hk hes hp.tail hp'.tail
      obtain ⟨sym, r⟩ := e
      obtain ⟨sym', r'⟩ := e'
      obtain ⟨hsym, hr⟩ := he
      simp only at hsym hr
      unfold Act.promoteBindings
      cases hr with
      | box _ => exact hrest
      | car _ => exact hrest
      | cdr _ => exact hrest
      | stack id i =>
        refine Sim.get ?_
        have hload := (load_like (σ := σ) (.stack id i)).1
        refine (Sim.of_quiet (allocateBox_sim hload)).bind fun τ b b' hτ hb => ?_
        obtain ⟨hq, hb⟩ := hb
        obtain ⟨hl, hr⟩ := scope_quiet hk hq
        refine (rebind_sim (hτ.kept hk) (hτ.kept hsym) hb ?_ ?_).bind fun υ _ _ hυ hscopes => ?_
        · rw [hl]
          intro r hin
          rw [hp.eq hin]
          rintro t k ⟨⟩
        · rw [hr]
          intro r hin
          rw [hp'.eq hin]
          rintro t k ⟨⟩
        · obtain ⟨-, hleft, hright⟩ := hscopes
          refine ih (hυ.kept (hτ.kept hk)) (hes.imp fun _ _ he => ?_) ?_ ?_
          · exact ⟨hυ.kept (hτ.kept he.1), hυ.placed (hτ.placed he.2)⟩
          · rw [hleft, hl]; exact hp.insert _
          · rw [hright, hr]; exact hp'.insert _

theorem promoteWithin_sim (n : Nat) {h h' : Handle} (hk : σ.Kept .scope h h') :
    Sim σ (Act.promoteWithin n h) (Act.promoteWithin n h') fun _ _ _ => True := by
  induction n generalizing σ h h' with
  | zero => exact .fault (by simp) (by simp)
  | succ n ih =>
    unfold Act.promoteWithin
    have hown {τ : Tandem th same} (hk : τ.Kept .scope h h') :
        Sim τ (do
            let s := (← get).scope h
            if s.transient then
              Act.promoteBindings h s.table
              Act.onScope h ({ · with transient := false }))
          (do
            let s := (← get).scope h'
            if s.transient then
              Act.promoteBindings h' s.table
              Act.onScope h' ({ · with transient := false })) fun _ _ _ => True := by
      refine Sim.get ?_
      obtain ⟨-, -, -, -, -, -, -, hlike⟩ := scope_like hk
      obtain ⟨hkeys, hkeys'⟩ := nodup_scope hk
      change Sim τ (if (τ.left.scope h).transient = true then _ else _) (if (τ.right.scope h').transient = true then _ else _) _
      rw [hlike.transient]
      split
      · refine (promoteBindings_sim hk hlike.table ⟨hkeys, fun _ => id, hkeys⟩ ⟨hkeys', fun _ => id, hkeys'⟩).bind
          fun υ _ _ hυ _ => ?_
        have hk := hυ.kept hk
        obtain ⟨-, -, -, -, -, -, -, hlike⟩ := scope_like hk
        obtain ⟨hkeys, hkeys'⟩ := nodup_scope hk
        refine Sim.mono (onScope_sim hk ⟨rfl, rfl, fun e he => ⟨e.2, he, fun _ _ _ => rfl⟩, hkeys⟩
          ⟨rfl, rfl, fun e he => ⟨e.2, he, fun _ _ _ => rfl⟩, hkeys'⟩ ?_) fun _ _ _ _ _ => trivial
        exact { hlike.mono fun _ _ _ => Kept.corr with transient := rfl }
      · exact .pure trivial
    refine Sim.get ?_
    obtain ⟨-, -, -, -, -, -, -, hlike⟩ := scope_like hk
    have hparent := hlike.parent
    simp only [Simulation.left, Simulation.right]
    generalize (σ.left.scope h).parent = p, (σ.right.scope h').parent = p' at hparent
    cases hparent with
    | none => exact hown hk
    | scope hp => exact (ih hp).bind fun τ _ _ hτ _ => hown (hτ.kept hk)

theorem promote_sim {h h' : Handle} (hk : σ.Kept .scope h h') :
    Sim σ (Act.promote h) (Act.promote h') fun _ _ _ => True := by
  unfold Act.promote
  refine Sim.get ?_
  rw [show (Simulation.left σ).heap.births = (Simulation.right σ).heap.births from σ.agree.store.births]
  exact promoteWithin_sim _ hk

theorem scopeForFunction_sim (σ : Tandem th same) :
    Sim σ (Act.scopeForFunction th) (Act.scopeForFunction th) fun τ h h' => τ.Kept .scope h h' := by
  unfold Act.scopeForFunction
  refine (currentScope_sim σ).bind ?_
  rintro τ h h' _ ⟨rfl, hk⟩
  exact (promote_sim hk).bind fun υ _ _ hυ _ => .pure (hυ.kept hk)

end LispMachine.Tandem
