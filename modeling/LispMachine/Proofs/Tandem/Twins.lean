/-
Twin tables: the same objects under different handles.

Two tables that have made the same allocations in the same order know their objects by serial number, even if passes have
released different ones of them meanwhile: handles correspond if they name objects with one serial number. Two tables agree if
all objects that both still have are alike, with references to boxes and fields that correspond.
-/
import LispMachine.Proofs.Tandem.Store

namespace LispMachine

variable {ρ ρ' : Kind → Handle → Handle → Prop}

theorem forall₂_imp_mem {α β : Type} {R R' : α → β → Prop} {xs : List α} {ys : List β} (h : List.Forall₂ R xs ys)
    (himp : ∀ x ∈ xs, ∀ y ∈ ys, R x y → R' x y) : List.Forall₂ R' xs ys := by
  induction h with
  | nil => exact .nil
  | cons hxy _ ih =>
    refine .cons (himp _ (by simp) _ (by simp) hxy) (ih fun x hx y hy => himp x ?_ y ?_)
    · exact List.mem_cons_of_mem _ hx
    · exact List.mem_cons_of_mem _ hy

theorem forall₂_exists {α β : Type} {R : α → β → Prop} {xs : List α} {ys : List β} (h : List.Forall₂ R xs ys) {x : α}
    (hx : x ∈ xs) : ∃ y ∈ ys, R x y := by
  induction h with
  | nil => cases hx
  | @cons a b _ _ hab _ ih =>
    rcases List.mem_cons.1 hx with rfl | hx
    · exact ⟨b, List.mem_cons_self, hab⟩
    · obtain ⟨y, hy, hxy⟩ := ih hx
      exact ⟨y, List.mem_cons_of_mem _ hy, hxy⟩

/-! ## References and scopes -/

/-- references to stack slots of one number, or to fields of objects that stand for each other -/
inductive Value.Leads (ρ : Kind → Handle → Handle → Prop) : Value → Value → Prop where
  | stack (id i : Nat) : Leads ρ (.ref (.stack id i)) (.ref (.stack id i))
  | box {h h' : Handle} : ρ .box h h' → Leads ρ (.ref (.box h)) (.ref (.box h'))
  | car {h h' : Handle} : ρ .cons h h' → Leads ρ (.ref (.car h)) (.ref (.car h'))
  | cdr {h h' : Handle} : ρ .cons h h' → Leads ρ (.ref (.cdr h)) (.ref (.cdr h'))

/-- scopes with bindings that stand for each other in the same order -/
structure Scope.Like (ρ : Kind → Handle → Handle → Prop) (s s' : Scope) : Prop where
  name : Option.Rel (ρ .symbol) s.name s'.name
  parent : s.parent.Like ρ s'.parent
  table : List.Forall₂ (fun e e' => ρ .symbol e.1 e'.1 ∧ e.2.Leads ρ e'.2) s.table s'.table
  transient : s.transient = s'.transient

/-- alike objects, scopes with all their bindings -/
structure Cell.Same (ρ : Kind → Handle → Handle → Prop) (c c' : Cell) : Prop where
  like : c.Like ρ c'
  scope : ∀ s s', c = .scope s → c' = .scope s' → s.Like ρ s'

theorem Value.Leads.isReference {v v' : Value} (h : v.Leads ρ v') : v.isReference = true ∧ v'.isReference = true := by
  cases h <;> exact ⟨rfl, rfl⟩

theorem Value.Leads.needsPin_eq {v v' : Value} (h : v.Leads ρ v') : v.needsPin = v'.needsPin := by cases h <;> rfl

theorem Value.Leads.mono {v v' : Value} (hρ : ∀ k h h', ρ k h h' → ρ' k h h') (h : v.Leads ρ v') : v.Leads ρ' v' := by
  cases h with
  | stack id i => exact .stack id i
  | box h => exact .box (hρ _ _ _ h)
  | car h => exact .car (hρ _ _ _ h)
  | cdr h => exact .cdr (hρ _ _ _ h)

theorem Scope.Like.mono {s s' : Scope} (hρ : ∀ k h h', ρ k h h' → ρ' k h h') (h : s.Like ρ s') : s.Like ρ' s' where
  name := optionRel_mono (hρ _) h.name
  parent := h.parent.mono hρ
  table := h.table.imp fun _ _ he => ⟨hρ _ _ _ he.1, he.2.mono hρ⟩
  transient := h.transient

theorem Cell.Same.mono {c c' : Cell} (hρ : ∀ k h h', ρ k h h' → ρ' k h h') (h : c.Same ρ c') : c.Same ρ' c' where
  like := h.like.mono hρ
  scope s s' hs hs' := (h.scope s s' hs hs').mono hρ

theorem Cell.Like.kind_eq {c c' : Cell} (h : c.Like ρ c') : c.kind = c'.kind := by cases h <;> rfl

theorem Cell.Like.same {c c' : Cell} (h : c.Like ρ c') (hk : c.kind ≠ .scope) : c.Same ρ c' where
  like := h
  scope _ _ hs _ := absurd (hs ▸ rfl) hk

theorem Scope.Like.same {s s' : Scope} (h : s.Like ρ s') : (Cell.scope s).Same ρ (.scope s') where
  like := .scope h.name
  scope t t' ht ht' := by cases ht; cases ht'; exact h

/-! ## Tables -/

/-- bindings of two scopes that stand for each other in the same order; what a symbol is bound to may depend on the symbol -/
def Scope.Tables (S : Handle → Handle → Prop) (V : Handle → Value → Value → Prop) (s s' : Scope) : Prop :=
  List.Forall₂ (fun e e' => S e.1 e'.1 ∧ V e.1 e.2 e'.2) s.table s'.table

/-- binding a symbol changes nothing but the table -/
theorem Scope.insert_eq (s : Scope) (sym : Handle) (r : Value) :
    s.insert sym r = { s with table := (s.insert sym r).table } := by
  unfold Scope.insert
  split <;> rfl

@[simp] theorem Scope.insert_name (s : Scope) (sym : Handle) (r : Value) : (s.insert sym r).name = s.name := by
  rw [s.insert_eq]

@[simp] theorem Scope.insert_parent (s : Scope) (sym : Handle) (r : Value) : (s.insert sym r).parent = s.parent := by
  rw [s.insert_eq]

@[simp] theorem Scope.insert_transient (s : Scope) (sym : Handle) (r : Value) :
    (s.insert sym r).transient = s.transient := by
  rw [s.insert_eq]

theorem Scope.own?_isSome_of_mem {sc : Scope} {sym : Handle} {r : Value} (h : (sym, r) ∈ sc.table) :
    (sc.own? sym).isSome = true := by
  simp only [Scope.own?, List.lookup_isSome_iff]
  exact ⟨_, h, beq_self_eq_true sym⟩

theorem Scope.nodup_insert {sc : Scope} (hkeys : (sc.table.map Prod.fst).Nodup) (sym : Handle) (r : Value) :
    ((sc.insert sym r).table.map Prod.fst).Nodup := by
  unfold Scope.insert
  split
  · have hfst : (fun e : Handle × Value => (if e.1 = sym then (sym, r) else e).1) = Prod.fst := by
      funext e
      split
      · rename_i heq; exact heq.symm
      · rfl
    rw [List.map_map, Function.comp_def, hfst]
    exact hkeys
  · rename_i hnone
    refine List.nodup_cons.2 ⟨fun hmem => hnone ?_, hkeys⟩
    obtain ⟨⟨x, v⟩, he, rfl⟩ := List.mem_map.1 hmem
    exact Scope.own?_isSome_of_mem he

theorem Scope.mem_insert (sc : Scope) (sym : Handle) (r : Value) : (sym, r) ∈ (sc.insert sym r).table := by
  unfold Scope.insert
  split
  · rename_i hsome
    obtain ⟨v, hv⟩ := Option.isSome_iff_exists.1 hsome
    refine List.mem_map.2 ⟨(sym, v), ?_, if_pos rfl⟩
    obtain ⟨before, after, htable, -⟩ := List.lookup_eq_some_iff.1 hv
    simp [htable]
  · exact List.mem_cons_self

/-- a scope that binds every symbol once binds it to one thing -/
theorem Scope.eq_of_mem {sc : Scope} (hkeys : (sc.table.map Prod.fst).Nodup) {sym : Handle} {r r' : Value}
    (h : (sym, r) ∈ sc.table) (h' : (sym, r') ∈ sc.table) : r = r' :=
  congrArg Prod.snd (List.inj_on_of_nodup_map hkeys h h' rfl)

/-- a binding that is replaced is there no more -/
theorem Scope.mem_of_mem_insert {sc : Scope} {sym : Handle} {r : Value} {e : Handle × Value}
    (h : e ∈ (sc.insert sym r).table) : e = (sym, r) ∨ e ∈ sc.table ∧ e.1 ≠ sym := by
  unfold Scope.insert at h
  split at h
  · obtain ⟨d, hd, rfl⟩ := List.mem_map.1 h
    split
    · exact .inl rfl
    · rename_i hne
      exact .inr ⟨hd, hne⟩
  · rename_i hnone
    rcases List.mem_cons.1 h with rfl | hin
    · exact .inl rfl
    · refine .inr ⟨hin, ?_⟩
      rintro rfl
      exact hnone (Scope.own?_isSome_of_mem hin)

theorem Scope.mem_insert_of_ne {sc : Scope} {sym : Handle} {e : Handle × Value} (h : e ∈ sc.table) (hne : e.1 ≠ sym)
    (r : Value) : e ∈ (sc.insert sym r).table := by
  unfold Scope.insert
  split
  · exact List.mem_map.2 ⟨e, h, if_neg hne⟩
  · exact List.mem_cons_of_mem _ h

theorem Scope.not_mem_of_own?_eq_none {sc : Scope} {sym : Handle} (h : sc.own? sym = none) (r : Value) : (sym, r) ∉ sc.table := by
  intro hin
  have hne := List.lookup_eq_none_iff.1 h (sym, r) hin
  simp at hne

section

variable {S : Handle → Handle → Prop} {V : Handle → Value → Value → Prop}
  (hunique : ∀ a a' b b', S a a' → S b b' → (a = b ↔ a' = b')) {s s' : Scope} (hs : s.Tables S V s') {sym sym' : Handle}
  (hsym : S sym sym')
include hunique hs hsym

/-- alike tables bind alike symbols to what stands for each other, if no symbol stands for two -/
theorem Scope.Tables.own? : Option.Rel (V sym) (s.own? sym) (s'.own? sym') := by
  unfold Scope.own?
  unfold Scope.Tables at hs
  generalize s.table = table, s'.table = table' at hs
  induction hs with
  | nil => exact .none
  | @cons e e' table table' he _ ih =>
    obtain ⟨k, v⟩ := e
    obtain ⟨k', v'⟩ := e'
    have hiff := hunique _ _ _ _ hsym he.1
    simp only [List.lookup_cons, show (sym == k) = (sym' == k') by simp only [Bool.beq_eq_decide_eq, hiff]]
    split
    · rename_i heq
      obtain rfl := eq_of_beq (hiff.2 (eq_of_beq heq) ▸ beq_self_eq_true sym : (sym == k) = true)
      exact .some he.2
    · exact ih

/-- tables stay alike when a symbol is bound in both -/
theorem Scope.Tables.insert {r r' : Value} (hr : V sym r r') : (s.insert sym r).Tables S V (s'.insert sym' r') := by
  have hown := hs.own? hunique hsym
  unfold Scope.insert Scope.Tables
  generalize s.own? sym = o, s'.own? sym' = o' at hown
  cases hown with
  | none => exact .cons ⟨hsym, hr⟩ hs
  | some _ =>
    simp only [Option.isSome_some, if_true]
    rw [List.forall₂_map_left_iff, List.forall₂_map_right_iff]
    refine hs.imp fun e e' he => ?_
    simp only [hunique _ _ _ _ he.1 hsym]
    split
    · exact ⟨hsym, hr⟩
    · exact he

end

/-! ## Only what is spoken of counts -/

theorem Value.Like.mono_names {v v' : Value} (hρ : ∀ k h h', v.Names h k → v'.Names h' k → ρ k h h' → ρ' k h h')
    (h : v.Like ρ v') : v.Like ρ' v' := by
  cases h with
  | cons h => exact .cons (hρ _ _ _ (.cons _) (.cons _) h)
  | symbol h => exact .symbol (hρ _ _ _ (.symbol _) (.symbol _) h)
  | scope h => exact .scope (hρ _ _ _ (.scope _) (.scope _) h)
  | function h => exact .function (hρ _ _ _ (.function _) (.function _) h)
  | error mood h => exact .error mood (hρ _ _ _ (.error _ _) (.error _ _) h)
  | _ => constructor

theorem Value.Leads.mono_names {v v' : Value} (hρ : ∀ k h h', v.Names h k → v'.Names h' k → ρ k h h' → ρ' k h h')
    (h : v.Leads ρ v') : v.Leads ρ' v' := by
  cases h with
  | stack id i => exact .stack id i
  | box h => exact .box (hρ _ _ _ (.boxField _) (.boxField _) h)
  | car h => exact .car (hρ _ _ _ (.carField _) (.carField _) h)
  | cdr h => exact .cdr (hρ _ _ _ (.cdrField _) (.cdrField _) h)

section

variable {c c' : Cell} (hρ : ∀ k h h', c.Mentions h k → c'.Mentions h' k → ρ k h h' → ρ' k h h')
include hρ

theorem Function.Like.mono_mentions {f f' : Function} (hc : c = .function f) (hc' : c' = .function f')
    (h : f.Like ρ f') : f.Like ρ' f' := by
  subst hc hc'
  have hparam {xs xs' : List Handle} (hsub : xs ⊆ f.params.symbols) (hsub' : xs' ⊆ f'.params.symbols)
      (hxs : List.Forall₂ (ρ .symbol) xs xs') : List.Forall₂ (ρ' .symbol) xs xs' :=
    forall₂_imp_mem hxs fun x hx y hy => hρ _ _ _ (.param (hsub hx)) (.param (hsub' hy))
  have hvalue {v v' : Value} (hm : ∀ t k, v.Names t k → (Cell.function f).Names t k)
      (hm' : ∀ t k, v'.Names t k → (Cell.function f').Names t k) (hv : v.Like ρ v') : v.Like ρ' v' :=
    hv.mono_names fun k t t' ht ht' => hρ k t t' (.names (hm t k ht)) (.names (hm' t' k ht'))
  obtain ⟨hname, hparams, hbody⟩ := h
  refine ⟨?_, ⟨?_, ?_, ?_, ?_, ?_⟩, ?_⟩
  · revert hname
    generalize hn : f.name = n, hn' : f'.name = n'
    rintro (h | _)
    · exact .some (hρ _ _ _ (.names (.functionName hn)) (.names (.functionName hn')) h)
    · exact .none
  · exact hparam (by simp [Params.symbols]) (by simp [Params.symbols]) hparams.required
  · exact hparam (by simp [Params.symbols]) (by simp [Params.symbols]) hparams.optional
  · have hrest := hparams.rest
    revert hrest
    generalize hn : f.params.rest = n, hn' : f'.params.rest = n'
    rintro (h | _)
    · refine .some (hρ _ _ _ (.param ?_) (.param ?_) h)
      · simp [Params.symbols, hn]
      · simp [Params.symbols, hn']
    · exact .none
  · exact hparam (List.subset_append_right ..) (List.subset_append_right ..) hparams.keys
  · exact hvalue (fun _ _ => .params) (fun _ _ => .params) hparams.source
  · revert hbody
    generalize hb : f.body = b, hb' : f'.body = b'
    rintro (@⟨list, list', outer, outer', hlist, houter⟩ | ⟨p, special⟩)
    · refine .forms (hvalue (fun _ _ => .body hb) (fun _ _ => .body hb') hlist) ?_
      revert houter
      rintro (_ | h)
      · exact .none
      · exact .scope (hρ _ _ _ (.names (.captured hb)) (.names (.captured hb')) h)
    · exact .primitive p special

theorem Scope.Like.mono_mentions {s s' : Scope} (hc : c = .scope s) (hc' : c' = .scope s') (h : s.Like ρ s') :
    s.Like ρ' s' := by
  subst hc hc'
  obtain ⟨hname, hparent, htable, htransient⟩ := h
  refine ⟨?_, ?_, ?_, htransient⟩
  · revert hname
    generalize hn : s.name = n, hn' : s'.name = n'
    rintro (h | _)
    · exact .some (hρ _ _ _ (.names (.scopeName hn)) (.names (.scopeName hn')) h)
    · exact .none
  · revert hparent
    generalize hn : s.parent = n, hn' : s'.parent = n'
    rintro (_ | h)
    · exact .none
    · exact .scope (hρ _ _ _ (.names (.parent hn)) (.names (.parent hn')) h)
  · refine forall₂_imp_mem htable fun e he e' he' hee => ⟨?_, ?_⟩
    · exact hρ _ _ _ (.names (.bound he)) (.names (.bound he')) hee.1
    · exact hee.2.mono_names fun k t t' ht ht' => hρ k t t' (.names (.binding he ht)) (.names (.binding he' ht'))

theorem Cell.Same.mono_mentions (h : c.Same ρ c') : c.Same ρ' c' := by
  refine ⟨?_, fun s s' hs hs' => (h.scope s s' hs hs').mono_mentions hρ hs hs'⟩
  have hvalue {v v' : Value} (hm : ∀ t k, v.Names t k → c.Names t k) (hm' : ∀ t k, v'.Names t k → c'.Names t k)
      (hv : v.Like ρ v') : v.Like ρ' v' :=
    hv.mono_names fun k t t' ht ht' => hρ k t t' (.names (hm t k ht)) (.names (hm' t' k ht'))
  have hlike := h.like
  have hscope := h.scope
  generalize hc : c = d, hc' : c' = d' at hlike hscope
  cases hlike with
  | cons ha hd =>
    subst hc hc'
    exact .cons (hvalue (fun _ _ => .car) (fun _ _ => .car) ha) (hvalue (fun _ _ => .cdr) (fun _ _ => .cdr) hd)
  | symbol name => exact .symbol name
  | scope _ => exact .scope ((hscope _ _ rfl rfl).mono_mentions hρ hc hc').name
  | function hf => exact .function (hf.mono_mentions hρ hc hc')
  | @error e e' he =>
    subst hc hc'
    obtain ⟨hkind, hname, hfirst, hsecond⟩ := he
    refine .error ⟨hkind, ?_, hvalue (fun _ _ => .first) (fun _ _ => .first) hfirst,
      hvalue (fun _ _ => .second) (fun _ _ => .second) hsecond⟩
    revert hname
    generalize hn : e.name = n, hn' : e'.name = n'
    rintro (h | _)
    · exact .some (hρ _ _ _ (.names (.errorName hn)) (.names (.errorName hn')) h)
    · exact .none
  | box hv => subst hc hc'; exact .box (hvalue (fun _ _ => .content) (fun _ _ => .content) hv)

end

/-! ## Corresponding handles -/

namespace Heap

/-- two handles name objects of one kind that were made at the same time -/
def Corr (hp hp' : Heap) (k : Kind) (h h' : Handle) : Prop :=
  ∃ s s', hp.slot? h = some s ∧ hp'.slot? h' = some s' ∧ s.serial = s'.serial ∧ s.cell.kind = k ∧ s'.cell.kind = k

/-- two tables hold the same objects, as far as both still have them -/
structure Agree (hp hp' : Heap) : Prop where
  births : hp.births = hp'.births
  cells : ∀ h h' s s', hp.slot? h = some s → hp'.slot? h' = some s' → s.serial = s'.serial →
    s.cell.Same (hp.Corr hp') s'.cell ∧ s.text = s'.text

variable {hp hp' hp₁ hp₁' : Heap} {epoch epoch' : Nat} {k : Kind} {h h' : Handle}

theorem Corr.mono (hl : hp.Labelled hp₁) (hl' : hp'.Labelled hp₁') (hc : hp.Corr hp' k h h') :
    hp₁.Corr hp₁' k h h' := by
  obtain ⟨s, s', hs, hs', hserial, hk, hk'⟩ := hc
  obtain ⟨u, hu, hlabel⟩ := hl h s hs
  obtain ⟨u', hu', hlabel'⟩ := hl' h' s' hs'
  simp only [Slot.label, Prod.mk.injEq] at hlabel hlabel'
  exact ⟨u, u', hu, hu', by rw [hlabel.1, hlabel'.1, hserial], by rw [hlabel.2.2, hk], by rw [hlabel'.2.2, hk']⟩

theorem Corr.unique (ht : hp.Tidy epoch) (ht' : hp'.Tidy epoch') {l : Kind} {g g' : Handle} (hh : hp.Corr hp' k h h')
    (hg : hp.Corr hp' l g g') : h = g ↔ h' = g' := by
  obtain ⟨s, s', hs, hs', hserial, -⟩ := hh
  obtain ⟨u, u', hu, hu', hserial', -⟩ := hg
  constructor
  · rintro rfl
    obtain rfl := Option.some.inj (hs.symm.trans hu)
    exact ht'.serial_inj _ _ _ _ hs' hu' (hserial.symm.trans hserial')
  · rintro rfl
    obtain rfl := Option.some.inj (hs'.symm.trans hu')
    exact ht.serial_inj _ _ _ _ hs hu (hserial.trans hserial'.symm)

theorem Corr.kind? (hc : hp.Corr hp' k h h') : hp.kind? h = some k ∧ hp'.kind? h' = some k := by
  obtain ⟨s, s', hs, hs', -, hk, hk'⟩ := hc
  exact ⟨kind?_eq_some.2 ⟨_, cell?_of_slot? hs, hk⟩, kind?_eq_some.2 ⟨_, cell?_of_slot? hs', hk'⟩⟩

/-- in one and the same table only equal handles correspond -/
theorem Corr.eq (ht : hp.Tidy epoch) (hc : hp.Corr hp k h h') : h = h' := by
  obtain ⟨s, s', hs, hs', hserial, -⟩ := hc
  exact ht.serial_inj _ _ _ _ hs hs' hserial

/-! ## Operations on two tables -/

/-- the new objects of two tables correspond -/
theorem corr_insert (ht : hp.Tidy epoch) (ht' : hp'.Tidy epoch') (ha : hp.Agree hp') {c c' : Cell} {text : Bool}
    (hk : c.kind = k) (hk' : c'.kind = k) :
    (hp.insert c epoch text).Corr (hp'.insert c' epoch' text) k hp.nextHandle hp'.nextHandle :=
  ⟨_, _, ht.slot?_new c text, ht'.slot?_new c' text, ha.births, hk, hk'⟩

theorem Agree.insert (ht : hp.Tidy epoch) (ht' : hp'.Tidy epoch') (ha : hp.Agree hp') {c c' : Cell} {text : Bool}
    (hc : c.Same (hp.Corr hp') c') : (hp.insert c epoch text).Agree (hp'.insert c' epoch' text) := by
  have hmono : ∀ k h h', hp.Corr hp' k h h' → (hp.insert c epoch text).Corr (hp'.insert c' epoch' text) k h h' :=
    fun k h h' => .mono (ht.grows_insert c text).labelled (ht'.grows_insert c' text).labelled
  refine ⟨by rw [births_insert, births_insert, ha.births], fun h h' s s' hs hs' hserial => ?_⟩
  rw [ht.slot?_insert] at hs
  rw [ht'.slot?_insert] at hs'
  split at hs <;> split at hs'
  · obtain rfl := Option.some.inj hs
    obtain rfl := Option.some.inj hs'
    exact ⟨hc.mono hmono, rfl⟩
  · -- an object that was there before is older than a new one
    obtain rfl := Option.some.inj hs
    exact absurd (ht'.serial_lt _ _ hs') (by simp [← hserial, ha.births])
  · obtain rfl := Option.some.inj hs'
    exact absurd (ht.serial_lt _ _ hs) (by simp [hserial, ha.births])
  · obtain ⟨hsame, htext⟩ := ha.cells h h' s s' hs hs' hserial
    exact ⟨hsame.mono hmono, htext⟩

theorem Agree.write (ht : hp.Tidy epoch) (ht' : hp'.Tidy epoch') (ha : hp.Agree hp') {s s' : Slot} {c c' : Cell}
    (hs : hp.slot? h = some s) (hs' : hp'.slot? h' = some s') (hserial : s.serial = s'.serial)
    (hk : c.kind = s.cell.kind) (hk' : c'.kind = s'.cell.kind) (hc : c.Same (hp.Corr hp') c') :
    (hp.write h c).Agree (hp'.write h' c') := by
  have hmono : ∀ k g g', hp.Corr hp' k g g' → (hp.write h c).Corr (hp'.write h' c') k g g' :=
    fun k g g' => .mono (labelled_write hs hk) (labelled_write hs' hk')
  refine ⟨by rw [write_births, write_births, ha.births], fun g g' u u' hu hu' hser => ?_⟩
  rw [slot?_write] at hu hu'
  split at hu <;> split at hu'
  · rw [hs] at hu
    rw [hs'] at hu'
    obtain rfl := Option.some.inj hu
    obtain rfl := Option.some.inj hu'
    exact ⟨hc.mono hmono, (ha.cells h h' s s' hs hs' hserial).2⟩
  · rename_i hg hg'
    rw [hs] at hu
    obtain rfl := Option.some.inj hu
    exact absurd (ht'.serial_inj _ _ _ _ hu' hs' (hser.symm.trans hserial)) hg'
  · rename_i hg hg'
    rw [hs'] at hu'
    obtain rfl := Option.some.inj hu'
    exact absurd (ht.serial_inj _ _ _ _ hu hs (hser.trans hserial.symm)) hg
  · obtain ⟨hsame, htext⟩ := ha.cells g g' u u' hu hu' hser
    exact ⟨hsame.mono hmono, htext⟩

/-- what a pass leaves of a table: objects as they were, with all they speak of -/
structure Pruned (hp hp' : Heap) : Prop where
  births : hp'.births = hp.births
  kept : ∀ h s', hp'.slot? h = some s' → ∃ s, hp.slot? h = some s ∧ s.cell = s'.cell ∧ s.serial = s'.serial ∧ s.text = s'.text
  closed : ∀ h c t k, hp'.cell? h = some c → c.Mentions t k → (hp'.slot? t).isSome

theorem Sound.pruned (hs : hp.Sound epoch) : hp.Pruned hp where
  births := rfl
  kept _ s h := ⟨s, h, rfl, rfl, rfl⟩
  closed h c t k hc hm := isSome_of_kind? (hs.held h c hc t k hm)

/-- what corresponds goes on corresponding where both passes have left it -/
theorem Corr.pruned (hp₀ : hp.Pruned hp₁) (hp₀' : hp'.Pruned hp₁') (hc : hp.Corr hp' k h h') (hin : (hp₁.slot? h).isSome)
    (hin' : (hp₁'.slot? h').isSome) : hp₁.Corr hp₁' k h h' := by
  obtain ⟨s, s', hs, hs', hserial, hk, hk'⟩ := hc
  obtain ⟨u, hu⟩ := Option.isSome_iff_exists.1 hin
  obtain ⟨u', hu'⟩ := Option.isSome_iff_exists.1 hin'
  obtain ⟨v, hv, hcell, hser, -⟩ := hp₀.kept h u hu
  obtain ⟨v', hv', hcell', hser', -⟩ := hp₀'.kept h' u' hu'
  obtain rfl := Option.some.inj (hs.symm.trans hv)
  obtain rfl := Option.some.inj (hs'.symm.trans hv')
  exact ⟨u, u', hu, hu', by rw [← hser, ← hser', hserial], by rw [← hcell, hk], by rw [← hcell', hk']⟩

theorem Agree.pruned (ha : hp.Agree hp') (hp₀ : hp.Pruned hp₁) (hp₀' : hp'.Pruned hp₁') : hp₁.Agree hp₁' := by
  refine ⟨by rw [hp₀.births, hp₀'.births, ha.births], fun h h' u u' hu hu' hser => ?_⟩
  obtain ⟨s, hs, hcell, hserial, htext⟩ := hp₀.kept h u hu
  obtain ⟨s', hs', hcell', hserial', htext'⟩ := hp₀'.kept h' u' hu'
  obtain ⟨hsame, hflag⟩ := ha.cells h h' s s' hs hs' (by rw [hserial, hserial', hser])
  refine ⟨?_, by rw [← htext, ← htext', hflag]⟩
  rw [hcell, hcell'] at hsame
  refine hsame.mono_mentions fun k t t' ht ht' hc => hc.pruned hp₀ hp₀' ?_ ?_
  · exact hp₀.closed h _ t k (cell?_of_slot? hu) ht
  · exact hp₀'.closed h' _ t' k (cell?_of_slot? hu') ht'

end Heap

/-! ## In one and the same table only equal values are alike -/

section

variable {hp : Heap} {epoch : Nat}

theorem Value.Like.eq {v v' : Value} (ht : hp.Tidy epoch) (h : v.Like (hp.Corr hp) v') : v = v' := by
  cases h with
  | cons h => rw [h.eq ht]
  | symbol h => rw [h.eq ht]
  | scope h => rw [h.eq ht]
  | function h => rw [h.eq ht]
  | error mood h => rw [h.eq ht]
  | _ => rfl

theorem Value.Leads.eq {v v' : Value} (ht : hp.Tidy epoch) (h : v.Leads (hp.Corr hp) v') : v = v' := by
  cases h with
  | stack id i => rfl
  | box h => rw [h.eq ht]
  | car h => rw [h.eq ht]
  | cdr h => rw [h.eq ht]

theorem optionRel_eq {o o' : Option Handle} {k : Kind} (ht : hp.Tidy epoch) (h : Option.Rel (hp.Corr hp k) o o') : o = o' := by
  cases h with
  | some h => rw [h.eq ht]
  | none => rfl

theorem forall₂_eq {α : Type} {R : α → α → Prop} (hR : ∀ a b, R a b → a = b) {xs ys : List α} (h : List.Forall₂ R xs ys) :
    xs = ys := by
  have heq := h.imp hR
  rwa [List.forall₂_eq_eq_eq] at heq

theorem Outer.Like.eq {o o' : Outer} (ht : hp.Tidy epoch) (h : o.Like (hp.Corr hp) o') : o = o' := by
  cases h with
  | none => rfl
  | scope h => rw [h.eq ht]

theorem Scope.Like.eq {s s' : Scope} (ht : hp.Tidy epoch) (h : s.Like (hp.Corr hp) s') : s = s' := by
  obtain ⟨name, parent, table, transient⟩ := s
  obtain ⟨name', parent', table', transient'⟩ := s'
  obtain ⟨hname, hparent, htable, htransient⟩ := h
  obtain rfl : name = name' := optionRel_eq ht hname
  obtain rfl : parent = parent' := hparent.eq ht
  obtain rfl : table = table' := forall₂_eq (fun e e' he => Prod.ext (he.1.eq ht) (he.2.eq ht)) htable
  obtain rfl : transient = transient' := htransient
  rfl

theorem Params.Like.eq {p p' : Params} (ht : hp.Tidy epoch) (h : p.Like (hp.Corr hp) p') : p = p' := by
  obtain ⟨required, optional, rest, keys, source⟩ := p
  obtain ⟨required', optional', rest', keys', source'⟩ := p'
  obtain ⟨hrequired, hoptional, hrest, hkeys, hsource⟩ := h
  obtain rfl : required = required' := forall₂_eq (fun _ _ => Heap.Corr.eq ht) hrequired
  obtain rfl : optional = optional' := forall₂_eq (fun _ _ => Heap.Corr.eq ht) hoptional
  obtain rfl : rest = rest' := optionRel_eq ht hrest
  obtain rfl : keys = keys' := forall₂_eq (fun _ _ => Heap.Corr.eq ht) hkeys
  obtain rfl : source = source' := hsource.eq ht
  rfl

theorem Function.Like.eq {f f' : Function} (ht : hp.Tidy epoch) (h : f.Like (hp.Corr hp) f') : f = f' := by
  obtain ⟨name, params, body⟩ := f
  obtain ⟨name', params', body'⟩ := f'
  obtain ⟨hname, hparams, hbody⟩ := h
  obtain rfl : name = name' := optionRel_eq ht hname
  obtain rfl : params = params' := hparams.eq ht
  obtain rfl : body = body' := by
    revert hbody
    simp only
    rintro (⟨hlist, houter⟩ | ⟨p, special⟩)
    · rw [hlist.eq ht, houter.eq ht]
    · rfl
  rfl

theorem ErrorObject.Like.eq {e e' : ErrorObject} (ht : hp.Tidy epoch) (h : e.Like (hp.Corr hp) e') : e = e' := by
  obtain ⟨kind, name, first, second⟩ := e
  obtain ⟨kind', name', first', second'⟩ := e'
  obtain ⟨hkind, hname, hfirst, hsecond⟩ := h
  obtain rfl : kind = kind' := hkind
  obtain rfl : name = name' := optionRel_eq ht hname
  obtain rfl : first = first' := hfirst.eq ht
  obtain rfl : second = second' := hsecond.eq ht
  rfl

theorem Cell.Same.eq {c c' : Cell} (ht : hp.Tidy epoch) (h : c.Same (hp.Corr hp) c') : c = c' := by
  obtain ⟨hlike, hscope⟩ := h
  cases hlike with
  | cons ha hd => rw [ha.eq ht, hd.eq ht]
  | symbol name => rfl
  | scope _ => rw [(hscope _ _ rfl rfl).eq ht]
  | function hf => rw [hf.eq ht]
  | error he => rw [he.eq ht]
  | box hv => rw [hv.eq ht]

end

end LispMachine
