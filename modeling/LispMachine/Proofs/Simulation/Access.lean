/-
Looking at objects in step.

What a value names is resolved on both sides to objects that are alike, so the same question gets the same answer. Looking
changes nothing: these actions end in the situation they started from.
-/
import LispMachine.Proofs.Simulation

namespace LispMachine.Simulation

variable {S : Type} [Simulation S] {σ τ : S} {v v' : Value}

/-! ## Resolving -/

theorem run_resolve {m : Machine} {h : Handle} {s : Slot} (hv : v.handle? = some h) (hs : m.heap.slot? h = some s) :
    (Act.resolve v).run m = .ok (some s) m := by
  simp only [Act.resolve, hv]
  rw [Act.run_bind]
  simp only [Act.run_get, hs, Act.run_pure]

/-- a hold on a pair, on both sides -/
structure Pair (σ : S) (c c' : Held) : Prop where
  obj : Obj σ .cons c.handle c'.handle
  label : ∃ text, ((left σ).heap.slot? c.handle).map Slot.label = some (c.serial, text, .cons)
  label' : ∃ text, ((right σ).heap.slot? c'.handle).map Slot.label = some (c'.serial, text, .cons)

theorem asCons_sim (hv : Live σ v v') : Sim σ (Act.asCons v) (Act.asCons v') fun τ o o' =>
    τ = σ ∧ Option.Rel (fun c c' => Pair σ c c' ∧ v = .cons c.handle ∧ v' = .cons c'.handle) o o' := by
  cases hv with
  | @cons h h' hk =>
    obtain ⟨s, s', hs, hs', hlike, -, hkind⟩ := view hk
    have hx := run_resolve (v := .cons h) rfl hs
    have hy := run_resolve (v := .cons h') rfl hs'
    unfold Act.asCons
    obtain ⟨c, e, n, text⟩ := s
    obtain ⟨c', e', n', text'⟩ := s'
    cases hlike with
    | cons ha hd =>
      refine .read (a := some ⟨h, n⟩) (b := some ⟨h', n'⟩) ?_ ?_ ⟨rfl, .some ⟨⟨hk, ?_, ?_⟩, rfl, rfl⟩⟩
      · exact Act.bind_ok hx
      · exact Act.bind_ok hy
      · exact ⟨text, by rw [hs]; rfl⟩
      · exact ⟨text', by rw [hs']; rfl⟩
    | _ => exact .read (a := none) (b := none) (Act.bind_ok hx) (Act.bind_ok hy) ⟨rfl, .none⟩
  | _ => exact .pure ⟨rfl, .none⟩

theorem asSymbol_symbol {h h' : Handle} (hk : Kept σ .symbol h h') :
    Sim σ (Act.asSymbol (.symbol h)) (Act.asSymbol (.symbol h')) fun τ o o' => τ = σ ∧ o = some h ∧ o' = some h' := by
  obtain ⟨⟨c, e, n, text⟩, ⟨c', e', n', text'⟩, hs, hs', hlike, -, hkind⟩ := view (obj_of_kept hk)
  have hx := run_resolve (v := .symbol h) rfl hs
  have hy := run_resolve (v := .symbol h') rfl hs'
  unfold Act.asSymbol
  cases hlike with
  | symbol name => exact .read (a := some h) (b := some h') (Act.bind_ok hx) (Act.bind_ok hy) ⟨rfl, rfl, rfl⟩
  | _ => cases hkind

theorem asSymbol_sim (hv : Val σ v v') : Sim σ (Act.asSymbol v) (Act.asSymbol v') fun τ o o' =>
    τ = σ ∧ Option.Rel (fun h h' => Kept σ .symbol h h' ∧ v = .symbol h) o o' := by
  cases hv with
  | symbol hk =>
    refine (asSymbol_symbol hk).mono ?_
    rintro τ _ _ _ ⟨rfl, rfl, rfl⟩
    exact ⟨rfl, .some ⟨hk, rfl⟩⟩
  | _ => exact .pure ⟨rfl, .none⟩

theorem asScope_sim (hv : Val σ v v') : Sim σ (Act.asScope v) (Act.asScope v') fun τ o o' =>
    τ = σ ∧ Option.Rel (Kept σ .scope) o o' := by
  cases hv with
  | @scope h h' hk =>
    obtain ⟨⟨c, e, n, text⟩, ⟨c', e', n', text'⟩, hs, hs', hlike, -, hkind⟩ := view (obj_of_kept hk)
    have hx := run_resolve (v := .scope h) rfl hs
    have hy := run_resolve (v := .scope h') rfl hs'
    unfold Act.asScope
    cases hlike with
    | scope _ => exact .read (a := some h) (b := some h') (Act.bind_ok hx) (Act.bind_ok hy) ⟨rfl, .some hk⟩
    | _ => exact .read (a := none) (b := none) (Act.bind_ok hx) (Act.bind_ok hy) ⟨rfl, .none⟩
  | _ => exact .pure ⟨rfl, .none⟩

theorem asErrorObject_sim {h h' : Handle} (mood : Mood) (hk : Kept σ .error h h') :
    Sim σ (Act.asErrorObject (.error h mood)) (Act.asErrorObject (.error h' mood)) fun τ o o' =>
      τ = σ ∧ ∃ e e', o = some e ∧ o' = some e' ∧ Err σ e e' := by
  obtain ⟨⟨c, e, n, text⟩, ⟨c', e', n', text'⟩, hs, hs', hlike, -, hkind⟩ := view (obj_of_kept hk)
  have hx := run_resolve (v := .error h mood) rfl hs
  have hy := run_resolve (v := .error h' mood) rfl hs'
  unfold Act.asErrorObject
  cases hlike with
  | @error x x' hxx =>
    refine .read (a := some ⟨⟨h, n⟩, x.kind⟩) (b := some ⟨⟨h', n'⟩, x'.kind⟩) (Act.bind_ok hx) (Act.bind_ok hy)
      ⟨rfl, _, _, rfl, rfl, hk, hxx.kind, ?_, ?_⟩
    · exact ⟨text, by rw [hs]; rfl⟩
    · exact ⟨text', by rw [hs']; rfl⟩
  | _ => cases hkind

/-- functions that stand for each other for good -/
structure Fn (σ : S) (f f' : Function) : Prop where
  like : f.Like (Kept σ) f'
  text : ∀ list outer, f.body = .forms list outer → Runnable σ list
  suits : ∀ p special, f.body = .primitive p special → p.Suits special

theorem Fn.later {f f' : Function} (hle : Later σ τ) (hf : Fn σ f f') : Fn τ f f' where
  like := hf.like.mono fun _ _ _ => hle.kept
  text list outer hbody := by
    have hb : f.body.Like (Kept σ) f'.body := hf.like.body
    rw [hbody] at hb
    generalize f'.body = b at hb
    cases hb with
    | forms hl _ => exact hle.runnable hl (hf.text list outer hbody)
  suits := hf.suits

theorem symbolName_eq {h h' : Handle} (hk : Obj σ .symbol h h') : (left σ).symbolName h = (right σ).symbolName h' := by
  obtain ⟨s, s', hs, hs', hlike, -, hkind⟩ := view hk
  simp only [Machine.symbolName, Machine.cell?, Heap.cell?_of_slot? hs, Heap.cell?_of_slot? hs']
  generalize s.cell = c, s'.cell = c' at hlike
  cases hlike <;> rfl

/-! ## Program text -/

/-- a hold on a pair of program text, on both sides -/
structure TextPair (σ : S) (c c' : Held) : Prop where
  kept : Kept σ .cons c.handle c'.handle
  runnable : Runnable σ (.cons c.handle)
  label : ∃ text, ((left σ).heap.slot? c.handle).map Slot.label = some (c.serial, text, .cons)
  label' : ∃ text, ((right σ).heap.slot? c'.handle).map Slot.label = some (c'.serial, text, .cons)

theorem TextPair.later {c c' : Held} (hle : Later σ τ) (hc : TextPair σ c c') : TextPair τ c c' where
  kept := hle.kept hc.kept
  runnable := hle.runnable (.cons hc.kept) hc.runnable
  label := by rw [(hle.label hc.kept).1]; exact hc.label
  label' := by rw [(hle.label hc.kept).2]; exact hc.label'

/-- the slot of a pair that is held -/
theorem slot_of_label {hp : Heap} {c : Held} {text : Bool}
    (hl : (hp.slot? c.handle).map Slot.label = some (c.serial, text, .cons)) :
    ∃ a d e, hp.slot? c.handle = some ⟨.cons a d, e, c.serial, text⟩ := by
  obtain ⟨⟨cell, e, n, t⟩, hs, he⟩ := Option.map_eq_some_iff.1 hl
  simp only [Slot.label, Prod.mk.injEq] at he
  obtain ⟨rfl, rfl, hkind⟩ := he
  cases cell <;> cases hkind
  exact ⟨_, _, e, hs⟩

theorem run_fieldsOf {m : Machine} {c : Held} {a d : Value} {e : Nat} {text : Bool}
    (hs : m.heap.slot? c.handle = some ⟨.cons a d, e, c.serial, text⟩) : (Act.fieldsOf c).run m = .ok (a, d) m := by
  have hholds : m.holds c = true := by simp [Machine.holds, hs]
  have hfields : m.fields c = (a, d) := by simp [Machine.fields, hs]
  unfold Act.fieldsOf
  rw [Act.run_bind]
  simp only [Act.run_get, hholds, Bool.not_true, Bool.false_eq_true, if_false]
  exact congrArg (EStateM.Result.ok · m) hfields

theorem fieldsOf_sim {c c' : Held} (hc : TextPair σ c c') : Sim σ (Act.fieldsOf c) (Act.fieldsOf c') fun τ p p' =>
    τ = σ ∧ Code σ p.1 p'.1 ∧ Code σ p.2 p'.2 := by
  obtain ⟨text, hl⟩ := hc.label
  obtain ⟨text', hl'⟩ := hc.label'
  obtain ⟨a, d, e, hs⟩ := slot_of_label hl
  obtain ⟨a', d', e', hs'⟩ := slot_of_label hl'
  obtain ⟨ha, hd⟩ := kept_text hc.kept hc.runnable hs rfl hs' rfl
  exact .read (run_fieldsOf hs) (run_fieldsOf hs') ⟨rfl, ha, hd⟩

theorem carOf_sim {c c' : Held} (hc : TextPair σ c c') : Sim σ (Act.carOf c) (Act.carOf c') fun τ a a' =>
    τ = σ ∧ Code σ a a' := by
  unfold Act.carOf
  refine (fieldsOf_sim hc).bind fun τ p p' _ h => ?_
  obtain ⟨rfl, ha, -⟩ := h
  exact .pure ⟨rfl, ha⟩

theorem cdrOf_sim {c c' : Held} (hc : TextPair σ c c') : Sim σ (Act.cdrOf c) (Act.cdrOf c') fun τ d d' =>
    τ = σ ∧ Code σ d d' := by
  unfold Act.cdrOf
  refine (fieldsOf_sim hc).bind fun τ p p' _ h => ?_
  obtain ⟨rfl, -, hd⟩ := h
  exact .pure ⟨rfl, hd⟩

theorem asCons_code (hv : Code σ v v') : Sim σ (Act.asCons v) (Act.asCons v') fun τ o o' =>
    τ = σ ∧ Option.Rel (TextPair σ) o o' := by
  refine (asCons_sim hv.1.live).mono fun τ o o' _ h => ?_
  obtain ⟨rfl, ho⟩ := h
  refine ⟨rfl, ?_⟩
  cases ho with
  | none => exact .none
  | @some c c' hc =>
    obtain ⟨⟨-, hl, hl'⟩, rfl, rfl⟩ := hc
    cases hv.1 with
    | cons hk => exact .some ⟨hk, hv.2, hl, hl'⟩

/-! ## Forms kept for later -/

/-- forms that are kept for later, on both sides -/
structure KeptForm (σ : S) (k k' : Saved) : Prop where
  code : Code σ k.value k'.value
  serial : (left σ).serial? k.value = k.serial
  serial' : (right σ).serial? k'.value = k'.serial

theorem serial?_of_label {m m' : Machine} {v : Value}
    (h : ∀ t, v.handle? = some t → (m'.heap.slot? t).map Slot.label = (m.heap.slot? t).map Slot.label) :
    m'.serial? v = m.serial? v := by
  unfold Machine.serial?
  cases hv : v.handle? with
  | none => rfl
  | some t =>
    have := congrArg (Option.map Prod.fst) (h t hv)
    simpa [Option.map_map, Function.comp_def, Slot.label] using this

theorem KeptForm.later {k k' : Saved} (hle : Later σ τ) (hk : KeptForm σ k k') : KeptForm τ k k' where
  code := hk.code.later hle
  serial := by
    rw [← hk.serial]
    refine serial?_of_label fun t ht => ?_
    obtain ⟨t', -, hkept⟩ := hk.code.1.handle?_eq_some ht
    exact (hle.label hkept).1
  serial' := by
    rw [← hk.serial']
    refine serial?_of_label fun t' ht' => ?_
    cases ht : k.value.handle? with
    | none => rw [(hk.code.1.handle?_eq_none).1 ht] at ht'; cases ht'
    | some t =>
      obtain ⟨u, hu, hkept⟩ := hk.code.1.handle?_eq_some ht
      obtain rfl := Option.some.inj (hu.symm.trans ht')
      exact (hle.label hkept).2

theorem keepAll_sim {vs vs' : List Value} (hvs : List.Forall₂ (Code σ) vs vs') :
    Sim σ (Act.keepAll vs) (Act.keepAll vs') fun τ ks ks' => τ = σ ∧ List.Forall₂ (KeptForm σ) ks ks' := by
  induction hvs with
  | nil => exact .pure ⟨rfl, .nil⟩
  | @cons v v' vs vs' hv _ ih =>
    unfold Act.keepAll Act.keep
    refine Sim.bind (Q := fun τ k k' => τ = σ ∧ KeptForm σ k k') (.get (.pure ⟨rfl, hv, rfl, rfl⟩)) ?_
    rintro τ k k' _ ⟨rfl, hk⟩
    refine ih.bind ?_
    rintro τ ks ks' _ ⟨rfl, hks⟩
    exact .pure ⟨rfl, .cons hk hks⟩

theorem retrieve_sim {k k' : Saved} (hk : KeptForm σ k k') :
    Sim σ (Act.retrieve k) (Act.retrieve k') fun τ v v' => τ = σ ∧ Code σ v v' := by
  unfold Act.retrieve
  refine .get ?_
  simp only [hk.serial, hk.serial', ne_eq, not_true_eq_false, if_false]
  exact .pure ⟨rfl, hk.code⟩

end LispMachine.Simulation
