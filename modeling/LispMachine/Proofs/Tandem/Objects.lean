/-
Making objects on two machines in tandem.

Making an object and pinning a value lose nothing, and what is pinned on both sides is kept. When one machine finds its heap full
and the other does not, the comparison is spoilt; two machines that started as one do the same and stay one.
-/
import LispMachine.Proofs.Simulation.Read
import LispMachine.Proofs.Tandem.Steps

namespace LispMachine

/-- the thread with one more pin -/
def Thread.pinning (v : Value) (t : Thread) : Thread := { t with pins := t.pins.push v }

namespace Tandem

open Machine (Corr)
open Simulation (InStep Sim QuietSim)

variable {th : ThreadId} {same : Bool} {σ τ : Tandem th same} {α β : Type} {Q : Tandem th same → α → β → Prop}
  {R : Tandem th same → Tandem th same → Prop} {F : Tandem th same → Failure → Failure → Prop}

/-! ## Situations that follow -/

/-- both actions succeed -/
theorem done (τ : Tandem th same) (hR : R σ τ) {x : Act α} {y : Act β} {a : α} {b : β}
    (hx : x.run σ.left = .ok a τ.left) (hy : y.run σ.right = .ok b τ.right) (hQ : Q τ a b) : InStep R F σ x y Q :=
  Simulation.done τ hR hx hy hQ

/-- both actions fail -/
theorem failed (τ : Tandem th same) (hR : R σ τ) {x : Act α} {y : Act β} {e e' : Failure}
    (hx : x.run σ.left = .error e τ.left) (hy : y.run σ.right = .error e' τ.right) (hF : F τ e e') : InStep R F σ x y Q :=
  Simulation.failed τ hR hx hy hF

/-- what corresponds in one and the same machine is equal -/
theorem corr_eq (σ : Tandem th same) (hsame : same = true) : Corr σ.left σ.right = Corr σ.left σ.left := by
  rw [σ.eq hsame]

theorem value_eq (hsame : same = true) {v v' : Value} (h : v.Same (Corr σ.left σ.right) v') : v = v' := by
  rw [σ.corr_eq hsame] at h
  exact h.eq σ.sound.store.tidy

theorem cell_eq (hsame : same = true) {c c' : Cell} (h : c.Same (Corr σ.left σ.right) c') : c = c' := by
  rw [σ.corr_eq hsame] at h
  exact h.eq σ.sound.store.tidy

theorem handle_eq (hsame : same = true) {k : Kind} {h h' : Handle} (hc : Corr σ.left σ.right k h h') : h = h' := by
  rw [σ.corr_eq hsame] at hc
  exact hc.eq σ.sound.store.tidy

theorem values_eq (hsame : same = true) {vs vs' : List Value}
    (h : List.Forall₂ (Value.Same (Corr σ.left σ.right)) vs vs') : vs = vs' :=
  List.forall₂_eq_eq_eq ▸ h.imp fun _ _ => value_eq hsame

/-- an action run in step with itself comes to one result on one machine -/
theorem one_result {x y : Act α} (hxy : same = true → x = y) {P : Tandem th same → α → α → Prop} (h : InStep R F σ x y P) :
    InStep R F σ x y fun τ a b => P τ a b ∧ (same = true → a = b) := by
  rcases h with hs | ⟨τ, hτ, hend⟩
  · exact .inl hs
  · refine .inr ⟨τ, hτ, ?_⟩
    have hrun (hsame : same = true) : x.run σ.left = y.run σ.right := by rw [hxy hsame, σ.eq hsame]
    change Simulation.Ends F τ P (x.run σ.left) (y.run σ.right) at hend
    change Simulation.Ends F τ _ (x.run σ.left) (y.run σ.right)
    generalize x.run σ.left = r, y.run σ.right = r' at hend hrun
    cases hend with
    | ok h => exact .ok ⟨h, fun hsame => (EStateM.Result.ok.inj (hrun hsame)).1⟩
    | error h => exact .error h

/-- an open thread is open on both sides -/
theorem isOpen_right {t : ThreadId} (ho : (σ.left.thread t).isOpen = true) : (σ.right.thread t).isOpen = true :=
  (σ.agree.threads t).isOpen ▸ ho

/-- a change of an open thread -/
def onThread (σ : Tandem th same) (t : ThreadId) (ho : (σ.left.thread t).isOpen = true) (f f' : Thread → Thread)
    (hf : (f (σ.left.thread t)).Alike (Corr σ.left σ.right) (f' (σ.right.thread t)))
    (hfits : σ.left.Fits t (f (σ.left.thread t))) (hfits' : σ.right.Fits t (f' (σ.right.thread t)))
    (heq : same = true → f = f') : Tandem th same where
  left := σ.left.onThread t f
  right := σ.right.onThread t f'
  sound := σ.sound.onThread ho hfits
  sound' := σ.sound'.onThread (isOpen_right ho) hfits'
  agree := σ.agree.onThread ho (isOpen_right ho) ⟨hfits.isOpen.trans hfits'.isOpen.symm, fun _ => hf⟩
  isOpen := by
    rw [Machine.thread_onThread ho]
    split
    · exact hfits.isOpen
    · exact σ.isOpen
  eq hsame := by rw [σ.eq hsame, heq hsame]

theorem fits (σ : Tandem th same) : σ.left.Fits th (σ.left.thread th) := σ.sound.fits σ.isOpen

theorem fits' (σ : Tandem th same) : σ.right.Fits th (σ.right.thread th) := σ.sound'.fits σ.isOpen'

theorem alike (σ : Tandem th same) : (σ.left.thread th).Alike (Corr σ.left σ.right) (σ.right.thread th) :=
  (σ.agree.threads th).alike σ.isOpen

/-! ## Pins -/

/-- what corresponds and is named by a pin is kept -/
theorem kept_of_pin {k : Kind} {h h' : Handle} {v v' : Value} (hc : Corr σ.left σ.right k h h')
    (hv : v ∈ (σ.left.thread th).pins) (hn : v.Names h k) (hv' : v' ∈ (σ.right.thread th).pins) (hn' : v'.Names h' k) :
    σ.Kept k h h' := ⟨hc, .pin σ.isOpen hv hn, .pin σ.isOpen' hv' hn'⟩

theorem same_kept_of_pin {v v' : Value} (h : v.Same (Corr σ.left σ.right) v')
    (hv : v.needsPin = true → v ∈ (σ.left.thread th).pins) (hv' : v'.needsPin = true → v' ∈ (σ.right.thread th).pins) :
    v.Same σ.Kept v' :=
  h.mono_names fun k t t' hn hn' hc =>
    kept_of_pin hc (hv (by cases hn <;> rfl)) hn (hv' (by cases hn' <;> rfl)) hn'

theorem adds_pinning {m : Machine} (ho : (m.thread th).isOpen = true) (v : Value) :
    m.Adds (m.onThread th (Thread.pinning v)) :=
  Machine.adds_onThread ho ho (by simp [Thread.pinning]) rfl rfl

theorem mem_pinning {m : Machine} (ho : (m.thread th).isOpen = true) (v : Value) :
    v ∈ ((m.onThread th (Thread.pinning v)).thread th).pins := by
  rw [Machine.thread_onThread ho, if_pos rfl]
  simp [Thread.pinning]

theorem pin_sim {v v' : Value} (h : v.Same (Corr σ.left σ.right) v') :
    QuietSim σ (Act.pin th v) (Act.pin th v') fun τ _ _ => v.Same τ.Kept v' := by
  unfold Act.pin
  rw [← h.needsPin_eq]
  split
  · have halike : (Thread.pinning v (σ.left.thread th)).Alike (Corr σ.left σ.right)
        (Thread.pinning v' (σ.right.thread th)) :=
      { σ.alike with
        pins := by
          simp only [Thread.pinning, Array.toList_push]
          exact List.rel_append σ.alike.pins (.cons h .nil) }
    let τ := σ.onThread th σ.isOpen (Thread.pinning v) (Thread.pinning v') halike { σ.fits with } { σ.fits' with }
      (fun hsame => by rw [value_eq hsame h])
    exact done τ ⟨adds_pinning σ.isOpen v, adds_pinning σ.isOpen' v'⟩ rfl rfl
      (same_kept_of_pin h (fun _ => mem_pinning σ.isOpen v) fun _ => mem_pinning σ.isOpen' v')
  · rename_i hpin
    refine InStep.pure (Simulation.quiet_refl σ) (same_kept_of_pin h (absurd · hpin) fun hpin' => ?_)
    exact absurd (h.needsPin_eq.trans hpin') hpin

/-! ## Notes -/

/-- an event in either journal -/
def noting (σ : Tandem th same) (e e' : Event) (he : e ≠ .missed) (he' : e' ≠ .missed) (heq : same = true → e = e') :
    Tandem th same where
  left := { σ.left with journal := e :: σ.left.journal }
  right := { σ.right with journal := e' :: σ.right.journal }
  sound := { σ.sound with clean := by simpa [he.symm] using σ.sound.clean }
  sound' := { σ.sound' with clean := by simpa [he'.symm] using σ.sound'.clean }
  agree := { σ.agree with }
  isOpen := σ.isOpen
  eq hsame := by rw [σ.eq hsame, heq hsame]

theorem noting_quiet (σ : Tandem th same) {e e' : Event} (he : e ≠ .missed) (he' : e' ≠ .missed) (heq : same = true → e = e') :
    Quiet σ (σ.noting e e' he he' heq) where
  adds := { Machine.Adds.refl σ.left with }
  adds' := { Machine.Adds.refl σ.right with }

/-- events that may differ, such as those that name objects -/
theorem note_sim_of_ne (σ : Tandem th same) {e e' : Event} (he : e ≠ .missed) (he' : e' ≠ .missed) (heq : same = true → e = e') :
    QuietSim σ (Act.note e) (Act.note e') fun τ _ _ => τ = σ.noting e e' he he' heq :=
  done (σ.noting e e' he he' heq) (σ.noting_quiet he he' heq) rfl rfl rfl

theorem note_sim (σ : Tandem th same) {e : Event} (he : e ≠ .missed) :
    QuietSim σ (Act.note e) (Act.note e) fun τ _ _ => τ = σ.noting e e he he fun _ => rfl := σ.note_sim_of_ne he he fun _ => rfl

/-! ## Objects -/

theorem isText_right {v v' : Value} (h : v.Like (Corr σ.left σ.right) v') (ht : v.IsText σ.left.heap) :
    v'.IsText σ.right.heap := by
  cases h with
  | cons hc =>
    obtain ⟨s, s', hs, hs', -, htext, -⟩ := slots hc
    obtain ⟨u, hu, hu'⟩ := ht
    obtain rfl := Option.some.inj (hs.symm.trans hu)
    exact ⟨s', hs', htext ▸ hu'⟩
  | _ => exact ht

/-- scopes that are alike bind a symbol once if one of them does -/
theorem nodup_keys {sc sc' : Scope} (h : sc.Like (Corr σ.left σ.right) sc') (hn : (sc.table.map Prod.fst).Nodup) :
    (sc'.table.map Prod.fst).Nodup := by
  have hunique : Relator.BiUnique (Corr σ.left σ.right .symbol) :=
    ⟨fun _ _ _ h h' => (corr_unique h h').2 rfl, fun _ _ _ h h' => (corr_unique h h').1 rfl⟩
  refine (List.rel_nodup hunique ?_).1 hn
  rw [List.forall₂_map_left_iff, List.forall₂_map_right_iff]
  exact h.table.imp fun _ _ he => he.1

theorem wellMade_right {s s' : Slot} (hsame : s.cell.Same (Corr σ.left σ.right) s'.cell) (htext : s.text = s'.text)
    (hw : s.WellMade σ.left.heap) : s'.WellMade σ.right.heap := by
  have hc := hsame.like
  refine ⟨fun a' d' hc' ht => ?_, fun f' list' outer' hc' hb' => ?_, fun f' p special hc' hb' => ?_, fun sc' hc' => ?_⟩
  all_goals
    rw [hc'] at hc
    generalize hcell : s.cell = c at hc
  · cases hc with
    | cons ha hd =>
      obtain ⟨hta, htd⟩ := hw.text _ _ hcell (htext.trans ht)
      exact ⟨isText_right ha hta, isText_right hd htd⟩
  · cases hc with
    | function hf =>
      have hb := hf.body
      rw [hb'] at hb
      generalize hbody : (Function.body _) = b at hb
      cases hb with
      | forms hl _ => exact isText_right hl (hw.body _ _ _ hcell hbody)
  · cases hc with
    | function hf =>
      have hb := hf.body
      rw [hb'] at hb
      generalize hbody : (Function.body _) = b at hb
      cases hb with
      | primitive => exact hw.primitive _ _ _ hcell hbody
  · cases hc with
    | scope _ => exact nodup_keys (hsame.scope _ _ hcell hc') (hw.keys _ hcell)

/-- alike objects made on both sides, under the given handles -/
structure Made (σ τ : Tandem th same) (c c' : Cell) (text : Bool) (h h' : Handle) : Prop where
  corr : Corr τ.left τ.right c.kind h h'
  slot : τ.left.heap.slot? h = some ⟨c, σ.left.collector.epoch, σ.left.heap.births, text⟩
  slot' : τ.right.heap.slot? h' = some ⟨c', σ.right.collector.epoch, σ.right.heap.births, text⟩

theorem run_allocate {m : Machine} {c : Cell} {text : Bool} (hfull : m.heap.isFull = false) :
    (Act.allocate c text).run m = .ok m.heap.nextHandle (m.alloc c text) := by
  simp [Act.allocate, Act.run_bind, hfull, Machine.alloc]

theorem run_allocate_full {m : Machine} {c : Cell} {text : Bool} (hfull : m.heap.isFull = true) :
    (Act.allocate c text).run m = .error (.fault .exhausted) { m with journal := .refused :: m.journal } := by
  simp [Act.allocate, Act.run_bind, hfull]

/-- what comes upon a full heap runs in step: on both sides of one machine, or else the comparison is spoilt -/
theorem refused_sim {x : Act α} {y : Act β}
    (hx : σ.left.heap.isFull = true →
      x.run σ.left = .error (.fault .exhausted) { σ.left with journal := .refused :: σ.left.journal })
    (hy : σ.right.heap.isFull = true →
      y.run σ.right = .error (.fault .exhausted) { σ.right with journal := .refused :: σ.right.journal })
    (hfull : σ.left.heap.isFull = true ∨ σ.right.heap.isFull = true) : QuietSim σ x y Q := by
  rcases Bool.eq_false_or_eq_true same with hsame | hsame
  · have hone := σ.eq hsame
    have hl : σ.left.heap.isFull = true := hfull.elim id fun h => hone ▸ h
    exact failed (σ.noting .refused .refused (by simp) (by simp) fun _ => rfl) (σ.noting_quiet _ _ _) (hx hl) (hy (hone ▸ hl))
      (.fault (fun _ _ => by simp))
  · have hspoils : Spoils same .refused := .inr ⟨hsame, .inl rfl⟩
    refine .inl (hfull.imp (fun h => ⟨.refused, ?_, hspoils⟩) fun h => ⟨.refused, ?_, hspoils⟩)
    · change Event.refused ∈ (Outcome.machine (x.run σ.left)).journal
      rw [hx h]
      exact List.mem_cons_self
    · change Event.refused ∈ (Outcome.machine (y.run σ.right)).journal
      rw [hy h]
      exact List.mem_cons_self

/-- alike objects made on both sides -/
def alloc (σ : Tandem th same) {c c' : Cell} (text : Bool) (hk : c.kind ≠ .symbol) (hc : c.Same (Corr σ.left σ.right) c')
    (hw : ∀ epoch serial, (⟨c, epoch, serial, text⟩ : Slot).WellMade σ.left.heap) : Tandem th same where
  left := σ.left.alloc c text
  right := σ.right.alloc c' text
  sound := σ.sound.alloc hk hc.holds.1 (hw _ _)
  sound' := σ.sound'.alloc (hc.like.kind_eq ▸ hk) hc.holds.2
    (wellMade_right (s := ⟨c, σ.left.collector.epoch, σ.left.heap.births, text⟩) hc rfl (hw _ _))
  agree := σ.agree.alloc σ.sound σ.sound' hc
  isOpen := σ.isOpen
  eq hsame := by rw [σ.eq hsame, cell_eq hsame hc]

theorem allocate_sim {c c' : Cell} {text : Bool} (hk : c.kind ≠ .symbol) (hc : c.Same (Corr σ.left σ.right) c')
    (hw : ∀ epoch serial, (⟨c, epoch, serial, text⟩ : Slot).WellMade σ.left.heap) :
    QuietSim σ (Act.allocate c text) (Act.allocate c' text) fun τ h h' => Made σ τ c c' text h h' := by
  cases hl : σ.left.heap.isFull with
  | true => exact refused_sim run_allocate_full run_allocate_full (.inl hl)
  | false =>
    cases hr : σ.right.heap.isFull with
    | true => exact refused_sim run_allocate_full run_allocate_full (.inr hr)
    | false =>
      have ht := σ.sound.store.tidy
      have ht' := σ.sound'.store.tidy
      exact done (σ.alloc text hk hc hw) ⟨Machine.adds_alloc σ.sound c text, Machine.adds_alloc σ.sound' c' text⟩
        (run_allocate hl) (run_allocate hr)
        ⟨Heap.corr_insert ht ht' σ.agree.store rfl hc.like.kind_eq.symm, ht.slot?_new c text, ht'.slot?_new c' text⟩

/-! ## Symbols -/

/-- a symbol is held for good -/
theorem Kept.of_symbol {h h' : Handle} (hc : Corr σ.left σ.right .symbol h h') : σ.Kept .symbol h h' := by
  obtain ⟨name, hs⟩ := σ.sound.interned h hc.kind?.1
  obtain ⟨name', hs'⟩ := σ.sound'.interned h' hc.kind?.2
  exact ⟨hc, .symbol hs, .symbol hs'⟩

/-- a new symbol on both sides -/
def withSymbol (σ : Tandem th same) (name : String) : Tandem th same where
  left := σ.left.withSymbol name
  right := σ.right.withSymbol name
  sound := σ.sound.withSymbol name
  sound' := σ.sound'.withSymbol name
  agree := σ.agree.withSymbol σ.sound σ.sound' name
  isOpen := σ.isOpen
  eq hsame := by rw [σ.eq hsame]

theorem run_intern {m : Machine} {name : String} (hs : m.symbols.lookup name = none) (hfull : m.heap.isFull = false) :
    (Act.intern name).run m = .ok m.heap.nextHandle (m.withSymbol name) := by
  simp [Act.intern, Act.run_bind, hs, run_allocate hfull, Machine.withSymbol, Machine.alloc]

theorem run_intern_full {m : Machine} {name : String} (hs : m.symbols.lookup name = none) (hfull : m.heap.isFull = true) :
    (Act.intern name).run m = .error (.fault .exhausted) { m with journal := .refused :: m.journal } := by
  simp [Act.intern, Act.run_bind, hs, run_allocate_full hfull]

theorem intern_sim (σ : Tandem th same) (name : String) :
    QuietSim σ (Act.intern name) (Act.intern name) fun τ h h' => τ.Kept .symbol h h' := by
  have hlookup := σ.agree.lookup_symbols name
  generalize hl : σ.left.symbols.lookup name = l, hr : σ.right.symbols.lookup name = r at hlookup
  cases hlookup with
  | some hc =>
    refine done σ (Simulation.quiet_refl σ) ?_ ?_ (.of_symbol hc)
    · simp [Act.intern, Act.run_bind, hl]
    · simp [Act.intern, Act.run_bind, hr]
  | none =>
    cases hfull : σ.left.heap.isFull with
    | true => exact refused_sim (run_intern_full hl) (run_intern_full hr) (.inl hfull)
    | false =>
      cases hfull' : σ.right.heap.isFull with
      | true => exact refused_sim (run_intern_full hl) (run_intern_full hr) (.inr hfull')
      | false =>
        refine done (σ.withSymbol name) ⟨Machine.adds_withSymbol σ.sound name, Machine.adds_withSymbol σ.sound' name⟩
          (run_intern hl hfull) (run_intern hr hfull') (.of_symbol ?_)
        exact Heap.corr_insert σ.sound.store.tidy σ.sound'.store.tidy σ.agree.store rfl rfl

instance : Simulation.Interns (Tandem th same) := ⟨intern_sim⟩

/-- `n` generated names on both sides -/
def counting (σ : Tandem th same) (n : Nat) : Tandem th same where
  left := { σ.left with gensyms := n }
  right := { σ.right with gensyms := n }
  sound := { σ.sound with }
  sound' := { σ.sound' with }
  agree := { σ.agree with gensyms := rfl }
  isOpen := σ.isOpen
  eq hsame := by rw [σ.eq hsame]

theorem gensym_sim (σ : Tandem th same) : Sim σ Act.gensym Act.gensym fun τ h h' => τ.Kept .symbol h h' := by
  unfold Act.gensym
  refine Sim.get ?_
  rw [show (Simulation.left σ).gensyms = (Simulation.right σ).gensyms from σ.agree.gensyms]
  refine Sim.bind (Q := fun _ _ _ => True) (done (σ.counting _) ?_ rfl rfl trivial) fun τ _ _ _ _ => ?_
  · exact ⟨{ Machine.Keeps.refl σ.left with }, { Machine.Keeps.refl σ.right with }⟩
  · exact (Sim.of_quiet (intern_sim τ _)).mono fun _ _ _ _ h => h.2

/-! ## Pairs, errors and scopes -/

/-- what is made of values that correspond, and pinned -/
theorem allocatePinned_sim {c c' : Cell} {text : Bool} {value : Handle → Value} (hk : c.kind ≠ .symbol)
    (hc : c.Same (Corr σ.left σ.right) c') (hw : ∀ epoch serial, (⟨c, epoch, serial, text⟩ : Slot).WellMade σ.left.heap)
    (hvalue : ∀ ρ h h', ρ c.kind h h' → (value h).Like ρ (value h')) :
    QuietSim σ (Act.allocatePinned th c value text) (Act.allocatePinned th c' value text) fun τ v v' => v.Like τ.Kept v' ∧
      ∃ h s, v = value h ∧ τ.left.heap.slot? h = some s ∧ s.text = text := by
  unfold Act.allocatePinned
  refine (allocate_sim hk hc hw).bind fun τ h h' hτ hmade => ?_
  have hlike := hvalue (Corr τ.left τ.right) h h' hmade.corr
  refine (pin_sim (.inl hlike)).bind fun υ _ _ hυ hkept => ?_
  refine .pure ⟨?_, h, _, rfl, hυ.adds.grows h _ hmade.slot, rfl⟩
  rcases hkept with hl | hl
  · exact hl
  · exact absurd hl.isReference.1 (by simp [hlike.not_reference])

theorem newCons_sim {a a' d d' : Value} (ha : a.Like (Corr σ.left σ.right) a') (hd : d.Like (Corr σ.left σ.right) d') :
    QuietSim σ (Act.newPair th false a d) (Act.newPair th false a' d') Simulation.Val := by
  unfold Act.newPair
  refine InStep.mono (allocatePinned_sim (by simp [Cell.kind]) ((Cell.Like.cons ha hd).same (by simp [Cell.kind]))
    (fun epoch serial => ⟨by simp, by simp, by simp, by simp⟩) fun ρ h h' => .cons) (fun _ => id) (fun _ _ _ _ => id) ?_
  exact fun _ _ _ _ h => h.1

theorem newText_sim {a a' d d' : Value} (ha : Simulation.Code σ a a') (hd : Simulation.Code σ d d') :
    QuietSim σ (Act.newPair th true a d) (Act.newPair th true a' d') Simulation.Code := by
  unfold Act.newPair
  refine InStep.mono (allocatePinned_sim (by simp [Cell.kind])
    ((Cell.Like.cons ha.1.live hd.1.live).same (by simp [Cell.kind]))
    (fun epoch serial => ⟨?_, by simp, by simp, by simp⟩) fun ρ h h' => .cons) (fun _ => id) (fun _ _ _ _ => id) ?_
  · rintro x y hxy -
    cases hxy
    exact ⟨ha.2, hd.2⟩
  · rintro τ v v' - ⟨hv, h, s, rfl, hs, htext⟩
    exact ⟨hv, s, hs, htext⟩

theorem newErrorObject_sim {x x' : ErrorObject} (hx : x.Like (Corr σ.left σ.right) x') :
    Sim σ (Act.newErrorObject th x) (Act.newErrorObject th x') Simulation.Err := by
  unfold Act.newErrorObject
  refine Sim.get ?_
  refine Sim.bind (allocate_sim (by simp [Cell.kind]) ((Cell.Like.error hx).same (by simp [Cell.kind]))
    (fun epoch serial => ⟨by simp, by simp, by simp, by simp⟩)).sim fun τ h h' _ hmade => ?_
  refine Sim.bind (Sim.of_quiet (pin_sim (.inl (.error .quiet hmade.corr)))) fun υ _ _ _ hυ => ?_
  obtain ⟨hquiet, hkept⟩ := hυ
  refine .pure ⟨?_, hx.kind, ⟨false, ?_⟩, ⟨false, ?_⟩⟩
  · rcases hkept with hl | hl
    · cases hl with
      | error _ hk => exact hk
    · cases hl
  · exact congrArg (Option.map Slot.label) (hquiet.adds.grows h _ hmade.slot)
  · exact congrArg (Option.map Slot.label) (hquiet.adds'.grows h' _ hmade.slot')

/-- a scope made on both sides and pinned -/
theorem allocateScope_sim {s s' : Scope} (hs : s.Like (Corr σ.left σ.right) s') (hkeys : (s.table.map Prod.fst).Nodup) :
    QuietSim σ (do let h ← Act.allocate (.scope s); Act.pin th (.scope h); return h)
      (do let h ← Act.allocate (.scope s'); Act.pin th (.scope h); return h) fun τ h h' => τ.Kept .scope h h' := by
  refine (allocate_sim (by simp [Cell.kind]) hs.same fun epoch serial => ⟨by simp, by simp, by simp, by simpa⟩).bind
    fun τ h h' _ hmade => ?_
  refine (pin_sim (.inl (.scope hmade.corr))).bind fun υ _ _ _ hkept => .pure ?_
  rcases hkept with hl | hl
  · cases hl with
    | scope hk => exact hk
  · cases hl

theorem newScope_sim {name name' parent parent' : Option Handle} (hname : Option.Rel (σ.Kept .symbol) name name')
    (hparent : Option.Rel (σ.Kept .scope) parent parent') :
    Sim σ (Act.newScope th name parent) (Act.newScope th name' parent') fun τ h h' => τ.Kept .scope h h' := by
  unfold Act.newScope
  have hscope : Scope.Like (Corr σ.left σ.right) { name := name, parent := .ofOption parent }
      { name := name', parent := .ofOption parent' } := by
    refine ⟨optionRel_mono (fun _ _ => Kept.corr) hname, ?_, .nil, rfl⟩
    cases hparent with
    | some h => exact .scope h.corr
    | none => exact .none
  exact (allocateScope_sim hscope List.nodup_nil).sim

end Tandem

end LispMachine
