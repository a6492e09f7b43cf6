/-
Following an error outwards.

An evaluation that is watched for starts somewhere inside an action. The action with the watched evaluator and the action
itself have the same run up to there; from there on, the second goes through the evaluation. If that fails with an error, then
either the action fails with the same error, and there is nothing but clearing up and collection passes in between, or the
error may be caught and what is evaluated is the form that a handler tries. `Follows` says so of two actions on one machine.
-/
import LispMachine.Proofs.Reached

namespace LispMachine

/-! ## Unwinding -/

/-- a failure that is an error, or becomes one where a full heap is contained -/
def Failure.Names (e : HeldError) (f : Failure) : Prop :=
  f = .raised (.object e) ∨ f = .fault .exhausted ∧ e = Machine.exhaustedError

namespace Machine

/-- from one machine to the other there is nothing but clearing up and passes -/
structure Since (m m' : Machine) : Prop where
  journal : ∃ passes : List Trigger, m'.journal = passes.map .passed ++ m.journal
  births : m'.heap.births = m.heap.births
  symbols : m'.symbols = m.symbols
  console : m'.console = m.console
  errors : ∀ h x, m'.cell? h = some (.error x) → m.cell? h = some (.error x)

variable {th : ThreadId} {b k : Nat} {m m' m'' : Machine}

theorem Since.refl (m : Machine) : m.Since m := ⟨⟨[], rfl⟩, rfl, rfl, rfl, fun _ _ h => h⟩

theorem Since.trans (h₁ : m.Since m') (h₂ : m'.Since m'') : m.Since m'' where
  journal := by
    obtain ⟨ps, hps⟩ := h₁.journal
    obtain ⟨qs, hqs⟩ := h₂.journal
    exact ⟨qs ++ ps, by rw [hqs, hps]; simp⟩
  births := h₂.births.trans h₁.births
  symbols := h₂.symbols.trans h₁.symbols
  console := h₂.console.trans h₁.console
  errors h x hx := h₁.errors h x (h₂.errors h x hx)

theorem Beside.since (h : Beside th m m') : m.Since m' where
  journal := ⟨[], h.journal⟩
  births := by rw [h.heap]
  symbols := h.symbols
  console := h.console
  errors g x hx := by rwa [cell?, h.heap] at hx

end Machine

namespace Act

variable {α β : Type} {th : ThreadId} {b k : Nat} {m m' : Machine}

/-- collection points do not fail, and leave the errors as they are -/
theorem ends_maybeCollect_since (hm : ∀ u, (m.thread u).isOpen = true → (m.thread u).stack.beyond = 0)
    {E : Failure → Machine → Prop} :
    maybeCollect.Ends m (fun _ m' => m.Since m') E := by
  have hreadable : m.brokenStack? = none := by
    simp only [Machine.brokenStack?, Option.map_eq_none_iff, Array.find?_eq_none, Bool.and_eq_true, decide_eq_true_eq]
    rintro t ht ⟨ho, hbeyond⟩
    obtain ⟨u, rfl⟩ := Machine.thread_of_mem ht
    exact hbeyond (hm u ho)
  have hpass (trigger : Trigger) : (collect trigger).Ends m (fun _ m' => m.Since m') E := by
    unfold collect checkRoots
    refine Ends.bind (P := fun _ m' => m' = { m with journal := .passed trigger :: m.journal }) rfl ?_
    rintro _ _ rfl
    refine Ends.bind (P := fun _ m' => m' = { m with journal := .passed trigger :: m.journal }) (.read ?_) ?_
    · have hnoted : ({ m with journal := .passed trigger :: m.journal } : Machine).brokenStack? = none := hreadable
      rw [hnoted]
      exact rfl
    · rintro _ _ rfl
      have hmark : m.heap.Restamped (m.collector.epoch + 1) (m.heap.mark (m.collector.epoch + 1) m.markingStart) :=
        Heap.mark_restamped ..
      refine ⟨⟨[trigger], rfl⟩, (Heap.births_sweep ..).trans hmark.births, rfl, rfl, fun h x hx => ?_⟩
      have hx : ((m.heap.mark (m.collector.epoch + 1) m.markingStart).sweep (m.collector.epoch + 1)).1.cell? h =
          some (.error x) := hx
      obtain ⟨c, hc, hsame⟩ := Heap.cell?_sweep hx
      rw [hmark.cell?] at hc
      obtain rfl : c = .error x := by
        rcases hsame with h | h
        · exact h.symm
        · exact Cell.eq_of_releaseOuter h.symm rfl
      exact hc
  unfold maybeCollect
  refine .read ?_
  split
  · exact .refl m
  · split
    · exact .refl m
    · exact Ends.bind (hpass .threshold) fun _ _ h => h

/-- nor do operations on the stack that succeed -/
theorem ends_onStack_since (f : Stack → Except StackError Stack) :
    (onStack th f).Ends m (fun _ m' => m.Since m' ∧ m'.heap = m.heap) fun _ _ => True := by
  unfold onStack readStack
  refine Ends.bind (Ends.bind (P := fun _ m' => m = m') (Q := fun _ m' => m = m') rfl ?_) ?_
  · rintro s _ rfl
    split
    · exact rfl
    · exact Ends.bind .trivial fun _ _ _ => trivial
  · rintro _ _ rfl
    exact ⟨⟨⟨[], rfl⟩, rfl, rfl, rfl, fun _ _ h => h⟩, rfl⟩

theorem ends_pop_since (th : ThreadId) (m : Machine) :
    (pop th).Ends m (fun _ m' => m.Since m' ∧ m'.heap = m.heap) fun _ _ => True := by
  unfold pop popRaw throughStack
  refine Ends.bind (Ends.bind (P := fun _ m' => m = m') (Q := fun _ m' => m.Since m' ∧ m'.heap = m.heap) rfl ?_) ?_
  · rintro s _ rfl
    refine Ends.bind (P := fun _ m' => m.Since m' ∧ m'.heap = m.heap)
      ⟨⟨⟨[], rfl⟩, rfl, rfl, rfl, fun _ _ h => h⟩, rfl⟩ fun _ m' h => ?_
    split
    · exact h
    · exact Ends.bind .trivial fun _ _ _ => trivial
  · intro v m' h
    unfold pin
    split
    · exact ⟨h.1.trans ⟨⟨[], rfl⟩, rfl, rfl, rfl, fun _ _ h => h⟩, h.2⟩
    · exact h

/-! ## The end of an evaluation -/

/-- the end of an evaluation that started on `m` -/
def ended (th : ThreadId) (m : Machine) (r : Except Failure Value) : Act Value := do
  setDepth th (m.thread th).depth
  conclude th (m.thread th).pins.size (← if (m.thread th).depth = 0 then contain th (m.thread th).stack.size r else pure r)

/-- dropping pins is clearing up -/
theorem names_conclude {f : Failure} {e : HeldError} (he : f.Names e) (pins : Nat) (m : Machine) :
    ∃ f' m', (conclude th pins (.error f)).run m = .error f' m' ∧ f'.Names e ∧ m.Since m' := by
  have hunpin : m.Since (m.onThread th fun t =>
      { t with pins := t.pins.shrink pins ++ ((outcomeKept (.error f)).filter Value.needsPin).toArray }) :=
    ⟨⟨[], rfl⟩, rfl, rfl, rfl, fun _ _ h => h⟩
  rcases he with rfl | ⟨rfl, rfl⟩
  · exact ⟨_, _, rfl, .inl rfl, hunpin⟩
  · exact ⟨_, _, rfl, .inr ⟨rfl, rfl⟩, hunpin⟩

/-- a full heap that is contained has its error's name -/
theorem names_contain {f : Failure} {e : HeldError} (hm : m.Sane th b k) (hon : Machine.Onward th b k m m') (he : f.Names e)
    (pins : Nat) : ∃ f' m'', (contain th (m.thread th).stack.size (.error f) >>= conclude th pins).run m' = .error f' m'' ∧
      f'.Names e ∧ m'.Since m'' := by
  rcases he with rfl | ⟨rfl, rfl⟩
  · exact names_conclude (.inl rfl) pins m'
  · have hdrop := ends_dropAbove hm hon
    rw [← hm.size] at hdrop
    cases hr : (dropAbove th (m.thread th).stack.size).run m' with
    | ok _ m'' =>
      have hrun : (contain th (m.thread th).stack.size (.error (.fault .exhausted))).run m' =
          .ok (.error (.raised (.object Machine.exhaustedError))) m'' := by
        unfold contain
        rw [run_bind, run_observe, hr]
        rfl
      obtain ⟨f', m₃, hend, he', hsince⟩ := names_conclude (f := .raised (.object Machine.exhaustedError)) (.inl rfl) pins m''
      exact ⟨f', m₃, (bind_ok hrun).trans hend, he', (hdrop.ok hr).2.2.since.trans hsince⟩
    | error _ _ => exact (hdrop.error hr).elim

/-- an error is that error at the end of an evaluation -/
theorem names_ended {f : Failure} {e : HeldError} (hm : m.Sane th b k)
    (hon : Machine.Onward th b k (m.onThread th fun t => { t with depth := (m.thread th).depth + 1 }) m') (he : f.Names e) :
    ∃ f' m'', (ended th m (.error f)).run m' = .error f' m'' ∧ f'.Names e ∧ m'.Since m'' := by
  have hback := (onward_setDepth hm hon).1
  have hsame : m'.Since (m'.onThread th fun t => { t with depth := (m.thread th).depth }) :=
    ⟨⟨[], rfl⟩, rfl, rfl, rfl, fun _ _ h => h⟩
  have hset : (setDepth th (m.thread th).depth).run m' = .ok () (m'.onThread th fun t => { t with depth := (m.thread th).depth }) :=
    rfl
  unfold ended
  rw [bind_ok hset]
  split
  · obtain ⟨f', m'', hrun, he', hsince⟩ := names_contain hm hback he (m.thread th).pins.size
    exact ⟨f', m'', hrun, he', hsame.trans hsince⟩
  · obtain ⟨f', m'', hrun, he', hsince⟩ := names_conclude he (m.thread th).pins.size
      (m'.onThread th fun t => { t with depth := (m.thread th).depth })
    exact ⟨f', m'', hrun, he', hsame.trans hsince⟩

/-! ## The journal goes on -/

theorem journal_bind (x : Act α) (f : α → Act β) (m : Machine) :
    (Outcome.machine (x.run m)).journal <:+ (Outcome.machine ((x >>= f).run m)).journal := by
  rw [run_bind]
  cases x.run m with
  | ok a m' => exact (f a).grows m'
  | error e m' => exact List.suffix_rfl

theorem journal_observe (x : Act α) (m : Machine) :
    (Outcome.machine ((observe x).run m)).journal = (Outcome.machine (x.run m)).journal := by
  rw [run_observe]
  cases x.run m <;> rfl

theorem journal_attempt (x : Act α) (m : Machine) :
    (Outcome.machine ((attempt x).run m)).journal = (Outcome.machine (x.run m)).journal := by
  unfold attempt
  simp only [run_bind, run_observe]
  cases x.run m with
  | ok a m' => rfl
  | error e m' => cases e <;> rfl

theorem run_withErrorObjects_congr {x y : Act α} (h : x.run m = y.run m') :
    (withErrorObjects th x).run m = (withErrorObjects th y).run m' := by
  unfold withErrorObjects attempt
  simp only [run_bind, run_observe, h]

/-- an attempt that error objects are made around -/
theorem run_withErrorObjects_attempt (x : Act α) (k : Except Cause α → Act β) (m : Machine) :
    (withErrorObjects th (attempt x >>= k)).run m = (attempt x >>= fun r => withErrorObjects th (k r)).run m := by
  unfold withErrorObjects attempt
  simp only [run_bind, run_observe]
  cases x.run m with
  | ok a m' => rfl
  | error f m' => cases f <;> rfl

theorem run_attempt_congr {x y : Act α} (h : x.run m = y.run m') : (attempt x).run m = (attempt y).run m' := by
  unfold attempt
  simp only [run_bind, run_observe, h]

end Act

/-! ## Watching -/

/-- an evaluation that is watched for -/
structure Watch where
  ev : Evaluator
  th : ThreadId
  value : Value
  mode : Mode
  machine : Machine

namespace Watch

open Act

variable (w : Watch)

noncomputable def watched : Evaluator := w.ev.watched w.value w.mode w.machine

/-- how the evaluation ends -/
def outcome : Outcome Value := (w.ev.eval w.value w.mode).run w.machine

/-- the value is a form that a handler tries, and all that comes of it lies before `m` -/
def Tried (m : Machine) : Prop :=
  w.mode = .value ∧ ∃ name body, body.IsPlain ∧
    (Outcome.machine ((catching w.ev w.th name w.value body).run w.machine)).journal <:+ m.journal

/-- what becomes of the error `e`, known at `m`: it goes on, or it may be caught and has been tried -/
def Lands {α : Type} (e : HeldError) (m : Machine) (r : Outcome α) : Prop :=
  (∃ f m', r = .error f m' ∧ f.Names e ∧ m.Since m') ∨ e.kind.isFatal = false ∧ w.Tried (Outcome.machine r)

/-- an action goes through the evaluation, and what becomes of an error of it is known -/
structure Onto {α : Type} (y : Act α) (m : Machine) : Prop where
  after : (Outcome.machine w.outcome).journal <:+ (Outcome.machine (y.run m)).journal
  lands : ∀ f m₁ e, w.outcome = .error f m₁ → f.Names e → w.Lands e m₁ (y.run m)

/-- the two actions have the same run, or the second goes through the evaluation -/
def Follows {α : Type} (x y : Act α) (m : Machine) : Prop := x.run m = y.run m ∨ w.Onto y m

variable {w} {α β : Type} {m m' : Machine} {x y : Act α} {f g : α → Act β}

theorem Tried.mono (h : w.Tried m) (hm : m.journal <:+ m'.journal) : w.Tried m' := by
  obtain ⟨hmode, name, body, hbody, hj⟩ := h
  exact ⟨hmode, name, body, hbody, hj.trans hm⟩

/-- an error that keeps its name lands -/
theorem Lands.of_names {α : Type} {x : Act α} {e : HeldError} {m₁ m' : Machine} (h : m₁.Since m')
    (hx : ∃ f' m'', x.run m' = .error f' m'' ∧ f'.Names e ∧ m'.Since m'') : w.Lands e m₁ (x.run m') := by
  obtain ⟨f', m'', hr, he, hsince⟩ := hx
  exact .inl ⟨f', m'', hr, he, h.trans hsince⟩

namespace Onto

theorem of_eq {z : Act β} {y : Act β} (h : w.Onto z m') (heq : y.run m = z.run m') : w.Onto y m := by
  obtain ⟨hafter, hlands⟩ := h
  exact ⟨heq ▸ hafter, fun f m₁ e hf he => heq ▸ hlands f m₁ e hf he⟩

theorem bind (h : w.Onto y m) (g : α → Act β) : w.Onto (y >>= g) m where
  after := h.after.trans (journal_bind y g m)
  lands f m₁ e hf he := by
    rcases h.lands f m₁ e hf he with ⟨f', m', hr, hnames, hsince⟩ | ⟨hkind, htried⟩
    · exact .inl ⟨f', m', bind_error hr, hnames, hsince⟩
    · exact .inr ⟨hkind, htried.mono (journal_bind y g m)⟩

/-- what is made of a failure that has been observed -/
theorem observe {k : Except Failure α → Act β} (h : w.Onto y m) (hfail : ∀ f e m₁ m', y.run m = .error f m' → f.Names e →
    m₁.Since m' → w.Lands e m₁ ((k (.error f)).run m')) : w.Onto (observe y >>= k) m where
  after := (journal_observe y m ▸ h.after).trans (journal_bind (Act.observe y) k m)
  lands f m₁ e hf he := by
    rcases h.lands f m₁ e hf he with ⟨f', m', hr, hnames, hsince⟩ | ⟨hkind, htried⟩
    · have hrun : (Act.observe y >>= k).run m = (k (.error f')).run m' := by rw [run_bind, run_observe, hr]
      exact hrun ▸ hfail f' e m₁ m' hr hnames hsince
    · exact .inr ⟨hkind, htried.mono (journal_observe y m ▸ journal_bind (Act.observe y) k m)⟩

/-- what is run afterwards clears up -/
theorem andThen {after : Act Unit} (h : w.Onto y m)
    (hafter : ∀ f m', y.run m = .error f m' → after.Ends m' (fun _ m'' => m'.Since m'') fun _ _ => False) :
    w.Onto (andThen y after) m := by
  refine h.observe (k := fun r => do after; settle r) fun f e m₁ m' hr hnames hsince => ?_
  have hcleared := hafter f m' hr
  cases ha : after.run m' with
  | ok _ m'' =>
    have hrun : (do after; settle (.error f) : Act α).run m' = .error f m'' := bind_ok ha
    exact .inl ⟨f, m'', hrun, hnames, hsince.trans (hcleared.ok ha)⟩
  | error _ _ => exact (hcleared.error ha).elim

/-- what an attempt makes of what has been observed -/
def attempted : Except Failure α → Act (Except Cause α)
  | .ok a => pure (.ok a)
  | .error (.raised c) => pure (.error c)
  | .error f => throw f

/-- what is made of the error of an attempt -/
theorem attempt {k : Except Cause α → Act β} (h : w.Onto y m) (hfail : ∀ e m₁ m', y.run m = .error (.raised (.object e)) m' →
    m₁.Since m' → w.Lands e m₁ ((k (.error (.object e))).run m')) : w.Onto (attempt y >>= k) m := by
  refine Onto.of_eq (z := Act.observe y >>= fun r => attempted r >>= k) (h.observe fun f e m₁ m' hr hnames hsince => ?_) ?_
  · rcases hnames with rfl | ⟨rfl, rfl⟩
    · exact hfail e m₁ m' hr hsince
    · exact .inl ⟨_, m', rfl, .inr ⟨rfl, rfl⟩, hsince⟩
  · unfold Act.attempt
    simp only [run_bind, run_observe]
    cases y.run m with
    | ok a m' => rfl
    | error f m' => cases f <;> rfl

end Onto

namespace Follows

theorem bind (h : w.Follows x y m) (hf : ∀ a m', y.run m = .ok a m' → w.Follows (f a) (g a) m') :
    w.Follows (x >>= f) (y >>= g) m := by
  rcases h with heq | honto
  · cases hr : y.run m with
    | ok a m' =>
      rcases hf a m' hr with h | h
      · exact .inl (by rw [bind_ok (heq.trans hr), bind_ok hr, h])
      · exact .inr (h.of_eq (bind_ok hr))
    | error e m' => exact .inl (by rw [bind_error (heq.trans hr), bind_error hr])
  · exact .inr (honto.bind g)

/-- the actions start in the same way -/
theorem after {z : Act α} (hf : ∀ a m', z.run m = .ok a m' → w.Follows (f a) (g a) m') :
    w.Follows (z >>= f) (z >>= g) m := bind (.inl rfl) hf

theorem observe {k : Except Failure α → Act β} (h : w.Follows x y m) (hfail : ∀ f e m₁ m', y.run m = .error f m' →
    f.Names e → m₁.Since m' → w.Lands e m₁ ((k (.error f)).run m')) :
    w.Follows (Act.observe x >>= k) (Act.observe y >>= k) m := by
  rcases h with heq | honto
  · exact .inl (by simp only [run_bind, run_observe, heq])
  · exact .inr (honto.observe hfail)

theorem attempt {k₁ k₂ : Except Cause α → Act β} (h : w.Follows x y m)
    (hk : ∀ r m', (Act.attempt y).run m = .ok r m' → w.Follows (k₁ r) (k₂ r) m')
    (hfail : ∀ e m₁ m', y.run m = .error (.raised (.object e)) m' → m₁.Since m' →
      w.Lands e m₁ ((k₂ (.error (.object e))).run m')) : w.Follows (Act.attempt x >>= k₁) (Act.attempt y >>= k₂) m := by
  rcases h with heq | honto
  · exact bind (.inl (run_attempt_congr heq)) hk
  · exact .inr (honto.attempt hfail)

theorem andThen {after : Act Unit} (h : w.Follows x y m)
    (hafter : ∀ f m', y.run m = .error f m' → after.Ends m' (fun _ m'' => m'.Since m'') fun _ _ => False) :
    w.Follows (andThen x after) (andThen y after) m := by
  rcases h with heq | honto
  · left
    unfold Act.andThen
    simp only [run_bind, run_observe, heq]
  · exact .inr (honto.andThen hafter)

theorem withErrorObjects {th : ThreadId} (h : w.Follows x y m) :
    w.Follows (withErrorObjects th x) (withErrorObjects th y) m :=
  h.attempt (fun _ _ _ => .inl rfl) fun _ _ m' _ hsince => .inl ⟨_, m', rfl, .inl rfl, hsince⟩

/-- a collection point is passed -/
theorem collecting {x y : Act Value} {f : Value → Act Value} (h : w.Follows x y m)
    (hy : ∀ c m', y.run m = .error (.raised c) m' → ∃ b k, m'.Sane w.th b k) :
    w.Follows (collecting x f) (collecting y f) m := by
  refine h.attempt (fun _ _ _ => .inl rfl) fun e m₁ m' hr hsince => ?_
  obtain ⟨b, k, hm'⟩ := hy _ m' hr
  have hpast := ends_maybeCollect_since hm'.beyond (E := fun _ _ => False)
  cases hcollect : maybeCollect.run m' with
  | ok p m'' => exact .inl ⟨_, m'', bind_ok hcollect, .inl rfl, hsince.trans (hpast.ok hcollect)⟩
  | error f m'' => exact (hpast.error hcollect).elim

/-- an action that is stopped goes through the evaluation -/
theorem onto (h : w.Follows x y m) (hx : x.IsStopped m) (hy : ¬ y.IsStopped m) : w.Onto y m :=
  h.resolve_left fun heq => hy (by unfold IsStopped Ends at *; rwa [heq] at hx)

/-- one evaluation -/
theorem eval (v : Value) (mode : Mode) (m : Machine) : w.Follows (w.watched.eval v mode) (w.ev.eval v mode) m := by
  by_cases h : v = w.value ∧ mode = w.mode ∧ m = w.machine
  · obtain ⟨rfl, rfl, rfl⟩ := h
    exact .inr ⟨List.suffix_rfl, fun f m₁ e hf he => .inl ⟨f, m₁, hf, he, .refl m₁⟩⟩
  · exact .inl (Evaluator.run_watched h)

/-- the evaluation that is watched for, if a handler tries it: a fatal error goes on, any other may be caught -/
theorem tried (name : Handle) {body : Value} (hbody : body.IsPlain) (hmode : w.mode = .value) :
    w.Onto (catching w.ev w.th name w.value body) w.machine where
  after := by
    unfold outcome catching
    rw [hmode, ← journal_attempt]
    exact journal_bind ..
  lands f m₁ e hf he := by
    unfold outcome at hf
    rw [hmode] at hf
    by_cases hkind : e.kind.isFatal = true
    · left
      unfold catching Act.attempt
      simp only [run_bind, run_observe, hf]
      rcases he with rfl | ⟨rfl, rfl⟩
      · refine ⟨.raised (.object e), m₁, ?_, .inl rfl, .refl m₁⟩
        have hrun : (handle w.ev w.th name body (.object e)).run m₁ = .error (.raised (.object e)) m₁ := by
          unfold handle
          rw [bind_ok (x := asError w.th (.object e)) rfl, if_pos hkind]
          rfl
        exact hrun
      · exact ⟨_, m₁, rfl, .inr ⟨rfl, rfl⟩, .refl m₁⟩
    · exact .inr ⟨Bool.eq_false_iff.2 hkind, hmode, name, body, hbody, List.suffix_rfl⟩

theorem catching (name : Handle) (form : Value) {body : Value} (hbody : body.IsPlain) (hhandle : ∀ c m',
    (Act.attempt (w.ev.eval form .value)).run m = .ok (.error c) m' →
      w.Follows (handle w.watched w.th name body c) (handle w.ev w.th name body c) m') :
    w.Follows (catching w.watched w.th name form body) (catching w.ev w.th name form body) m := by
  by_cases h : form = w.value ∧ .value = w.mode ∧ m = w.machine
  · obtain ⟨rfl, hmode, rfl⟩ := h
    exact .inr (tried name hbody hmode.symm)
  · refine bind (.inl (run_attempt_congr (Evaluator.run_watched h))) fun r m' hr => ?_
    cases r with
    | ok v => exact .inl rfl
    | error c => exact hhandle c m' hr

end Follows

/-- an action that uses the evaluator follows the one with the watched evaluator -/
theorem lifts (w : Watch) : Lifts w.th (fun _ x y m => w.Follows x y m) w.watched w.ev where
  refl _ _ := .inl rfl
  bind h hf := h.bind hf
  withErrorObjects h := h.withErrorObjects
  andThen h hafter := h.andThen fun f m' hr => (hafter f m' hr).mono (fun _ _ hb => hb.since) fun _ _ h => h
  eval v mode m := .eval v mode m
  collecting h hy := h.collecting hy
  catching name form _ _ hbody hhandle := .catching name form hbody hhandle
  steps := rfl

/-! ## Out of an evaluation -/

variable {w : Watch} {b : Nat} {m : Machine}

theorem follows_dispatch (hev : w.ev.Orderly w.th b) (hm : m.Sane w.th b b) (v : Value) (mode : Mode)
    (hv : mode = .place → v.StaysAbove b) : w.Follows (dispatch w.watched w.th v mode) (dispatch w.ev w.th v mode) m := by
  cases hsignal : v.isSignaling with
  | false => exact (tracks_dispatch w.lifts hev v mode hsignal hv).2 m hm
  | true => exact .inl (by rw [dispatch_of_isSignaling hsignal, dispatch_of_isSignaling hsignal])

/-- an error comes out of the evaluations around it -/
theorem follows_evaluate (hev : w.ev.Orderly w.th b) (hm : m.Sane w.th b b) (v : Value) (mode : Mode)
    (hv : mode = .place → v.StaysAbove b) : w.Follows (evaluate w.watched w.th v mode) (evaluate w.ev w.th v mode) m := by
  unfold evaluate openGuard nesting
  refine .after fun g m' hr => ?_
  cases hr
  refine .after fun p m' hr => ?_
  cases hr
  refine .after fun _ m' hr => ?_
  obtain rfl : m' = m.onThread w.th fun t => { t with depth := (m.thread w.th).depth + 1 } := by cases hr; rfl
  have hm₁ := sane_setDepth hm ((m.thread w.th).depth + 1)
  have hcame := cameTo_dispatch hev hm₁ v mode hv (m.thread w.th).depth ((m.thread w.th).stack.capacity * depthPerSlot)
  refine Follows.observe ?_ fun f e m₂ m₃ hr he hsince => ?_
  · split
    · exact .inl rfl
    · exact follows_dispatch hev hm₁ v mode hv
  · have hon := (hcame.ok (by rw [run_observe, hr])).1
    exact .of_names (x := ended w.th m (.error f)) hsince (names_ended hm hon he)

/-! ## Out of an operation -/

/-- what `evalFromStackBy` does when the form has been evaluated -/
def answerWith (th : ThreadId) (r : Except Cause Value) : Act Unit := do
  let v ← match r with
    | .ok v => pure v
    | .error c => do pure ((← asError th c).value .signaling)
  onStack th (·.closeFrameWith v)

/-- what a whole form comes to when it has been evaluated -/
def comeTo (th : ThreadId) : Act Value := do
  let r ← attempt (pop th)
  let _ ← maybeCollect
  match r with
  | .error c => raise (.object (← asError th c))
  | .ok v => unlessSignaling v

/-- an unwinding error whose object is there is that error -/
theorem run_unlessSignaling {e : HeldError} (he : m.heap.HoldsError e) :
    (unlessSignaling (e.value .signaling)).run m = .error (.raised (.object e)) m := by
  obtain ⟨s, x, hs, hserial, hcell, hkind⟩ := he
  obtain ⟨cell, epoch, serial, text⟩ := s
  cases hcell
  have hhandle : (e.value .signaling).handle? = some e.handle := rfl
  have hresolve : (resolve (e.value .signaling)).run m = .ok (some ⟨.error x, epoch, serial, text⟩) m := by
    simp only [resolve, hhandle, run_bind, run_get, hs, run_pure]
  have hobject : (asErrorObject (e.value .signaling)).run m = .ok (some e) m := by
    obtain ⟨⟨h, _⟩, _⟩ := e
    cases hserial
    cases hkind
    exact bind_ok hresolve
  exact bind_ok hobject

/-- an error that a frame is left with comes out as it went in -/
theorem lands_answered {form : Value} {m₁ m₂ m₃ : Machine} {e : HeldError} (hm : m.Sane w.th 2 0)
    (hempty : (m.thread w.th).height = 0) (hf : Framed w.th form m m₁) (heven : Machine.Even w.th 2 2 m₁ m₃)
    (he : m₃.heap.HoldsError e) (hsince : m₂.Since m₃) :
    w.Lands e m₂ ((withErrorObjects w.th (answerWith w.th (.error (.object e))) >>= fun _ => comeTo w.th).run m₃) := by
  have hsame : (onStack w.th (·.closeFrameWith (e.value .signaling))).Ends m₃
      (fun _ m' => m₃.Since m' ∧ m'.heap = m₃.heap) fun _ _ => True := ends_onStack_since _
  have hanswered := (ends_closeFrameWith hm hf heven (.inr ⟨e, rfl, he⟩) (E := fun _ _ => False)).and hsame
  cases hclose : (onStack w.th (·.closeFrameWith (e.value .signaling))).run m₃ with
  | error _ _ => exact (hanswered.error hclose).1.elim
  | ok _ m₄ =>
    obtain ⟨ha, hsince₄, hheap₄⟩ := hanswered.ok hclose
    have hanswer : (answerWith w.th (.error (.object e))).run m₃ = .ok () m₄ := hclose
    have hrun : (withErrorObjects w.th (answerWith w.th (.error (.object e)))).run m₃ = .ok () m₄ := by
      unfold Act.withErrorObjects Act.attempt
      simp only [run_bind, run_observe, hanswer]
      rfl
    rw [bind_ok hrun]
    have hpopped := (ends_pop hm hempty ha (E := fun _ _ => False)).and (Ends.attempt (P := fun r m' => ∀ v, r = .ok v →
      m₄.Since m' ∧ m'.heap = m₄.heap) (E := fun _ _ => True) ((ends_pop_since w.th m₄).mono (by rintro v m' h _ ⟨⟩; exact h) ?_))
    · cases hpop : (Act.attempt (pop w.th)).run m₄ with
      | error _ _ => exact (hpopped.error hpop).1.elim
      | ok r m₅ =>
        obtain ⟨⟨rfl, hon, -, hpinned, -⟩, hsame⟩ := hpopped.ok hpop
        obtain ⟨hsince₅, hheap₅⟩ := hsame _ rfl
        have hsecure : m₅.Secure w.th e := ⟨hheap₅ ▸ hheap₄ ▸ he, .inr ⟨.signaling, hpinned rfl⟩⟩
        have hbeyond (u : ThreadId) (hu : (m₅.thread u).isOpen = true) : (m₅.thread u).stack.beyond = 0 :=
          have hsame := hon.shape_any rfl rfl rfl u
          hsame.2.1.trans (hm.beyond u (hsame.1.symm.trans hu))
        have hcollected := (ends_maybeCollect (C := fun _ => True) hon.clean.heap (hon.isOpen hm)).and
          (ends_maybeCollect_since hbeyond (E := fun _ _ => False))
        cases hcollect : maybeCollect.run m₅ with
        | error _ _ => exact (hcollected.error hcollect).2.elim
        | ok _ m₆ =>
          obtain ⟨⟨-, hkept⟩, hsince₆⟩ := hcollected.ok hcollect
          have hcome : (comeTo w.th).run m₄ = .error (.raised (.object e)) m₆ :=
            (bind_ok hpop).trans ((bind_ok hcollect).trans (run_unlessSignaling (hkept e hsecure).holds))
          exact .inl ⟨_, m₆, hcome, .inl rfl, ((hsince.trans hsince₄).trans hsince₅).trans hsince₆⟩
    · intro f m' _
      cases f <;> first | trivial | rintro _ ⟨⟩

/-- an error comes out of the operation in which it is raised -/
theorem follows_evalTopLevelBy (hev : w.ev.Orderly w.th 2) (hm : m.Sane w.th 2 0) (hempty : (m.thread w.th).height = 0)
    {form : Value} (hform : form.IsPlain) :
    w.Follows (evalTopLevelBy w.watched w.th form) (evalTopLevelBy w.ev w.th form) m := by
  have hcame := cameTo_form hev hm hempty hform
  unfold evalTopLevelBy guarded openGuard
  refine .after fun g m' hr => ?_
  cases hr
  refine Follows.observe ?_ fun f e m₁ m' hr he hsince =>
    .of_names hsince (names_contain hm (hcame.ok (by rw [run_observe, hr])).1 he _)
  refine .after fun _ m₁ hr => ?_
  have hf := (ends_withErrorObjects hm (ends_makeFrame hm hempty hform)).ok hr
  have hm₁ : m₁.Sane w.th 2 2 :=
    { hf.sane hm with floor := le_rfl, above := by unfold Thread.height; rw [hf.items]; rfl }
  have hderef : Runs w.th 2 2 Cause.IsFine (derefPinned w.th (.ref (.stack (m₁.thread w.th).stack.id 0))) Value.IsPlain :=
    (runs_deref _).bind fun x hx => (runs_pin hx.2).bind fun _ _ => .pure hx
  cases hd : (derefPinned w.th (.ref (.stack (m₁.thread w.th).stack.id 0))).run m₁ with
  | error f m₂ =>
    have hfailed (ev : Evaluator) : (evalFromStackBy ev w.th).run m₁ = .error f m₂ :=
      (bind_ok (run_argReference hm hf)).trans (bind_error hd)
    exact .bind (.inl (run_withErrorObjects_congr ((hfailed _).trans (hfailed _).symm))) fun _ _ _ => .inl rfl
  | ok v m₂ =>
    have heven := ((hderef m₁ hm₁).ok hd).1
    have hstart (ev : Evaluator) : (withErrorObjects w.th (evalFromStackBy ev w.th) >>= fun _ => comeTo w.th).run m₁ =
        (Act.attempt (ev.eval v .value) >>= fun r => withErrorObjects w.th (answerWith w.th r) >>= fun _ => comeTo w.th).run m₂ := by
      have hform : (withErrorObjects w.th (evalFromStackBy ev w.th)).run m₁ =
          (Act.attempt (ev.eval v .value) >>= fun r => withErrorObjects w.th (answerWith w.th r)).run m₂ :=
        (run_withErrorObjects_congr ((bind_ok (run_argReference hm hf)).trans (bind_ok hd))).trans
          (run_withErrorObjects_attempt (ev.eval v .value) (answerWith w.th) m₂)
      rw [run_bind, hform]
      simp only [run_bind]
      cases (Act.attempt (ev.eval v .value)).run m₂ <;> rfl
    rcases Follows.eval (w := w) v .value m₂ with heq | honto
    · exact .inl ((hstart _).trans (Eq.trans (by rw [run_bind, run_bind, run_attempt_congr heq]) (hstart _).symm))
    · refine .inr (Onto.of_eq (honto.attempt fun e m₃ m₄ hr hsince => ?_) (hstart w.ev))
      have hfailed := (hev.value v m₂ (heven.sane hm₁)).error hr
      exact lands_answered hm hempty hf (heven.trans ⟨hfailed.onward, hfailed.quietly _ rfl, hfailed.level _ rfl⟩)
        (hfailed.secure e rfl).holds hsince

end Watch

end LispMachine
