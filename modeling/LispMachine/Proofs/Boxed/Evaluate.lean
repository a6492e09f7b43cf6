/-
Evaluation on two machines, one of which has its variables in boxes.

A call lays its arguments on the stack on the left and makes boxes of them on the right; the body runs in a scope over either. By
induction on the fuel, evaluating forms that stand for each other gives results or errors that do, unless the left run meets a full
heap or stack or takes a pass.
-/
import LispMachine.Proofs.Boxed.Forms
import LispMachine.Proofs.Failures
import LispMachine.Proofs.Simulation.Read
import LispMachine.Proofs.Tandem.Evaluate

namespace LispMachine.Boxed

open Simulation (InStep Sim LooseSim Later Val Code Result EvalSim Fn Args Site Observed)

variable {th : ThreadId} {σ τ υ : Situation th} {ev ev' : Evaluator} {mode : Mode} {v v' : Value}

/-! ## Results -/

/-- what the evaluation of a form gives: values, or in place mode places -/
def Out (mode : Mode) (form : Value) (σ : Situation th) (v v' : Value) : Prop :=
  match mode with
  | .value => Val σ v v'
  | .place => Site σ form v v'

/-- a value, or what a place holds, pinned -/
theorem plainValue_sim (h : Val σ v v' ∨ σ.Spot v v') : Sim σ (Act.plainValue th v) (Act.plainValue th v') Val := by
  unfold Act.plainValue
  rcases h with hv | hr
  · rw [hv.not_reference, hv.not_reference']
    exact .pure hv
  · obtain ⟨p, p', rfl, rfl⟩ := places hr
    obtain ⟨hlike, hin, hin'⟩ := load_like hr
    simp only [Value.isReference, if_true]
    refine Sim.bind (Q := fun τ x x' => τ = σ ∧ Val σ x x')
      (.read (Tandem.run_derefAll hin hlike.not_reference) (Tandem.run_derefAll hin' hlike.not_reference') ⟨rfl, hlike⟩) ?_
    rintro τ x x' _ ⟨rfl, hx⟩
    exact (pin_sim τ x x').bind fun υ _ _ hυ _ => .pure (hx.later hυ)

/-! ## Calls -/

/-- ordinary errors that stand for each other -/
inductive Raised (σ : Situation th) : Failure → Failure → Prop where
  | intro {c c' : Cause} : Simulation.Cause.Like σ c c' → Raised σ (.raised c) (.raised c')

/-- faults that both sides may meet are not mild -/
theorem Keeping.raised {α β : Type} {x : Act α} {y : Act β} {Q : Situation th → α → β → Prop} [hx : Act.Mild x]
    (h : Keeping σ Simulation.Failure.Like x y Q) : Keeping σ Raised x y Q := by
  rcases h with hs | ⟨τ, hτ, hend⟩
  · exact .inl hs
  · refine .inr ⟨τ, hτ, ?_⟩
    have hmild := hx.error (Simulation.left σ)
    generalize x.run (Simulation.left σ) = r, y.run (Simulation.right σ) = r' at hend hmild
    cases hend with
    | ok h => exact .ok h
    | error h =>
      have hmild := hmild _ _ rfl
      cases h with
      | raised hc => exact .error (.intro hc)
      | fault hf =>
        rcases hmild with ⟨c, hc⟩ | he | ⟨h, k, hk⟩
        · cases hc
        · exact absurd (Failure.fault.inj he) hf.2
        · exact absurd (Failure.fault.inj hk) (hf.1 h k)
      | outOfFuel => rcases hmild with ⟨c, hc⟩ | he | ⟨h, k, hk⟩ <;> contradiction

/-- what has been laid on the stack is what a primitive finds there -/
theorem run_frameValues {vs : List Value} (hlaid : Laid σ τ vs) :
    (Act.frameValues th σ.height vs.length).run τ.left = .ok vs τ.left := by
  refine congrArg (EStateM.Result.ok · τ.left) (List.ext_getElem (by simp) fun j hj hj' => ?_)
  have hv := (hlaid.values j hj').trans (List.getElem?_eq_getElem hj')
  simp only [List.getElem_map, List.getElem_range]
  exact (congrArg (·.getD .unset) hv :)

/-- what lies around a function that is kept is in use on both sides -/
theorem opened_outer {o o' : Outer} (h : o.Like τ.pairing.obj o') : o.Like (fun _ => τ.Open) o' := by
  cases h with
  | none => exact .none
  | scope ho => exact .scope (.inl ho)

/-- a function runs on what has been laid on the stack for it, and takes it from there -/
theorem runBody_sim (hev : EvalSim (Situation th) ev ev') {f f' : Function} (hf : Fn τ f f') {vs vs' : List Value}
    (hlaid : Laid σ τ vs) (hvs : Args (Val τ) vs vs') (hlen : vs.length = f.params.size) :
    InStep (fun _ υ => Situation.Balanced σ υ) Simulation.Failure.Like τ
      (Act.andThen (Act.runBody ev th f σ.height) (Act.dropSlots th f.params.size)) (runBody ev' th f' vs') Result := by
  have hbody := hf.like.body
  have hlater {τ υ : Situation th} {r r' : Value} (hle : Later τ υ) (hr : Result τ r r') : Result υ r r' := hr.later hle
  rw [← hlen]
  unfold Act.runBody runBody
  rw [← hlen]
  generalize hb : f.body = b, hb' : f'.body = b' at hbody
  cases hbody with
  | primitive p special =>
    obtain ⟨-, hhost⟩ := hf.suits p special hb
    have hrun : Sim τ (do Act.unlessSignaling (← Act.withErrorObjects th (Act.runPrimitive ev th vs p)))
        (do Act.unlessSignaling (← Act.withErrorObjects th (runPrimitive ev' th vs' p))) Result :=
      (Simulation.withErrorObjects_sim th (runPrimitive_sim hev hhost hvs)).bind fun _ _ _ _ hr =>
        Simulation.unlessSignaling_sim hr
    refine same_run (run_andThen_bind (run_frameValues hlaid)) rfl ?_
    exact ending_sim hrun (fun φ hφ => (hlaid.toKeeps.trans hφ.toKeeps).ends)
      (fun φ hφ => run_dropSlots (hφ.level.trans hlaid.level)) fun _ _ _ _ => hlater
  | forms hlist houter =>
    have hrun {l l' : Value} (hl : Val τ l l') (υ : Situation th) (hυ : Later τ υ) :
        Sim υ (Act.evalBody ev th l) (Act.evalBody ev' th l') Result :=
      (Simulation.evalBody_sim hev ⟨hl.later hυ, trivial⟩).mono fun _ _ _ _ => .inl
    have hframe : Frame σ τ f.params.symbols f'.params.symbols _ _ vs vs' :=
      { laid := hlaid
        values := hvs
        symbols := hf.like.params.symbols
        parent := opened_outer houter }
    have hid : (Act.stackId th).run τ.left = .ok (τ.left.thread th).stack.id τ.left := rfl
    refine same_run (run_andThen_bind hid) rfl ?_
    exact framed_sim hframe (hrun hlist) fun _ _ _ _ => hlater

theorem call_sim (hev : EvalSim (Situation th) ev ev') {f f' : Function} (hf : Fn σ f f') {args args' : List Value}
    (hargs : Args (Val σ) args args') : Sim σ (Act.call ev th f args) (call ev' th f' args') Result := by
  have hsize : (Act.stackSize th).run σ.left = .ok σ.height σ.left :=
    congrArg (EStateM.Result.ok · σ.left) (Tandem.size_eq σ.agree.whole)
  unfold Act.call call Act.withErrorObjects
  refine same_run (Act.bind_ok hsize) (Act.run_bind_assoc ..) ?_
  rw [← hf.like.isSpecial_eq]
  refine InStep.bindSure (InStep.attemptedSure (F := Raised) ?_ (pushArgs_lays hf.like.params hargs).raised) ?_
  · rintro τ _ _ ⟨-⟩
    exact ⟨_, _, rfl, rfl⟩
  intro τ r r' hτ hr
  cases hr with
  | ok hlays =>
    obtain ⟨vs, hlaid, hvs, hlen⟩ := hlays
    exact runBody_sim hev (hf.later hτ.later) hlaid hvs hlen
  | @error c c' hc =>
    obtain ⟨hc⟩ := hc
    obtain ⟨υ, hυ, hlater, hleft, hright⟩ := hτ.ends
    have hdrop : (Act.dropAbove th σ.height).run τ.left = .ok () υ.left :=
      (Tandem.run_dropAbove τ.agree.whole _).trans (congrArg (EStateM.Result.ok ()) hleft.symm)
    -- the error is made when the stack has been cut back
    have hraise : Sim υ (do Act.raise (.object (← Act.asError th c)))
        ((do Act.raise (.object (← Act.asError th c'))) >>= runBody ev' th f') Result := by
      refine same_run rfl (Act.run_bind_assoc ..) ((Simulation.asError_sim (hc.later hlater)).bind fun φ e e' _ he => ?_)
      exact Simulation.failed φ (.refl φ) rfl rfl (.raised (.object he))
    exact leftAfter υ hdrop hright (InStep.mono hraise (fun _ => hυ.trans) (fun _ _ _ _ => id) fun _ _ _ _ => id)

/-! ## Forms -/

/-- a pass is no part of the other run -/
theorem maybeCollect_sim (σ : Situation th) : Sim σ Act.maybeCollect (pure ()) fun _ _ _ => True := by
  unfold Act.maybeCollect
  refine leftThen (P := fun τ _ _ => τ = σ) (.read rfl rfl rfl) ?_
  rintro τ m - rfl
  split
  · exact .pure trivial
  · split
    · exact .pure trivial
    · exact passing rfl

/-- what is attempted and goes on only if it succeeds is a sequence -/
theorem run_attempt_bind {α β : Type} (x : Act α) (f : α → Act β) (m : Machine) :
    (x >>= f).run m = (Act.attempt x >>= fun r => match r with
      | .ok a => f a
      | .error c => Act.raise c).run m := by
  unfold Act.attempt
  rw [Act.run_bind_assoc, Act.run_bind, Act.run_bind, Act.run_observe]
  cases x.run m with
  | ok a m => rfl
  | error e m => cases e <;> rfl

/-- what becomes of the result of a call -/
theorem result_sim {form : Value} (hv : Result σ v v') :
    Sim σ
      (match mode with
        | .place => if v.isReference then pure v else Act.raiseError th .notAReference v .nil
        | .value => Act.plainValue th v)
      (match mode with
        | .place => if v'.isReference then pure v' else Act.raiseError th .notAReference v' .nil
        | .value => Act.plainValue th v') (Out mode form) := by
  cases mode with
  | value => exact plainValue_sim (hv.imp_right Simulation.spot_of_placed)
  | place =>
    rcases hv with hv | hr
    · simp only [hv.not_reference, hv.not_reference']
      exact Simulation.raiseError_sim .notAReference hv.live .nil
    · obtain ⟨href, href'⟩ := Simulation.isReference_of_spot (Simulation.spot_of_placed hr)
      simp only [href, href']
      exact .pure (.inl hr)

/-- a call and what is made of its result -/
theorem applied_sim (hev : EvalSim (Situation th) ev ev') {f f' : Function} (hf : Fn σ f f') {args args' : List Value}
    (hargs : Args (Val σ) args args') (form : Value) :
    Sim σ (do
        let r ← Act.attempt (Act.call ev th f args)
        let _ ← Act.maybeCollect
        match r with
        | .error c => Act.raise c
        | .ok result =>
          match mode with
          | .place => if result.isReference then return result else Act.raiseError th .notAReference result .nil
          | .value => Act.plainValue th result)
      (do
        let result ← call ev' th f' args'
        match mode with
        | .place => if result.isReference then return result else Act.raiseError th .notAReference result .nil
        | .value => Act.plainValue th result) (Out mode form) := by
  refine same_run rfl (run_attempt_bind ..) ((Sim.attempt (call_sim hev hf hargs)).bind fun τ r r' _ hr => ?_)
  refine leftThen (maybeCollect_sim τ) fun υ _ hυ _ => ?_
  have hlater : Later τ υ := .of_balanced hυ
  cases hr with
  | ok hr => exact result_sim (hr.later hlater)
  | error hc =>
    cases hc with
    | raised hc => exact .raise (hc.later hlater)

theorem function_lasts {hp hp' : Heap} (hl : hp.Lasts hp') {h : Handle} {f : Function} (hc : hp.cell? h = some (.function f)) :
    hp'.cell? h = some (.function f) := by
  obtain ⟨s, hs, hcell⟩ := Heap.cell?_eq_some.1 hc
  obtain ⟨u, hu, -, -, hsame⟩ := hl.slot h s hs
  exact (Heap.cell?_of_slot? hu).trans (congrArg some ((hsame (by rw [hcell]; rfl)).trans hcell))

/-- a head is a function on both sides or on neither, and on the left it stays what it is -/
theorem head_function (hv : Val σ v v') :
    ((Act.asFunction v).run σ.left = .ok none σ.left ∧ (Act.asFunction v').run σ.right = .ok none σ.right) ∨
    ∃ f f', Fn σ f f' ∧ (∀ τ, Situation.Balanced σ τ → (Act.asFunction v).run τ.left = .ok (some f) τ.left) ∧
      (Act.asFunction v').run σ.right = .ok (some f') σ.right := by
  cases hv with
  | @function h h' hk =>
    obtain ⟨c, c', hc, hc', hlike, hkind⟩ := σ.agree.store.cell hk
    cases hlike <;> cases hkind
    obtain ⟨hf, htext, hsuits⟩ := Simulation.kept_function (σ := σ) hk hc hc'
    exact .inr ⟨_, _, ⟨hf, htext, hsuits⟩, fun τ hτ => Tandem.run_asFunction (function_lasts hτ.lasts hc),
      Tandem.run_asFunction hc'⟩
  | _ => exact .inl ⟨rfl, rfl⟩

theorem apply_sim (hev : EvalSim (Situation th) ev ev') {c c' : Held} (hc : Simulation.TextPair σ c c') (form : Value) :
    Sim σ (Act.apply ev th c mode) (apply ev' th c' mode) (Out mode form) := by
  unfold Act.apply apply
  refine (Simulation.carOf_sim hc).bind ?_
  rintro τ a a' _ ⟨rfl, ha⟩
  refine (hev.value ha).bind fun τ head head' hτ hhead => ?_
  rcases head_function hhead with ⟨hx, hy⟩ | ⟨f, f', hf, hx, hy⟩
  · exact InStep.after (τ := τ) hx hy (Simulation.raiseType_sim "function" hhead.live)
  refine InStep.after (τ := τ) (hx τ (.refl τ)) hy ?_
  have hforms : Sim τ (Act.withErrorObjects th (do Act.listItems (← Act.cdrOf c)))
      (Act.withErrorObjects th (do Act.listItems (← Act.cdrOf c'))) fun υ vs vs' => υ = τ ∧ Args (Code τ) vs vs' := by
    refine Simulation.withErrorObjects_loose th (LooseSim.bind (.of_sim (Simulation.cdrOf_sim (hc.later hτ))) ?_)
    rintro υ d d' _ ⟨rfl, hd⟩
    exact Simulation.listItems_code hd
  refine Sim.bind hforms ?_
  rintro τ forms forms' _ ⟨rfl, hforms⟩
  simp only [← hf.like.isSpecial_eq]
  split
  · refine same_run ((Act.bind_ok rfl).trans (Act.bind_ok (hx τ (.refl τ)))) (Act.bind_ok rfl) ?_
    exact applied_sim hev hf (hforms.imp fun _ _ h => h.1) form
  · refine (Simulation.keepAll_sim hforms).bind ?_
    rintro τ ks ks' _ ⟨rfl, hks⟩
    refine InStep.bind (Simulation.evalArgs_sim hev hks .nil) (fun _ => id) fun υ args args' hυ hargs => ?_
    refine InStep.mono (R := Situation.Balanced) ?_ (fun _ => Situation.Balanced.trans hυ) (fun _ _ _ _ => id) fun _ _ _ _ => id
    -- looked at again after the arguments, the function is the same
    refine same_run (Act.bind_ok (hx υ hυ)) rfl ?_
    exact applied_sim hev (hf.later (.of_balanced hυ)) hargs form

theorem selfEvaluating_sim {form : Value} (hv : Val σ v v') :
    Sim σ (Act.selfEvaluating th v mode) (Act.selfEvaluating th v' mode) (Out mode form) := by
  cases mode with
  | value => exact .pure hv
  | place => exact Simulation.raiseError_sim .notAReference hv.live .nil

theorem lookup_sim {sym sym' : Handle} (hsym : σ.pairing.obj .symbol sym sym') :
    Sim σ (Act.lookup th sym) (Act.lookup th sym') Situation.Spot := by
  unfold Act.lookup
  refine (currentScope_sim σ).bind ?_
  rintro τ h h' _ ⟨rfl, ho⟩
  refine Sim.get ?_
  have hr := lookup?_spot ho hsym
  simp only [Simulation.left, Simulation.right]
  generalize τ.left.lookup? h sym = o, τ.right.lookup? h' sym' = o' at hr
  cases hr with
  | none => exact Simulation.raiseError_sim .unboundSymbol (.symbol hsym) .nil
  | some hr => exact .pure hr

theorem dispatch_sim (hev : EvalSim (Situation th) ev ev') (hv : Val σ v v') :
    Sim σ (Act.dispatch ev th v mode) (dispatch ev' th v' mode) (Out mode v) := by
  unfold dispatch Act.dispatch
  cases hv with
  | @symbol h h' hk =>
    refine (Simulation.asSymbol_sim (σ := σ) (.symbol hk)).bind ?_
    rintro τ _ _ _ ⟨rfl, hsym | _⟩
    rotate_left
    · exact .fault (by simp) (by simp)
    refine Sim.get ?_
    rw [Simulation.symbolName_eq hsym.1]
    split
    · exact selfEvaluating_sim (.symbol hk)
    · refine (lookup_sim hsym.1).bind fun υ r r' _ hr => ?_
      cases mode with
      | place => exact .pure (.inr ⟨⟨h, rfl⟩, hr⟩)
      | value => exact plainValue_sim (.inr hr)
  | @cons h h' hk =>
    refine (Simulation.asCons_code (σ := σ) ⟨.cons hk, trivial⟩).bind ?_
    rintro τ _ _ _ ⟨rfl, hc | _⟩
    · exact apply_sim hev hc _
    · exact .fault (by simp) (by simp)
  | float x => exact selfEvaluating_sim (.float x)
  | nil => exact selfEvaluating_sim .nil
  | t => exact selfEvaluating_sim .t
  | unset => exact selfEvaluating_sim .unset
  | int n => exact selfEvaluating_sim (.int n)
  | uint n => exact selfEvaluating_sim (.uint n)
  | reserved sub val => exact selfEvaluating_sim (.reserved sub val)
  | scope hk => exact selfEvaluating_sim (.scope hk)
  | function hk => exact selfEvaluating_sim (.function hk)
  | error mood hk =>
    cases mood with
    | quiet => exact selfEvaluating_sim (.error .quiet hk)
    | signaling =>
      simp only [Act.unlessSignaling, Value.isSignaling, if_true]
      refine (Simulation.asErrorObject_sim (σ := σ) .signaling hk).bind ?_
      rintro τ _ _ _ ⟨rfl, e, e', rfl, rfl, he⟩
      exact .raise (.object he)

/-! ## Guards -/

/-- an outcome that no guard changes -/
def Calm (r : Except Failure Value) : Prop := r ≠ .error (.raised .lostError) ∧ r ≠ .error (.fault .exhausted)

/-- failures that no guard changes, and that go on standing for each other whatever is pinned -/
structure Steady (F : Situation th → Failure → Failure → Prop) : Prop where
  calm : ∀ {τ e e'}, F τ e e' → Calm (.error e) ∧ Calm (.error e')
  idle : ∀ {τ e e' l r} (hl : Idle th τ.left l) (hr : Idle th τ.right r), F τ e e' → F (τ.idle hl hr) e e'

theorem calm_of_like {e e' : Failure} (he : Simulation.Failure.Like σ e e') : Calm (.error e) ∧ Calm (.error e') := by
  cases he with
  | raised hc =>
    cases hc with
    | object _ => simp [Calm]
    | bare hb => simp [Calm, hb.lost]
  | fault hf => simp [Calm, hf.2]
  | outOfFuel => simp [Calm]

theorem steady_like : Steady fun (σ : Situation th) => Simulation.Failure.Like σ :=
  ⟨calm_of_like, fun hl hr he => he.later (later_idle _ hl hr)⟩

theorem steady_loose : Steady fun (σ : Situation th) => Simulation.Failure.Loose σ where
  calm he := by
    cases he with
    | like he => exact calm_of_like he
    | improperList _ => simp [Calm]
  idle hl hr he := by
    cases he with
    | like he => exact .like (he.later (later_idle _ hl hr))
    | improperList hv => exact .improperList (hv.later (later_idle _ hl hr))

theorem calm_of_observed {F : Situation th → Failure → Failure → Prop} (hF : Steady F) {Q : Situation th → Value → Value → Prop}
    {r r' : Except Failure Value} (h : Observed F Q σ r r') : Calm r ∧ Calm r' := by
  cases h with
  | ok _ => simp [Calm]
  | error he => exact hF.calm he

theorem contain_calm {r : Except Failure Value} (hr : Calm r) (base : Nat) : Act.contain th base r = pure r := by
  unfold Act.contain
  split
  · exact absurd rfl hr.2
  · rfl

/-- a way to end that changes nothing but pins and depths -/
def Settles (th : ThreadId) (k : Except Failure Value → Act Value) : Prop :=
  ∀ (m : Machine) r, (m.thread th).isOpen = true → Calm r → ∃ m', Idle th m m' ∧ (k r).run m = (Act.settle r).run m'

theorem settles_settle : Settles th Act.settle := fun m _ _ _ => ⟨m, .refl th m, rfl⟩

theorem settles_conclude (n : Nat) : Settles th (Act.conclude th n) := by
  intro m r ho hr
  refine ⟨m.onThread th (Thread.unpinning n (Act.outcomeKept r)), (Idle.refl th m).onThread ho fun _ => ⟨rfl, rfl, rfl⟩, ?_⟩
  unfold Act.conclude
  split
  · exact absurd rfl hr.1
  · exact Act.bind_ok rfl

theorem settles_closeGuard (g : Act.Guard) : Settles th (Act.closeGuard th g) := by
  intro m r ho hr
  unfold Act.closeGuard
  rw [contain_calm hr]
  exact settles_conclude g.pins m r ho hr

/-- the end of an evaluation; only the outermost contains a full heap -/
theorem settles_leave (depth n base : Nat) : Settles th (fun r => do
    Act.setDepth th depth
    Act.conclude th n (← if depth = 0 then Act.contain th base r else pure r)) := by
  intro m r ho hr
  have hidle := (Idle.refl th m).depth ho depth
  obtain ⟨m', hm, hrun⟩ := settles_conclude n _ r (hidle.isOpen.trans ho) hr
  refine ⟨m', hidle.trans hm, ?_⟩
  simp only [contain_calm hr, ite_self]
  exact hrun

theorem run_observe_settle {α : Type} (x : Act α) (m : Machine) : (Act.observe x >>= Act.settle).run m = x.run m := by
  rw [Act.run_bind, Act.run_observe]
  cases x.run m <;> rfl

section

variable {F : Situation th → Failure → Failure → Prop} {R : Situation th → Situation th → Prop}
  {Q : Situation th → Value → Value → Prop} {x y : Act Value} (hF : Steady F)
  (h : InStep R F σ x y Q) (hR : ∀ τ υ, R σ τ → Situation.Balanced τ υ → R σ υ)
  (hQ : ∀ (τ : Situation th) {l r} (hl : Idle th τ.left l) (hr : Idle th τ.right r) a b, Q τ a b → Q (τ.idle hl hr) a b)
include hF h hR hQ

/-- runs in step that are ended so on both sides -/
theorem settling {k k' : Except Failure Value → Act Value} (hk : Settles th k) (hk' : Settles th k') :
    InStep R F σ (Act.observe x >>= k) (Act.observe y >>= k') Q := by
  refine InStep.observing h fun τ r r' hτ hr => ?_
  obtain ⟨hcalm, hcalm'⟩ := calm_of_observed hF hr
  obtain ⟨l, hl, hx⟩ := hk τ.left r τ.agree.isOpen hcalm
  obtain ⟨m, hm, hy⟩ := hk' τ.right r' τ.agree.isOpen' hcalm'
  have hend : Observed F Q (τ.idle hl hm) r r' := by
    cases hr with
    | ok h => exact .ok (hQ τ hl hm _ _ h)
    | error he => exact .error (hF.idle hl hm he)
  have hgo := InStep.settle (R := fun _ υ => R σ υ) (hR _ _ hτ (τ.balanced_idle hl hm)) hend
  unfold Simulation.InStep at hgo ⊢
  rw [show (k r).run (Simulation.left τ) = _ from hx, show (k' r').run (Simulation.right τ) = _ from hy]
  exact hgo

/-- a guard on the left only -/
theorem guarded_left : InStep R F σ (Act.guarded th x) y Q :=
  same_run (z := Act.observe x >>= Act.closeGuard th ⟨(σ.left.thread th).pins.size, (σ.left.thread th).stack.size⟩) rfl
    (run_observe_settle y _).symm (settling hF h hR hQ (settles_closeGuard _) settles_settle)

/-- guards on both sides -/
theorem guarded_both : InStep R F σ (Act.guarded th x) (Act.guarded th y) Q :=
  same_run (z := Act.observe x >>= Act.closeGuard th ⟨(σ.left.thread th).pins.size, (σ.left.thread th).stack.size⟩)
    (w := Act.observe y >>= Act.closeGuard th ⟨(σ.right.thread th).pins.size, (σ.right.thread th).stack.size⟩) rfl rfl
    (settling hF h hR hQ (settles_closeGuard _) (settles_closeGuard _))

end

theorem Out.idle {form : Value} {l r : Machine} (hl : Idle th σ.left l) (hr : Idle th σ.right r) (h : Out mode form σ v v') :
    Out mode form (σ.idle hl hr) v v' := by
  cases mode with
  | value => exact h
  | place =>
    refine Or.imp_right (And.imp_right fun hspot => ?_) h
    obtain ⟨g, sym, hvar⟩ := hspot
    exact ⟨g, sym, (congrArg Stack.id hl.stack).symm ▸ hvar⟩

/-! ## Evaluation -/

theorem evaluate_sim (hev : EvalSim (Situation th) ev ev') (hv : Val σ v v') :
    Sim σ (Act.evaluate ev th v mode) (dispatch ev' th v' mode) (Out mode v) := by
  let t := σ.left.thread th
  let limit := t.stack.capacity * Act.depthPerSlot
  let inside : Act Value := do
    if limit < t.depth + 1 then
      Act.note .overflowed
      Act.raiseError th .stackOverflow (Act.int32 (t.depth + 1 : Nat)) (Act.int32 limit)
    else Act.dispatch ev th v mode
  have hl := (Idle.refl th σ.left).depth σ.agree.isOpen (t.depth + 1)
  have hr := Idle.refl th σ.right
  refine resume (w := Act.observe (dispatch ev' th v' mode) >>= Act.settle) hl hr ?_ (run_observe_settle _ _).symm
    (settling (x := inside) steady_like ?_ (fun _ _ => Situation.Balanced.trans) (fun τ _ _ hl hr _ _ h => h.idle hl hr)
      (settles_leave t.depth t.pins.size t.stack.size) settles_settle)
  · rfl
  by_cases hdeep : limit < t.depth + 1
  · simp only [inside, hdeep, if_true]
    exact interrupting rfl
  · simp only [inside, hdeep, if_false]
    exact dispatch_sim hev (Val.later (later_idle σ hl hr) hv)

/-- forms that stand for each other evaluate in step -/
theorem eval_sim (th : ThreadId) (fuel : Nat) :
    EvalSim (Situation th) ⟨LispMachine.eval th fuel, fuel⟩ ⟨eval th fuel, fuel⟩ := by
  induction fuel with
  | zero => exact ⟨rfl, fun _ => .throw .outOfFuel, fun _ => .throw .outOfFuel⟩
  | succ n ih => exact ⟨rfl, fun hv => evaluate_sim ih hv.1, fun hv => evaluate_sim ih hv.1⟩

end LispMachine.Boxed
