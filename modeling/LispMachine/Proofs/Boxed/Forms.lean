/-
The primitives that make bindings or capture them, on two machines, one of which has its variables in boxes, and with them all
primitives.

Temporary bindings are slots on the left and new boxes on the right. What a function captures is promoted on the left when the
function is made; on the right there is nothing to do.
-/
import LispMachine.Proofs.Boxed.Frames

namespace LispMachine.Boxed

open Simulation (InStep Sim LooseSim Later Val Code Result EvalSim Args)

variable {th : ThreadId} {σ τ : Situation th} {ev ev' : Evaluator} {args args' : List Value}

/-! ## Temporary bindings -/

theorem run_andThen_congr {α : Type} {x y : Act α} {m : Machine} (h : x.run m = y.run m) (after : Act Unit) :
    (Act.andThen x after).run m = (Act.andThen y after).run m := by
  unfold Act.andThen
  rw [Act.run_bind, Act.run_observe, h, Act.run_bind, Act.run_observe]

/-- cleaning up after each of two parts is cleaning up after both -/
theorem run_onFailure_andThen {α β : Type} (x : Act α) (f : α → Act β) (after : Act Unit) (m : Machine) :
    (Act.onFailure x after >>= fun a => Act.andThen (f a) after).run m = (Act.andThen (x >>= f) after).run m := by
  unfold Act.onFailure Act.andThen
  simp only [Act.run_bind, Act.run_observe]
  cases x.run m with
  | ok a m => rfl
  | error e m =>
    simp only [Act.run_bind]
    cases after.run m <;> rfl

theorem withBindings_sim {α β : Type} {Q : Situation th → α → β → Prop} {syms syms' : List Handle} {vals vals' : List Value}
    (hsyms : List.Forall₂ (σ.pairing.obj .symbol) syms syms') (hvals : List.Forall₂ (Val σ) vals vals') {x : Act α} {y : Act β}
    (hx : ∀ τ, Later σ τ → Sim τ x y Q) (hQ : ∀ τ υ a b, Later τ υ → Q τ a b → Q υ a b) :
    Sim σ (Act.withBindings th syms vals x) (withBindings th syms' vals' y) Q := by
  obtain ⟨h, h', hh, hh', ho⟩ := current_open σ
  have hright : (withBindings th syms' vals' y).run σ.right = (Act.attempt (pure ()) >>= fun _ => do
      let env ← newScope (.scope h') syms' vals'
      Act.inScope th env y).run σ.right := by
    unfold withBindings
    rw [Act.bind_ok (run_currentScope hh')]
    rfl
  refine same_run ((Tandem.withBindings_eq ..).trans (Act.bind_ok rfl)) hright ?_
  refine InStep.bindSure (InStep.attemptedSure (fun _ _ _ h => h.elim) (pushAll_laid (F := fun _ _ _ => False) vals [] σ)) ?_
  intro τ r r' hτ hr
  cases hr with
  | error h => exact h.elim
  | ok hlaid =>
    obtain ⟨rfl, hlaid⟩ := hlaid
    have hf : Frame σ τ syms syms' (.scope h) (.scope h') vals vals' :=
      { laid := hlaid
        values := hvals.imp fun _ _ h => h.later hτ.later
        symbols := hsyms.imp fun _ _ => hτ.extends_.obj
        parent := .scope (hτ.extends_.opened ho) }
    have hrefs : [].reverse ++ Act.slotRefs (σ.left.thread th).stack.id σ.height vals.length = frameRefs σ τ vals := by
      rw [frameRefs, hτ.stays.id]
      rfl
    have hscope : (Act.currentScope th).run τ.left = .ok h τ.left := run_currentScope (by rw [hτ.stays.scopes]; exact hh)
    have hmade : ((do Act.newTransient th (.scope (← Act.currentScope th)) syms (frameRefs σ τ vals)) >>=
        fun env => Act.inScope th env x).run τ.left = (Act.newTransient th (.scope h) syms (frameRefs σ τ vals) >>=
          fun env => Act.inScope th env x).run τ.left := by
      rw [Act.run_bind_assoc, Act.bind_ok hscope]
    have hgo := framed_sim hf (fun υ hυ => hx υ (hτ.later.trans hυ)) hQ
    unfold Simulation.InStep at hgo ⊢
    rw [hrefs]
    rw [show (Act.onFailure _ _ >>= _).run (Simulation.left τ) = _ from
      (run_onFailure_andThen _ _ _ _).trans (run_andThen_congr hmade _)]
    exact hgo

/-! ## Making functions -/

theorem newFunction_sim {name name' : Option Handle} (hname : Option.Rel (σ.pairing.obj .symbol) name name')
    {params params' body body' : Value} (hparams : Code σ params params') (hbody : Code σ body body') {scope scope' : Handle}
    (hscope : σ.pairing.obj .scope scope scope') :
    LooseSim σ (Act.newFunction th name params body (some scope)) (newFunction th name' params' body' scope') Val := by
  unfold Act.newFunction newFunction
  refine (Simulation.parseParams_sim hparams).bind ?_
  rintro τ p p' _ ⟨rfl, hp⟩
  refine (Simulation.listLength_code hbody).bind ?_
  rintro υ _ _ _ ⟨rfl, -⟩
  -- the scope has been promoted already
  refine .of_sim (leftThen (promote_sim (.inl hscope)) fun φ _ hφ ho => ?_)
  have hlater : Later υ φ := .of_balanced hφ
  refine allocateFunction_sim ⟨optionRel_mono (fun _ _ => hlater.kept) hname, hp.mono fun _ _ _ => hlater.kept, ?_⟩ ?_
  · exact .forms (hbody.later hlater).1 (.scope ho)
  · rintro p special hb
    cases hb

theorem lambda_sim (hargs : Args (Code σ) args args') : Sim σ (Act.lambda th args) (lambda th args') Val := by
  unfold Act.lambda lambda
  refine (scopeForFunction_sim σ).bind fun τ scope scope' hτ hscope => ?_
  exact Simulation.withErrorObjects_loose th (newFunction_sim .none ((Simulation.arg_code hargs 0).later hτ)
    ((Simulation.arg_code hargs 1).later hτ) hscope)

theorem defun_sim (hargs : Args (Code σ) args args') : Sim σ (Act.defun th args) (defun th args') Val := by
  unfold Act.defun defun
  refine (Simulation.symbolArg_sim (Simulation.arg_code hargs 0).1).bind fun τ name name' hτ hname => ?_
  refine (scopeForFunction_sim τ).bind fun υ scope scope' hυ hscope => ?_
  have hlater := hτ.trans hυ
  refine Simulation.withErrorObjects_loose th ?_
  refine LooseSim.bind (newFunction_sim (.some (hυ.kept hname)) ((Simulation.arg_code hargs 1).later hlater)
    ((Simulation.arg_code hargs 2).later hlater) hscope) fun φ f f' hφ hf => ?_
  refine .of_sim ((globalScope_sim φ).bind ?_)
  rintro φ g g' _ ⟨rfl, hg⟩
  refine (Simulation.bind_sim th hg (hφ.kept (hυ.kept hname)) hf).bind fun ψ _ _ hψ _ => ?_
  exact .pure (hf.later hψ)

/-! ## Binding -/

theorem letIn_sim (hev : EvalSim (Situation th) ev ev') (hargs : Args (Code σ) args args') :
    Sim σ (Act.letIn ev th args) (letIn ev' th args') Val := by
  unfold Act.letIn letIn
  refine (Simulation.formsArg_sim (Simulation.arg_code hargs 0)).bind ?_
  rintro τ ks ks' _ ⟨rfl, hks⟩
  refine (Simulation.letBindings_sim hev hks .nil .nil).bind fun υ r r' hυ hr => ?_
  refine withBindings_sim hr.1 hr.2 (fun φ hφ => ?_) fun _ _ _ _ hle hv => hv.later hle
  exact Simulation.evalBody_sim hev ((Simulation.arg_code hargs 1).later (hυ.trans hφ))

theorem catching_sim {name name' : Handle} {form form' body body' : Value} (hev : EvalSim (Situation th) ev ev')
    (hname : σ.pairing.obj .symbol name name') (hform : Code σ form form') (hbody : Code σ body body') :
    Sim σ (Act.catching ev th name form body) (catching ev' th name' form' body') Val := by
  unfold Act.catching catching
  refine (Sim.attempt (hev.value hform)).bind fun τ r r' hτ hr => ?_
  cases hr with
  | ok hv => exact .pure hv
  | error hc =>
    cases hc with
    | raised hc =>
      unfold Act.handle
      refine (Simulation.asError_sim hc).bind fun υ e e' hυ he => ?_
      rw [he.kind]
      split
      · exact .raise (.object he)
      · -- that an error has been caught is noted on the left
        have hl := (Idle.refl th υ.left).note (.caught e name body)
        have hr := Idle.refl th υ.right
        have hlater := later_idle υ hl hr
        have hcaught : Val υ (e.value .quiet) (e'.value .quiet) := .error .quiet he.kept
        have hbody := hbody.later (hτ.trans hυ)
        refine resume hl hr (Act.bind_ok rfl) rfl ?_
        refine withBindings_sim (σ := υ.idle hl hr) (.cons (hlater.kept (hυ.kept (hτ.kept hname))) .nil)
          (.cons (hcaught.later hlater) .nil) (fun ψ hψ => ?_) fun _ _ _ _ hle hv => Val.later hle hv
        have hcaught := hcaught.later (hlater.trans hψ)
        have hbody := hbody.later (hlater.trans hψ)
        simp only [hbody.1.eq_nil]
        split
        · exact .pure hcaught
        · exact Simulation.evalBody_sim hev hbody

theorem catchError_sim (hev : EvalSim (Situation th) ev ev') (hargs : Args (Code σ) args args') :
    Sim σ (Act.catchError ev th args) (catchError ev' th args') Val := by
  unfold Act.catchError catchError
  refine (Simulation.symbolArg_sim (Simulation.arg_code hargs 1).1).bind fun τ name name' hτ hname => ?_
  exact catching_sim hev hname ((Simulation.arg_code hargs 0).later hτ) ((Simulation.arg_code hargs 2).later hτ)

/-! ## All primitives -/

theorem runPrimitive_sim (hev : EvalSim (Situation th) ev ev') {p : Primitive} (hhost : ∀ a, p ≠ .host a)
    (hargs : Args (Val σ) args args') : Sim σ (Act.runPrimitive ev th args p) (runPrimitive ev' th args' p) Result := by
  have hval {x y : Act Value} (h : Sim σ x y Val) : Sim σ x y Result := h.mono fun _ _ _ _ => .inl
  have hcode : Args (Code σ) args args' := hargs.imp fun _ _ h => ⟨h, trivial⟩
  have hplain (hp : p.bindsVariables = false) : Sim σ (Act.runPrimitive ev th args p) (Act.runPrimitive ev' th args' p) Result :=
    Simulation.runPrimitive_sim hev hp hhost (by unfold Simulation.Suited; split; exacts [hcode, hargs])
  cases p with
  | letIn => exact hval (letIn_sim hev hcode)
  | lambda => exact hval (lambda_sim hcode)
  | defun => exact hval (defun_sim hcode)
  | catchError => exact hval (catchError_sim hev hcode)
  | _ => exact hplain rfl

end LispMachine.Boxed
