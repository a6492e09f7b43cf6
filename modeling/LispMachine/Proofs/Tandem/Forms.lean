/-
The primitives that make bindings or capture them, on two machines in tandem, and with them all primitives.
-/
import LispMachine.Proofs.Tandem.Frames

namespace LispMachine.Tandem

open Machine (Corr)
open Simulation (InStep Sim LooseSim QuietSim Later Val Code Result EvalSim Args)

variable {th : ThreadId} {same : Bool} {σ τ : Tandem th same} {ev ev' : Evaluator} {args args' : List Value}

/-! ## Making functions -/

/-- a function made on both sides and pinned -/
theorem allocateFunction_sim {f f' : Function} (hf : f.Like σ.Kept f')
    (htext : ∀ list outer, f.body = .forms list outer → list.IsText σ.left.heap)
    (hsuits : ∀ p special, f.body = .primitive p special → p.Suits special) :
    Sim σ (Act.allocatePinned th (.function f) .function) (Act.allocatePinned th (.function f') .function) Val := by
  have hsame : (Cell.function f).Same (Corr σ.left σ.right) (.function f') :=
    (Cell.Like.function (hf.mono fun _ _ _ => Kept.corr)).same (by simp [Cell.kind])
  refine Sim.mono (allocatePinned_sim (by simp [Cell.kind]) hsame (fun epoch serial => ⟨by simp, ?_, ?_, by simp⟩)
    fun ρ h h' => .function).sim fun _ _ _ _ h => h.1
  · rintro g list outer hg hb
    cases hg
    exact htext list outer hb
  · rintro g p special hg hb
    cases hg
    exact hsuits p special hb

theorem newFunction_sim {name name' : Option Handle} (hname : Option.Rel (σ.Kept .symbol) name name')
    {params params' body body' : Value} (hparams : Code σ params params') (hbody : Code σ body body') {scope scope' : Handle}
    (hscope : σ.Kept .scope scope scope') :
    LooseSim σ (Act.newFunction th name params body (some scope)) (Act.newFunction th name' params' body' (some scope')) Val := by
  unfold Act.newFunction
  refine (Simulation.parseParams_sim hparams).bind ?_
  rintro τ p p' _ ⟨rfl, hp⟩
  refine (Simulation.listLength_code hbody).bind ?_
  rintro υ _ _ _ ⟨rfl, -⟩
  refine .of_sim ((promote_sim hscope).bind fun φ _ _ hφ _ => ?_)
  have hbody := hbody.later hφ
  refine allocateFunction_sim ⟨?_, ?_, ?_⟩ ?_ ?_
  · exact optionRel_mono (fun _ _ => hφ.kept) hname
  · exact hp.mono fun _ _ _ => hφ.kept
  · exact .forms hbody.1 (.scope (hφ.kept hscope))
  · rintro list outer hb
    cases hb
    exact hbody.2
  · rintro p special hb
    cases hb

theorem newPrimitive_sim {name name' : Option Handle} (hname : Option.Rel (σ.Kept .symbol) name name')
    {params params' : Value} (hparams : Code σ params params') {special : Bool} {p : Primitive} (hp : p.Suits special) :
    LooseSim σ (Act.newPrimitive th name params special p) (Act.newPrimitive th name' params' special p) Val := by
  unfold Act.newPrimitive
  refine (Simulation.parseParams_sim hparams).bind ?_
  rintro τ ps ps' _ ⟨rfl, hps⟩
  refine .of_sim (allocateFunction_sim ⟨hname, hps, .primitive p special⟩ (by rintro list outer ⟨⟩) ?_)
  rintro q special' hb
  cases hb
  exact hp

theorem lambda_sim (hargs : Args (Code σ) args args') : Sim σ (Act.lambda th args) (Act.lambda th args') Val := by
  unfold Act.lambda
  refine (scopeForFunction_sim σ).bind fun τ scope scope' hτ hscope => ?_
  exact Simulation.withErrorObjects_loose th (newFunction_sim .none ((Simulation.arg_code hargs 0).later hτ)
    ((Simulation.arg_code hargs 1).later hτ) hscope)

theorem defun_sim (hargs : Args (Code σ) args args') : Sim σ (Act.defun th args) (Act.defun th args') Val := by
  unfold Act.defun
  refine (Simulation.symbolArg_sim (Simulation.arg_code hargs 0).1).bind fun τ name name' hτ hname => ?_
  refine (scopeForFunction_sim τ).bind fun υ scope scope' hυ hscope => ?_
  have hlater := hτ.trans hυ
  refine Simulation.withErrorObjects_loose th ?_
  refine LooseSim.bind (newFunction_sim (.some (hυ.kept hname)) ((Simulation.arg_code hargs 1).later hlater)
    ((Simulation.arg_code hargs 2).later hlater) hscope) fun φ f f' hφ hf => ?_
  refine .of_sim ((globalScope_sim φ).bind ?_)
  rintro φ g g' _ ⟨rfl, hg⟩
  refine (Simulation.bind_sim th hg (hφ.kept (hυ.kept hname)) hf).bind fun ψ _ _ hψ _ => ?_
  exact .pure (hf.later hψ)

/-! ## Temporary bindings -/

theorem letIn_sim (hev : EvalSim (Tandem th same) ev ev') (hargs : Args (Code σ) args args') :
    Sim σ (Act.letIn ev th args) (Act.letIn ev' th args') Val := by
  unfold Act.letIn
  refine (Simulation.formsArg_sim (Simulation.arg_code hargs 0)).bind ?_
  rintro τ ks ks' _ ⟨rfl, hks⟩
  refine (Simulation.letBindings_sim hev hks .nil .nil).bind fun υ r r' hυ hr => ?_
  refine withBindings_sim hr.1 hr.2 (fun φ hφ => ?_) fun _ _ _ _ hle hv => hv.later hle
  exact Simulation.evalBody_sim hev ((Simulation.arg_code hargs 1).later (hυ.trans hφ))

/-- errors that stand for each other on one machine are one error -/
theorem error_eq (hsame : same = true) {e e' : HeldError} (he : Simulation.Err σ e e') : e = e' := by
  obtain ⟨hkept, hkind, ⟨_, hlabel⟩, _, hlabel'⟩ := he
  have hhandle : e.handle = e'.handle := handle_eq hsame hkept.corr
  change (σ.left.heap.slot? _).map _ = _ at hlabel
  change (σ.right.heap.slot? _).map _ = _ at hlabel'
  rw [σ.eq hsame, hhandle, hlabel'] at hlabel
  obtain ⟨⟨h, serial⟩, kind⟩ := e
  obtain ⟨⟨h', serial'⟩, kind'⟩ := e'
  cases hhandle
  cases hkind
  cases hlabel
  rfl

theorem catching_sim {name name' : Handle} {form form' body body' : Value} (hev : EvalSim (Tandem th same) ev ev')
    (hname : σ.Kept .symbol name name') (hform : Code σ form form') (hbody : Code σ body body') :
    Sim σ (Act.catching ev th name form body) (Act.catching ev' th name' form' body') Val := by
  unfold Act.catching
  refine (Sim.attempt (hev.value hform)).bind fun τ r r' hτ hr => ?_
  cases hr with
  | ok hv => exact .pure hv
  | error hc =>
    cases hc with
    | raised hc =>
      unfold Act.handle
      refine (Simulation.asError_sim hc).bind fun υ e e' hυ he => ?_
      rw [he.kind]
      split
      · exact .raise (.object he)
      · have hcaught : same = true → Event.caught e name body = .caught e' name' body' := fun hsame => by
          rw [error_eq hsame he, handle_eq hsame (hυ.kept (hτ.kept hname)).corr,
            value_eq hsame (.inl (hbody.later (hτ.trans hυ)).1.live)]
        refine (note_sim_of_ne υ (by simp) (by simp) hcaught).sim.bind fun φ _ _ hφ _ => ?_
        have hcaught : Val φ (e.value .quiet) (e'.value .quiet) := .error .quiet (hφ.kept he.kept)
        have hbody := hbody.later (hτ.trans (hυ.trans hφ))
        refine withBindings_sim (.cons (hφ.kept (hυ.kept (hτ.kept hname))) .nil) (.cons hcaught .nil) (fun ψ hψ => ?_)
          fun _ _ _ _ hle hv => hv.later hle
        simp only [hbody.1.eq_nil]
        split
        · exact .pure (hcaught.later hψ)
        · exact Simulation.evalBody_sim hev (hbody.later hψ)

theorem catchError_sim (hev : EvalSim (Tandem th same) ev ev') (hargs : Args (Code σ) args args') :
    Sim σ (Act.catchError ev th args) (Act.catchError ev' th args') Val := by
  unfold Act.catchError
  refine (Simulation.symbolArg_sim (Simulation.arg_code hargs 1).1).bind fun τ name name' hτ hname => ?_
  exact catching_sim hev hname ((Simulation.arg_code hargs 0).later hτ) ((Simulation.arg_code hargs 2).later hτ)

/-! ## All primitives -/

theorem runPrimitive_sim (hev : EvalSim (Tandem th same) ev ev') {p : Primitive} (hhost : ∀ a, p ≠ .host a)
    (hargs : Simulation.Suited p σ args args') :
    Sim σ (Act.runPrimitive ev th args p) (Act.runPrimitive ev' th args' p) Result := by
  have hval {x y : Act Value} (h : Sim σ x y Val) : Sim σ x y Result := h.mono fun _ _ _ _ => .inl
  by_cases hp : p.bindsVariables
  · cases p with
    | letIn => exact hval (letIn_sim hev hargs)
    | lambda => exact hval (lambda_sim hargs)
    | defun => exact hval (defun_sim hargs)
    | catchError => exact hval (catchError_sim hev hargs)
    | _ => cases hp
  · exact Simulation.runPrimitive_sim hev (Bool.eq_false_iff.2 hp) hhost hargs

end LispMachine.Tandem
