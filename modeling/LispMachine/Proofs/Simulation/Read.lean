/-
Reading and reporting in step: the same source text becomes forms that stand for each other, and results or errors that
stand for each other are printed as the same lines.
-/
import LispMachine.Proofs.Simulation.Primitives
import LispMachine.Repl.Loop

namespace LispMachine.Simulation

open Source (Atom Form Reading)

variable {S : Type} [Simulation S] {σ : S}

/-! ## Signaling -/

theorem unlessSignaling_val {v v' : Value} (hv : Val σ v v') :
    Sim σ (Act.unlessSignaling v) (Act.unlessSignaling v') Val := by
  unfold Act.unlessSignaling
  simp only [hv.isSignaling_eq]
  split
  · rename_i hs
    cases hv with
    | error mood hk =>
      refine (asErrorObject_sim mood hk).bind ?_
      rintro τ _ _ _ ⟨rfl, e, e', rfl, rfl, he⟩
      exact .raise (.object he)
    | _ => cases hs
  · exact .pure hv

/-- a reference is no error -/
theorem unlessSignaling_sim {v v' : Value} (hv : Result σ v v') :
    Sim σ (Act.unlessSignaling v) (Act.unlessSignaling v') Result := by
  rcases hv with hv | hr
  · exact (unlessSignaling_val hv).mono fun _ _ _ _ => .inl
  · have hno {w : Value} (hw : w.isReference = true) : Act.unlessSignaling w = pure w := by cases w <;> cases hw; rfl
    obtain ⟨href, href'⟩ := isReference_of_spot (spot_of_placed hr)
    rw [hno href, hno href']
    exact .pure (.inr hr)

/-! ## Forms -/

theorem atomValue_sim [Interns S] (σ : S) (a : Atom) : Sim σ (Act.atomValue a) (Act.atomValue a) Code := by
  cases a with
  | t => exact .pure ⟨.t, runnable_atom trivial⟩
  | nil => exact .pure ⟨.nil, runnable_atom trivial⟩
  | number n => cases n <;> exact .pure ⟨.ofNumber _, runnable_atom trivial⟩
  | symbol name =>
    refine (Sim.of_quiet (Interns.intern σ name)).bind fun τ h h' _ hh => .pure ⟨.symbol hh.2, runnable_atom trivial⟩

mutual

theorem buildForm_sim [Interns S] (th : ThreadId) [Operations S th] (σ : S) :
    (f : Form) → Sim σ (Act.buildForm th f) (Act.buildForm th f) Code
  | .atom text => atomValue_sim σ _
  | .list items => by
    unfold Act.buildForm
    exact (buildForms_sim th σ items).bind fun τ vs vs' _ hvs => (newListOf_code hvs).sim
  | .quoted form => by
    unfold Act.buildForm
    refine (buildForm_sim th σ form).bind fun τ v v' _ hv => ?_
    refine (symbol_sim τ "quote").bind fun υ q q' hυ hq => ?_
    exact (newListOf_code (.cons hq.2 (.cons (hv.later hυ) .nil))).sim

theorem buildForms_sim [Interns S] (th : ThreadId) [Operations S th] (σ : S) : (fs : List Form) →
    Sim σ (Act.buildForms th fs) (Act.buildForms th fs) fun τ vs vs' => Args (Code τ) vs vs'
  | [] => .pure .nil
  | form :: forms => by
    unfold Act.buildForms
    refine (buildForm_sim th σ form).bind fun τ v v' _ hv => ?_
    refine (buildForms_sim th τ forms).bind fun υ vs vs' hυ hvs => ?_
    exact .pure (.cons (hv.later hυ) hvs)

end

variable [Interns S] (th : ThreadId) [Operations S th]

/-- what one reading found is built in step, and taken as the takers take it -/
theorem onReading_inStep {R : S → S → Prop} (σ : S) (hR : ∀ τ, Balanced σ τ → R σ τ) {take take' : Value → Act Unit}
    (htake : ∀ τ v v', Balanced σ τ → Code τ v v' →
      InStep (fun _ υ => R σ υ) Failure.Like τ (take v) (take' v') fun _ _ _ => True) (r : Reading) :
    InStep R Failure.Like σ (Act.onReading th take r) (Act.onReading th take' r) fun _ _ _ => True := by
  have hsim {x y : Act Unit} (h : Sim σ x y fun _ _ _ => True) : InStep R Failure.Like σ x y fun _ _ _ => True :=
    InStep.mono h hR (fun _ _ _ _ => id) fun _ _ _ _ => id
  cases r with
  | finished _ => exact hsim (.pure trivial)
  | failed cause begun _ =>
    unfold Act.onReading
    exact hsim ((buildForms_sim th σ begun).bind fun τ _ _ _ _ => Operations.write th τ .err _)
  | form f _ =>
    unfold Act.onReading
    exact InStep.bind (buildForm_sim th σ f) hR htake

theorem onReading_sim (σ : S) {take take' : Value → Act Unit}
    (htake : ∀ {τ : S} {v v' : Value}, Code τ v v' → Sim τ (take v) (take' v') fun _ _ _ => True) (r : Reading) :
    Sim σ (Act.onReading th take r) (Act.onReading th take' r) fun _ _ _ => True :=
  onReading_inStep th σ (fun _ => id) (fun _ _ _ hτ hv =>
    InStep.mono (htake hv) (fun _ => balanced_trans hτ) (fun _ _ _ _ => id) fun _ _ _ _ => id) r

theorem buildReading_sim (σ : S) (r : Reading) :
    Sim σ (Act.buildReading th r) (Act.buildReading th r) fun τ o o' => Option.Rel (Code τ) o o' := by
  cases r with
  | finished _ => exact .pure .none
  | failed cause begun after =>
    unfold Act.buildReading
    exact (buildForms_sim th σ begun).bind fun _ _ _ _ _ =>
      .raise (.bare ⟨by simp [Act.misreadCause], by simp [Act.misreadCause], by simp [Act.misreadCause]⟩)
  | form f _ =>
    unfold Act.buildReading
    exact (buildForm_sim th σ f).bind fun _ _ _ _ h => .pure (.some h)

/-- a text that holds exactly one form -/
theorem readString_sim (σ : S) (text : String) :
    Sim σ (Act.readString th text) (Act.readString th text) Code := by
  unfold Act.readString Act.readOne
  refine (buildReading_sim th σ _).bind fun τ _ _ _ ho => ?_
  cases ho with
  | none => exact .raise (.bare ⟨by simp, by simp, by simp⟩)
  | some hv =>
    simp only
    split
    · exact .raise (.bare ⟨by simp, by simp, by simp⟩)
    · exact .pure hv

/-! ## Lines -/

omit [Operations S th] in
theorem errorMessageIn_sim {e e' : HeldError} (he : Err σ e e') :
    Sim σ (Act.errorMessageIn e) (Act.errorMessageIn e') Same := by
  unfold Act.errorMessageIn
  refine (Sim.of_quiet (InStep.observe (errorMessage_sim he))).bind fun τ r r' _ hr => ?_
  cases hr.2 with
  | ok h => exact .pure h
  | error h =>
    cases h with
    | raised hc => exact .throw (.raised hc)
    | outOfFuel => exact .throw .outOfFuel
    | @fault f hf =>
      cases f with
      | endless => exact .fault (by simp) (by simp)
      | _ => exact .pure rfl

omit [Interns S] [Operations S th] in
theorem report_bare {c : Cause} (hc : ∀ e, c ≠ .object e) : Act.report (.error c) = Act.write .err (c.text ++ "\n") := by
  cases c with
  | object e => exact absurd rfl (hc e)
  | _ => rfl

include th in
theorem report_sim {r r' : Except Cause Value} (hr : Attempted Failure.Like Val σ r r') :
    Sim σ (Act.report r) (Act.report r') fun _ _ _ => True := by
  rcases hr with hv | hc
  · unfold Act.report
    refine (Sim.of_quiet (printIn_sim "v" hv.live)).bind fun τ s s' _ h => ?_
    obtain rfl : s = s' := h.2
    exact Operations.write th τ .out _
  cases hc with
  | raised hc =>
    cases hc with
    | object he =>
      unfold Act.report
      refine (errorMessageIn_sim he).bind fun τ s s' _ h => ?_
      obtain rfl : s = s' := h
      exact Operations.write th τ .err _
    | bare hc =>
      rw [report_bare hc.object]
      exact Operations.write th σ .err _

end LispMachine.Simulation
