/-
The primitives in step.

Given two evaluators that run in step, so does every primitive on arguments that stand for each other, but for the four that
make bindings: how a binding is made depends on the kind of situations. Special primitives get program text, the others
values.
-/
import LispMachine.Eval.Evaluate
import LispMachine.Proofs.Simulation.Params

namespace LispMachine

/-- the primitives that make bindings or capture them -/
def Primitive.bindsVariables : Primitive → Bool
  | .letIn | .lambda | .defun | .catchError => true
  | _ => false

namespace Simulation

variable {S : Type} [Simulation S]

/-! ## Evaluators -/

/-- what a form evaluates to in place mode; the place of a symbol may move as soon as anything is run -/
def Site (σ : S) (v r r' : Value) : Prop := Placed σ r r' ∨ (∃ h, v = .symbol h) ∧ Spot σ r r'

/-- two evaluators run in step on program text -/
structure EvalSim (S : Type) [Simulation S] (ev ev' : Evaluator) : Prop where
  steps : ev.steps = ev'.steps
  value {σ : S} {v v' : Value} : Code σ v v' → Sim σ (ev.eval v .value) (ev'.eval v' .value) Val
  place {σ : S} {v v' : Value} : Code σ v v' → Sim σ (ev.eval v .place) (ev'.eval v' .place) fun τ r r' => Site τ v r r'

variable {σ : S} {th : ThreadId} {ev ev' : Evaluator}

section

variable [Operations S th]

/-! ## Bodies and clauses -/

theorem evalBodyWithin_sim (hev : EvalSim S ev ev') (n : Nat) {body body' cur cur' res res' : Value}
    (hbody : Val σ body body') (hcur : Code σ cur cur') (hres : Val σ res res') :
    Sim σ (Act.evalBodyWithin ev th body n cur res) (Act.evalBodyWithin ev' th body' n cur' res') Val := by
  induction n generalizing σ cur cur' res res' with
  | zero =>
    cases hcur.1 with
    | nil => exact .pure hres
    | _ => exact .throw .outOfFuel
  | succ n ih =>
    have hitems := asCons_code hcur
    cases hcur.1 with
    | nil => exact .pure hres
    | _ =>
      simp only [Act.evalBodyWithin]
      refine hitems.bind ?_
      rintro τ _ _ _ ⟨rfl, hc | _⟩
      rotate_left
      · exact raiseError_sim .improperList hbody.live .nil
      · refine (carOf_sim hc).bind ?_
        rintro τ a a' _ ⟨rfl, ha⟩
        refine (hev.value ha).bind fun υ res res' hυ hres => ?_
        refine (cdrOf_sim (hc.later hυ)).bind ?_
        rintro υ d d' _ ⟨rfl, hd⟩
        exact ih (hbody.later hυ) hd hres

theorem evalBody_sim (hev : EvalSim S ev ev') {body body' : Value} (hbody : Code σ body body') :
    Sim σ (Act.evalBody ev th body) (Act.evalBody ev' th body') Val := by
  unfold Act.evalBody
  rw [hev.steps]
  exact evalBodyWithin_sim hev _ hbody.1 hbody .nil

theorem condClauses_sim (hev : EvalSim S ev ev') {ks ks' : List Saved} (hks : List.Forall₂ (KeptForm σ) ks ks') :
    Sim σ (Act.condClauses ev th ks) (Act.condClauses ev' th ks') Val := by
  induction ks generalizing σ ks' with
  | nil => cases hks; exact .pure .nil
  | cons k ks ih =>
    cases hks with
    | cons hk hks =>
      unfold Act.condClauses
      refine (retrieve_sim hk).bind ?_
      rintro τ v v' _ ⟨rfl, hv⟩
      refine (asCons_code hv).bind ?_
      rintro τ _ _ _ ⟨rfl, hc | _⟩
      rotate_left
      · exact raiseError_sim .improperList hv.1.live .nil
      · refine (carOf_sim hc).bind ?_
        rintro τ a a' _ ⟨rfl, ha⟩
        refine (hev.value ha).bind fun υ test test' hυ htest => ?_
        simp only [htest.truthy_eq]
        split
        · refine (cdrOf_sim (hc.later hυ)).bind ?_
          rintro υ d d' _ ⟨rfl, hd⟩
          simp only [hd.1.eq_nil]
          split
          · exact .pure htest
          · exact evalBody_sim hev hd
        · exact ih (hks.imp fun _ _ h => h.later hυ)

/-! ## Forms in a row -/

omit [Operations S th] in
theorem evalArgs_sim (hev : EvalSim (S) ev ev') {ks ks' : List Saved}
    (hks : List.Forall₂ (KeptForm σ) ks ks') {vals vals' : List Value} (hvals : List.Forall₂ (Val σ) vals vals') :
    Sim σ (Act.evalArgs ev ks vals) (Act.evalArgs ev' ks' vals') fun τ vs vs' => List.Forall₂ (Val τ) vs vs' := by
  induction ks generalizing σ ks' vals vals' with
  | nil => cases hks; exact .pure (List.rel_reverse hvals)
  | cons k ks ih =>
    cases hks with
    | cons hk hks =>
      unfold Act.evalArgs
      refine (retrieve_sim hk).bind ?_
      rintro τ form form' _ ⟨rfl, hform⟩
      refine (hev.value hform).bind fun υ w w' hυ hw => ?_
      exact ih (hks.imp fun _ _ h => h.later hυ) (.cons hw (hvals.imp fun _ _ h => h.later hυ))

/-! ## Control flow -/

variable {args args' : List Value}

theorem ifElse_sim (hev : EvalSim S ev ev') (hargs : Args (Code σ) args args') :
    Sim σ (Act.ifElse ev th args) (Act.ifElse ev' th args') Val := by
  unfold Act.ifElse
  refine (hev.value (arg_code hargs 0)).bind fun τ test test' hτ htest => ?_
  simp only [htest.truthy_eq]
  split
  · exact hev.value ((arg_code hargs 1).later hτ)
  · exact evalBody_sim hev ((arg_code hargs 2).later hτ)

theorem whenTrue_sim (hev : EvalSim S ev ev') (hargs : Args (Code σ) args args') :
    Sim σ (Act.whenTrue ev th args) (Act.whenTrue ev' th args') Val := by
  unfold Act.whenTrue
  refine (hev.value (arg_code hargs 0)).bind fun τ test test' hτ htest => ?_
  simp only [htest.truthy_eq]
  split
  · exact evalBody_sim hev ((arg_code hargs 1).later hτ)
  · exact .pure .nil

theorem unlessTrue_sim (hev : EvalSim S ev ev') (hargs : Args (Code σ) args args') :
    Sim σ (Act.unlessTrue ev th args) (Act.unlessTrue ev' th args') Val := by
  unfold Act.unlessTrue
  refine (hev.value (arg_code hargs 0)).bind fun τ test test' hτ htest => ?_
  simp only [htest.truthy_eq]
  split
  · exact .pure htest
  · exact evalBody_sim hev ((arg_code hargs 1).later hτ)

end

variable {args args' : List Value}

section

variable [Interns S] [Operations S th]

theorem cond_sim (hev : EvalSim S ev ev') (hargs : Args (Code σ) args args') :
    Sim σ (Act.cond ev th args) (Act.cond ev' th args') Val := by
  unfold Act.cond
  refine (formsArg_sim (arg_code hargs 0)).bind ?_
  rintro τ ks ks' _ ⟨rfl, hks⟩
  exact condClauses_sim hev hks

/-! ## Bindings -/

theorem letBindings_sim (hev : EvalSim (S) ev ev') {ks ks' : List Saved}
    (hks : List.Forall₂ (KeptForm σ) ks ks') {syms syms' : List Handle}
    (hsyms : List.Forall₂ (Kept σ .symbol) syms syms') {vals vals' : List Value} (hvals : List.Forall₂ (Val σ) vals vals') :
    Sim σ (Act.letBindings ev th ks syms vals) (Act.letBindings ev' th ks' syms' vals') fun τ r r' =>
      List.Forall₂ (Kept τ .symbol) r.1 r'.1 ∧ List.Forall₂ (Val τ) r.2 r'.2 := by
  induction ks generalizing σ ks' syms syms' vals vals' with
  | nil => cases hks; exact .pure ⟨List.rel_reverse hsyms, List.rel_reverse hvals⟩
  | cons k ks ih =>
    cases hks with
    | cons hk hks =>
      unfold Act.letBindings
      refine (retrieve_sim hk).bind ?_
      rintro τ v v' _ ⟨rfl, hv⟩
      refine (listArg_code hv).bind ?_
      rintro τ items items' _ ⟨rfl, hitems⟩
      have hmalformed {α : Type} {Q : S → α → α → Prop} :
          Sim τ (Act.raiseError th .improperList v .nil) (Act.raiseError th .improperList v' .nil) Q :=
        raiseError_sim .improperList hv.1.live .nil
      rcases hitems with _ | ⟨hname, _ | ⟨hform, _ | _⟩⟩
      · exact hmalformed
      · exact hmalformed
      · refine (symbolArg_sim hname.1).bind fun τ₁ sym sym' hτ₁ hsym => ?_
        refine (hev.value (hform.later hτ₁)).bind fun τ₂ w w' hτ₂ hw => ?_
        have hlater := hτ₁.trans hτ₂
        exact ih (hks.imp fun _ _ h => h.later hlater) (.cons (hτ₂.kept hsym) (hsyms.imp fun _ _ h => hlater.kept h))
          (.cons hw (hvals.imp fun _ _ h => h.later hlater))
      · exact hmalformed

/-! ## Variables and places -/

theorem boundp_sim (hargs : Args (Code σ) args args') :
    Sim σ (Act.boundp th args) (Act.boundp th args') Val := by
  unfold Act.boundp
  refine (symbolArg_sim (arg_code hargs 0).1).bind fun τ sym sym' _ hsym => ?_
  refine Sim.bind (Operations.globalScope τ) fun υ g g' hυ hg => .get (.pure ?_)
  have hfound := Operations.lookup? th hg (hυ.kept hsym)
  generalize (left υ).lookup? g sym = o, (right υ).lookup? g' sym' = o' at hfound
  cases hfound <;> exact .ofBool _

omit [Interns S] [Operations S th] in
theorem optionalValue_sim (hev : EvalSim S ev ev') {form form' : Value} (hform : Code σ form form') :
    Sim σ (Act.optionalValue ev form) (Act.optionalValue ev' form') Val := by
  unfold Act.optionalValue
  simp only [hform.1.eq_unset]
  split
  · exact .pure .unset
  · exact hev.value hform

theorem defvar_sim (hev : EvalSim S ev ev') (hargs : Args (Code σ) args args') :
    Sim σ (Act.defvar ev th args) (Act.defvar ev' th args') Placed := by
  unfold Act.defvar
  refine (symbolArg_sim (arg_code hargs 0).1).bind fun τ sym sym' hτ hsym => ?_
  refine Sim.bind (Operations.globalScope τ) fun τ₁ g g' hτ₁ hg => ?_
  have hbinding : Sim τ₁ (Act.bindingIn g sym) (Act.bindingIn g' sym') Placed :=
    Operations.bindIn th false hg (hτ₁.kept hsym) .unset
  refine (withErrorObjects_sim th hbinding).bind fun τ₂ r r' hτ₂ hr => ?_
  have hform := (arg_code hargs 1).later (hτ.trans (hτ₁.trans hτ₂))
  refine Sim.bind (Operations.deref th (spot_of_placed hr)) fun τ₃ x x' hτ₃ hx => ?_
  simp only [ne_eq, hx.eq_unset]
  split
  · exact .pure (hτ₃.placed hr)
  · refine (optionalValue_sim hev (hform.later hτ₃)).bind fun τ₄ v v' hτ₄ hv => ?_
    have hr₄ := hτ₄.placed (hτ₃.placed hr)
    refine (withErrorObjects_sim th (Operations.storeThrough th (spot_of_placed hr₄) hv)).bind fun τ₅ _ _ hτ₅ _ => ?_
    exact .pure (hτ₅.placed hr₄)

theorem setf_sim (hev : EvalSim S ev ev') (hargs : Args (Code σ) args args') :
    Sim σ (Act.setf ev th args) (Act.setf ev' th args') Val := by
  unfold Act.setf
  have hplace := arg_code hargs 0
  refine (hev.place hplace).bind fun τ r r' hτ hr => ?_
  refine (hev.value ((arg_code hargs 1).later hτ)).bind fun υ v v' hυ hv => ?_
  have hplace' := (hplace.later hτ).later hυ
  -- the place found first is used only if it is there to stay
  have hagain : Sim υ (ev.eval (Act.arg args 0) .place) (ev'.eval (Act.arg args' 0) .place) Spot :=
    (hev.place hplace').mono fun _ _ _ _ h => h.elim spot_of_placed And.right
  have hstore {χ : S} {r r' : Value} (hχ : Later υ χ) (hr : Spot χ r r') :
      Sim χ (do Act.withErrorObjects th (Act.storeThrough r v); return v)
        (do Act.withErrorObjects th (Act.storeThrough r' v'); return v') Val :=
    (withErrorObjects_sim th (Operations.storeThrough th hr (hv.later hχ))).bind
      fun ψ _ _ hψ _ => .pure ((hv.later hχ).later hψ)
  rcases hr with hr | ⟨hn, -⟩
  · refine (asSymbol_sim hplace'.1).bind ?_
    rintro χ _ _ _ ⟨rfl, _ | _⟩
    · exact hagain.bind fun χ r r' hχ hr => hstore hχ hr
    · exact hstore (.refl _) (spot_of_placed (hυ.placed hr))
  · have hsym := hplace'.1
    generalize Act.arg args 0 = place, Act.arg args' 0 = place' at hn hsym hagain
    obtain ⟨h, rfl⟩ := hn
    cases hsym with
    | symbol hk =>
      refine (asSymbol_symbol hk).bind ?_
      rintro χ _ _ _ ⟨rfl, rfl, rfl⟩
      exact hagain.bind fun χ r r' hχ hr => hstore hχ hr

/-! ## Pairs and the machine -/

theorem fieldOf_sim {v v' : Value} (field : Handle → Place)
    (hfield : ∀ {τ : S} {h h' : Handle}, Kept τ .cons h h' → Placed τ (.ref (field h)) (.ref (field h')))
    (hv : Val σ v v') : Sim σ (Act.fieldOf th field v) (Act.fieldOf th field v') Result := by
  unfold Act.fieldOf
  simp only [hv.eq_nil]
  split
  · exact .pure (.inl .nil)
  · refine (asCons_sim hv.live).bind ?_
    rintro τ _ _ _ ⟨rfl, ⟨-, rfl, rfl⟩ | _⟩
    · cases hv with
      | cons hk => exact .pure (.inr (hfield hk))
    · exact raiseType_sim "list" hv.live

omit [Interns S] in
theorem consAll_val {vs vs' : List Value} (hvs : Args (Val σ) vs vs') {tail tail' : Value} (ht : Val σ tail tail') :
    QuietSim σ (Act.consAll th false vs tail) (Act.consAll th false vs' tail') Val := by
  induction vs generalizing σ vs' tail tail' with
  | nil => cases hvs; exact .pure ht
  | cons v vs ih =>
    cases hvs with
    | cons hv hvs =>
      refine (Operations.newCons hv.live ht.live).bind fun τ _ _ hτ ht => ?_
      exact ih (hvs.imp fun _ _ h => h.later (.of_quiet hτ)) ht

omit [Interns S] in
theorem consAll_code {vs vs' : List Value} (hvs : Args (Code σ) vs vs') {tail tail' : Value} (ht : Code σ tail tail') :
    QuietSim σ (Act.consAll th true vs tail) (Act.consAll th true vs' tail') Code := by
  induction vs generalizing σ vs' tail tail' with
  | nil => cases hvs; exact .pure ht
  | cons v vs ih =>
    cases hvs with
    | cons hv hvs =>
      refine (Operations.newText hv ht).bind fun τ _ _ hτ ht => ?_
      exact ih (hvs.imp fun _ _ h => h.later (.of_quiet hτ)) ht

omit [Interns S] in
theorem newListOf_val {vs vs' : List Value} (hvs : Args (Val σ) vs vs') :
    QuietSim σ (Act.newListOf th false vs) (Act.newListOf th false vs') Val :=
  consAll_val (List.rel_reverse hvs) .nil

omit [Interns S] in
theorem newListOf_code {vs vs' : List Value} (hvs : Args (Code σ) vs vs') :
    QuietSim σ (Act.newListOf th true vs) (Act.newListOf th true vs') Code :=
  consAll_code (List.rel_reverse hvs) ⟨.nil, runnable_atom trivial⟩

/-! ## Errors -/

theorem signal_sim (hargs : Args (Val σ) args args') : Sim σ (Act.signal th args) (Act.signal th args') Val := by
  unfold Act.signal
  have hv := arg_like hargs 0
  simp only [hv.isError_eq]
  split
  · exact .pure hv.toSignaling
  · exact raiseType_sim "error" (Val.live hv)

theorem makeError_sim (hargs : Args (Val σ) args args') :
    Sim σ (Act.makeError th args) (Act.makeError th args') Val := by
  unfold Act.makeError
  have hbody : Val σ (if Act.arg args 1 = .unset then .nil else Act.arg args 1)
      (if Act.arg args' 1 = .unset then .nil else Act.arg args' 1) := by
    have hv := arg_like hargs 1
    simp only [hv.eq_unset]
    split
    · exact .nil
    · exact hv
  refine (symbolArg_sim (arg_like hargs 0)).bind fun τ name name' hτ hname => ?_
  exact (newUserError_sim hname (hbody.later hτ).live).bind fun υ e e' _ he => .pure (.error .quiet he.kept)

theorem typeError_sim (hargs : Args (Val σ) args args') :
    Sim σ (Act.typeError th args) (Act.typeError th args') Val := by
  unfold Act.typeError
  refine (symbolArg_sim (arg_like hargs 0)).bind fun τ wanted wanted' hτ hwanted => ?_
  exact (newError_sim .type (.symbol (obj_of_kept hwanted)) .nil).bind fun υ e e' _ he => .pure (.error .quiet he.kept)

omit [Interns S] in
theorem plainError_sim (σ : S) (kind : ErrorKind) : Sim σ (Act.plainError th kind) (Act.plainError th kind) Val := by
  unfold Act.plainError
  exact (newError_sim kind .nil .nil).bind fun υ e e' _ he => .pure (.error .quiet he.kept)

/-! ## Arithmetic -/

theorem compareAll_sim (ok : Number → Number → Bool) (hargs : Args (Val σ) args args') :
    Sim σ (Act.compareAll th ok args) (Act.compareAll th ok args') Val := by
  unfold Act.compareAll
  refine (numbers_sim (arg_like hargs 0)).bind ?_
  rintro τ ns _ _ ⟨rfl, rfl⟩
  exact .pure (.ofBool _)

theorem combineAll_sim (op : Number → Number → Number) (unit : Number) (hargs : Args (Val σ) args args') :
    Sim σ (Act.combineAll th op unit args) (Act.combineAll th op unit args') Val := by
  unfold Act.combineAll
  refine (numbers_sim (arg_like hargs 0)).bind ?_
  rintro τ ns _ _ ⟨rfl, rfl⟩
  exact .pure (.ofNumber _)

theorem combineFirst_sim (op : Number → Number → Number) (invert : Number → Number) (hargs : Args (Val σ) args args') :
    Sim σ (Act.combineFirst th op invert args) (Act.combineFirst th op invert args') Val := by
  unfold Act.combineFirst
  refine (numberArg_sim (Val.live (arg_like hargs 0))).bind ?_
  rintro τ n _ _ ⟨rfl, rfl⟩
  refine (numbers_sim (arg_like hargs 1)).bind ?_
  rintro τ ns _ _ ⟨rfl, rfl⟩
  cases ns <;> exact .pure (.ofNumber _)

/-! ## Scopes -/

omit [Interns S] in
theorem bind_sim (th : ThreadId) [Operations S th] {g g' sym sym' : Handle} {v v' : Value} (hg : Kept σ .scope g g')
    (hsym : Kept σ .symbol sym sym') (hv : Val σ v v') :
    Sim σ (Act.bind g sym v) (Act.bind g' sym' v') fun _ _ _ => True := by
  unfold Act.bind
  exact (Operations.bindIn th true hg hsym hv).bind fun _ _ _ _ _ => .pure trivial

theorem fillScope_sim (hev : EvalSim S ev ev') {scope scope' : Handle} {ks ks' : List Saved}
    (hscope : Kept σ .scope scope scope') (hks : List.Forall₂ (KeptForm σ) ks ks') :
    Sim σ (Act.fillScope ev th scope ks) (Act.fillScope ev' th scope' ks') fun _ _ _ => True := by
  induction ks generalizing σ ks' with
  | nil => cases hks; exact .pure trivial
  | cons k ks ih =>
    cases hks with
    | cons hk hks =>
      unfold Act.fillScope
      refine (retrieve_sim hk).bind ?_
      rintro τ v v' _ ⟨rfl, hv⟩
      refine (listArg_code hv).bind ?_
      rintro τ items items' _ ⟨rfl, hitems⟩
      have hmalformed : Sim τ (Act.raiseError th .improperList v .nil : Act Unit)
          (Act.raiseError th .improperList v' .nil : Act Unit) fun _ _ _ => True := raiseError_sim .improperList hv.1.live .nil
      rcases hitems with _ | ⟨hname, _ | ⟨hform, _ | _⟩⟩
      · exact hmalformed
      · exact hmalformed
      · refine (symbolArg_sim hname.1).bind fun τ₁ sym sym' hτ₁ hsym => ?_
        refine (hev.value (hform.later hτ₁)).bind fun τ₂ x x' hτ₂ hx => ?_
        have hscope₂ := hτ₂.kept (hτ₁.kept hscope)
        refine (withErrorObjects_sim th (bind_sim th hscope₂ (hτ₂.kept hsym) hx)).bind fun τ₃ _ _ hτ₃ _ => ?_
        exact ih (hτ₃.kept hscope₂) (hks.imp fun _ _ h => ((h.later hτ₁).later hτ₂).later hτ₃)
      · exact hmalformed

theorem evalScope_sim (hev : EvalSim S ev ev') {form form' : Value} (hform : Code σ form form') :
    Sim σ (Act.evalScope ev th form) (Act.evalScope ev' th form') fun τ g g' =>
      Kept τ .scope g g' := by
  unfold Act.evalScope
  exact (hev.value hform).bind fun τ v v' _ hv => scopeArg_sim hv

theorem nref_sim (hev : EvalSim S ev ev') (hargs : Args (Code σ) args args') :
    Sim σ (Act.nref ev th args) (Act.nref ev' th args') Placed := by
  unfold Act.nref Act.bindingFrom
  refine (evalScope_sim hev (arg_code hargs 0)).bind fun τ g g' hτ hg => ?_
  refine (symbolArg_sim ((arg_code hargs 1).later hτ).1).bind fun υ sym sym' hυ hsym => ?_
  refine withErrorObjects_sim th (.get ?_)
  have hfound := Operations.lookup? th (hυ.kept hg) hsym
  generalize (left υ).lookup? g sym = o, (right υ).lookup? g' sym' = o' at hfound
  cases hfound with
  | some hr => exact .pure hr
  | none => exact Operations.bindIn th false (hυ.kept hg) hsym .unset

theorem withScope_sim (hev : EvalSim S ev ev') (hargs : Args (Code σ) args args') :
    Sim σ (Act.withScope ev th args) (Act.withScope ev' th args') Val := by
  unfold Act.withScope
  refine (evalScope_sim hev (arg_code hargs 0)).bind fun τ g g' hτ hg => ?_
  refine Operations.withGlobal hg (fun υ hυ => ?_) fun _ _ _ _ hle hv => hv.later hle
  exact evalBody_sim hev (((arg_code hargs 1).later hτ).later hυ)

theorem nameArg_sim {v v' : Value} (hv : Val σ v v') : Sim σ (Act.nameArg th v) (Act.nameArg th v') fun τ o o' =>
    Option.Rel (Kept τ .symbol) o o' := by
  unfold Act.nameArg
  simp only [hv.eq_unset]
  split
  · exact .pure .none
  · exact (symbolArg_sim hv).bind fun _ _ _ _ h => .pure (.some h)

omit [Interns S] [Operations S th] in
theorem parentArg_sim (hev : EvalSim S ev ev') {form form' : Value} {g g' : Handle} (hform : Code σ form form')
    (hg : Kept σ .scope g g') : Sim σ (Act.parentArg ev g form) (Act.parentArg ev' g' form') fun τ o o' =>
      Option.Rel (Kept τ .scope) o o' := by
  unfold Act.parentArg
  simp only [hform.1.eq_unset]
  split
  · exact .pure (.some hg)
  refine (hev.value hform).bind fun τ p p' hτ hp => (asScope_sim hp).bind ?_
  rintro τ _ _ _ ⟨rfl, hh | _⟩
  · exact .pure (.some hh)
  · simp only [hp.eq_nil]
    split
    · exact .pure .none
    · exact .pure (.some (hτ.kept hg))

theorem publish_sim {scope scope' : Handle} {name name' : Option Handle} (hscope : Kept σ .scope scope scope')
    (hname : Option.Rel (Kept σ .symbol) name name') :
    Sim σ (Act.publish th scope name) (Act.publish th scope' name') fun _ _ _ => True := by
  cases hname with
  | none => exact .pure trivial
  | some hsym =>
    refine withErrorObjects_sim th (Sim.bind (Operations.globalScope σ) fun τ g g' hτ hg => ?_)
    exact bind_sim th hg (hτ.kept hsym) (.scope (hτ.kept hscope))

theorem makeScope_sim (hev : EvalSim S ev ev') (hargs : Args (Code σ) args args') :
    Sim σ (Act.makeScope ev th args) (Act.makeScope ev' th args') Val := by
  unfold Act.makeScope
  refine (nameArg_sim (arg_code hargs 0).1).bind fun τ₁ name name' hτ₁ hname => ?_
  refine Sim.bind (Operations.globalScope τ₁) fun τ₂ g g' hτ₂ hg => ?_
  have h₂ := (arg_code hargs 2).later (hτ₁.trans hτ₂)
  refine (parentArg_sim hev h₂ hg).bind fun τ₃ parent parent' hτ₃ hparent => ?_
  have hname₃ := optionRel_mono (fun _ _ => (hτ₂.trans hτ₃).kept) hname
  refine (Operations.newScope hname₃ hparent).bind fun τ₄ scope scope' hτ₄ hscope => ?_
  have hfinish {τ : S} (hτ : Later τ₄ τ) :
      Sim τ (do Act.publish th scope name; return .scope scope)
        (do Act.publish th scope' name'; return .scope scope') Val :=
    (publish_sim (hτ.kept hscope) (optionRel_mono (fun _ _ => (hτ₄.trans hτ).kept) hname₃)).bind
      fun υ _ _ hυ _ => .pure (.scope (hυ.kept (hτ.kept hscope)))
  have h₁ := (arg_code hargs 1).later (hτ₁.trans (hτ₂.trans (hτ₃.trans hτ₄)))
  simp only [ne_eq, h₁.1.eq_unset]
  split
  · refine (formsArg_sim h₁).bind ?_
    rintro τ ks ks' _ ⟨rfl, hks⟩
    exact (fillScope_sim hev hscope hks).bind fun υ _ _ hυ _ => hfinish hυ
  · exact hfinish (.refl τ₄)

/-! ## All of them -/

/-- what a primitive gets -/
def Suited (p : Primitive) (σ : S) (args args' : List Value) : Prop :=
  if p.isForm then Args (Code σ) args args' else Args (Val σ) args args'

theorem runPrimitive_sim (hev : EvalSim S ev ev') {p : Primitive} (hp : p.bindsVariables = false)
    (hhost : ∀ a, p ≠ .host a) (hargs : Suited p σ args args') :
    Sim σ (Act.runPrimitive ev th args p) (Act.runPrimitive ev' th args' p) Result := by
  have hval {x y : Act Value} (h : Sim σ x y Val) : Sim σ x y Result := h.mono fun _ _ _ _ => .inl
  have hplaced {x y : Act Value} (h : Sim σ x y Placed) : Sim σ x y Result := h.mono fun _ _ _ _ => .inr
  cases p with
  | quote => exact .pure (.inl (arg_code hargs 0).1)
  | cond => exact hval (cond_sim hev hargs)
  | ifElse => exact hval (ifElse_sim hev hargs)
  | whenTrue => exact hval (whenTrue_sim hev hargs)
  | unlessTrue => exact hval (unlessTrue_sim hev hargs)
  | letIn => cases hp
  | lambda => cases hp
  | defun => cases hp
  | defvar => exact hplaced (defvar_sim hev hargs)
  | boundp => exact hval (boundp_sim hargs)
  | setf => exact hval (setf_sim hev hargs)
  | cons => exact hval (Operations.newCons (Val.live (arg_like hargs 0)) (Val.live (arg_like hargs 1))).sim
  | list => exact .pure (.inl (arg_like hargs 0))
  | car => exact fieldOf_sim .car (fun hk => (Operations.placed_field th hk).1) (arg_like hargs 0)
  | cdr => exact fieldOf_sim .cdr (fun hk => (Operations.placed_field th hk).2) (arg_like hargs 0)
  | debug => exact hval (Operations.debug th (arg_like hargs 0))
  | gensym => exact hval ((Operations.gensym th σ).bind fun _ _ _ _ h => .pure (.symbol h))
  | gc => exact hval (Operations.gc th σ)
  | signal => exact hval (signal_sim hargs)
  | makeError => exact hval (makeError_sim hargs)
  | typeError => exact hval (typeError_sim hargs)
  | improperListError => exact hval (plainError_sim σ .improperList)
  | notAReferenceError => exact hval (plainError_sim σ .notAReference)
  | catchError => cases hp
  | numEqual => exact hval (compareAll_sim _ hargs)
  | numLess => exact hval (compareAll_sim _ hargs)
  | numGreater => exact hval (compareAll_sim _ hargs)
  | add => exact hval (combineAll_sim _ _ hargs)
  | multiply => exact hval (combineAll_sim _ _ hargs)
  | subtract => exact hval (combineFirst_sim _ _ hargs)
  | divide => exact hval (combineFirst_sim _ _ hargs)
  | makeScope => exact hval (makeScope_sim hev hargs)
  | nref => exact hplaced (nref_sim hev hargs)
  | withScope => exact hval (withScope_sim hev hargs)
  | host a => exact absurd rfl (hhost a)

end

end Simulation

end LispMachine
