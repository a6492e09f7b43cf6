/-
Parameter lists in step: lists of parameters that stand for each other are taken apart alike, and so are arguments by key.
-/
import LispMachine.Proofs.Simulation.Print

namespace LispMachine.Simulation

variable {S : Type} [Simulation S] {σ : S}

/-! ## Taking a parameter list apart -/

/-- what taking the next symbol comes to: alike parameters in the same section, or the same error -/
inductive StepLike (ρ : Kind → Handle → Handle → Prop) :
    Except ParamsError (Params × Section) → Except ParamsError (Params × Section) → Prop where
  | ok {p p' : Params} (s : Section) : p.Like ρ p' → StepLike ρ (.ok (p, s)) (.ok (p', s))
  | error (e : ParamsError) : StepLike ρ (.error e) (.error e)

theorem step_like {ρ : Kind → Handle → Handle → Prop} {p p' : Params} (hp : p.Like ρ p') (s : Section) {sym sym' : Handle}
    (hsym : ρ .symbol sym sym') (name : String) : StepLike ρ (p.step s sym name) (p'.step s sym' name) := by
  unfold Params.step
  cases Section.ofMarker? name with
  | some next =>
    by_cases h : s.rank < next.rank
    · simp only [h, if_true]; exact .ok next hp
    · simp only [h, if_false]; exact .error _
  | none =>
    cases s with
    | required => exact .ok _ { hp with required := List.rel_append hp.required (.cons hsym .nil) }
    | optional => exact .ok _ { hp with optional := List.rel_append hp.optional (.cons hsym .nil) }
    | keys => exact .ok _ { hp with keys := List.rel_append hp.keys (.cons hsym .nil) }
    | rest =>
      have hrest := hp.rest
      simp only [Params.add]
      generalize hr : p.rest = r, hr' : p'.rest = r' at hrest
      cases hrest with
      | some _ => exact .error _
      | none => exact .ok _ { hp with rest := .some hsym }

section

variable [Interns S]

theorem parseItems_sim {list list' : Value} (hlist : Val σ list list') {items items' : List Value}
    (hitems : Args (Code σ) items items') {p p' : Params} (hp : p.Like (Kept σ) p') (s : Section) :
    Sim σ (Act.parseItems list items p s) (Act.parseItems list' items' p' s) fun τ p p' =>
      τ = σ ∧ p.Like (Kept σ) p' := by
  induction hitems generalizing p p' s with
  | nil => exact .pure ⟨rfl, hp⟩
  | @cons v v' items items' hv _ ih =>
    have hprint (f : String → Cause) (hf : ∀ t, Bare (f t)) :
        Sim σ (α := Params) (β := Params) (do Act.raise (f (← Act.printIn "s" list)))
          (do Act.raise (f (← Act.printIn "s" list'))) fun τ p p' => τ = σ ∧ p.Like (Kept σ) p' := by
      refine (Sim.of_quiet (printIn_sim "s" hlist.live)).bind fun τ t t' _ h => ?_
      obtain ⟨-, rfl⟩ := h
      exact .raise (.bare (hf t))
    unfold Act.parseItems
    refine (asSymbol_sim hv.1).bind fun τ o o' _ h => ?_
    obtain ⟨rfl, ho⟩ := h
    cases ho with
    | none => exact .raise (.bare ⟨by simp, by simp, by simp⟩)
    | @some sym sym' h =>
      refine .get ?_
      rw [symbolName_eq (obj_of_kept h.1)]
      have hstep := step_like hp s h.1 ((right τ).symbolName sym')
      generalize p.step s sym _ = r, p'.step s sym' _ = r' at hstep
      cases hstep with
      | ok s hp => exact ih hp s
      | error e =>
        cases e with
        | misplaced marker => exact hprint (.misplaced marker) fun t => ⟨by simp, by simp, by simp⟩
        | crowdedRest => exact hprint .crowdedRest fun t => ⟨by simp, by simp, by simp⟩

theorem parseParams_sim {list list' : Value} (hlist : Code σ list list') :
    LooseSim σ (Act.parseParams list) (Act.parseParams list') fun τ p p' => τ = σ ∧ p.Like (Kept σ) p' := by
  unfold Act.parseParams
  refine (listItems_code hlist).bind fun τ items items' _ h => ?_
  obtain ⟨rfl, hitems⟩ := h
  have hstart : Params.Like (Kept τ) { source := list } { source := list' } :=
    { required := .nil, optional := .nil, rest := .none, keys := .nil, source := hlist.1 }
  exact .of_sim (parseItems_sim hlist.1 hitems hstart .required)

end

/-! ## Arguments by key -/

/-- arguments by key that `R` relates -/
def Given (σ : S) (R : Value → Value → Prop) (given given' : List (Handle × Value)) : Prop :=
  List.Forall₂ (fun p p' => Kept σ .symbol p.1 p'.1 ∧ R p.2 p'.2) given given'

theorem Given.lookup {R : Value → Value → Prop} {given given' : List (Handle × Value)} (hgiven : Given σ R given given')
    (hunset : R .unset .unset) {key key' : Handle} (hkey : Kept σ .symbol key key') :
    R ((given.lookup key).getD .unset) ((given'.lookup key').getD .unset) := by
  induction hgiven with
  | nil => exact hunset
  | @cons p p' given given' hp _ ih =>
    obtain ⟨k, v⟩ := p
    obtain ⟨k', v'⟩ := p'
    have hiff : (key == k) = (key' == k') := by
      simp only [Bool.beq_eq_decide_eq, obj_unique (obj_of_kept hkey) (obj_of_kept hp.1)]
    simp only [List.lookup_cons, hiff]
    split
    · exact hp.2
    · exact ih

theorem Given.later {τ : S} (hle : Later σ τ) {R R' : Value → Value → Prop} (hR : ∀ v v', R v v' → R' v v')
    {given given' : List (Handle × Value)} (h : Given σ R given given') : Given τ R' given given' :=
  h.imp fun _ _ hp => ⟨hle.kept hp.1, hR _ _ hp.2⟩

variable [Interns S] {th : ThreadId} [Operations S th]

theorem keyedArgs_sim {R : Value → Value → Prop} (hR : ∀ v v', R v v' → Val σ v v') {args args' : List Value}
    (hargs : Args R args args') {given given' : List (Handle × Value)} (hgiven : Given σ R given given') :
    Sim σ (Act.keyedArgs th args given) (Act.keyedArgs th args' given') fun τ g g' => τ = σ ∧ Given σ R g g' := by
  induction args using List.twoStepInduction generalizing args' given given' with
  | nil => cases hargs; exact .pure ⟨rfl, hgiven⟩
  | singleton k =>
    cases hargs with
    | cons hk hnil =>
      cases hnil
      unfold Act.keyedArgs
      refine (asSymbol_sim (hR _ _ hk)).bind fun τ o o' _ h => ?_
      obtain ⟨rfl, ho⟩ := h
      cases ho with
      | none => exact raiseType_sim "symbol" (hR _ _ hk).live
      | some h => exact raiseError_sim .unaccompaniedKey (.symbol (obj_of_kept h.1)) .nil
  | cons_cons k v rest ih _ =>
    cases hargs with
    | cons hk hargs =>
      cases hargs with
      | cons hv hrest =>
        unfold Act.keyedArgs
        refine (asSymbol_sim (hR _ _ hk)).bind fun τ o o' _ h => ?_
        obtain ⟨rfl, ho⟩ := h
        cases ho with
        | none => exact raiseType_sim "symbol" (hR _ _ hk).live
        | some h => exact ih hrest (.cons ⟨h.1, hv⟩ hgiven)

omit [Operations S th] in
theorem keyOf_sim {sym sym' : Handle} (hsym : Kept σ .symbol sym sym') :
    QuietSim σ (Act.keyOf sym) (Act.keyOf sym') fun τ k k' => Kept τ .symbol k k' := by
  unfold Act.keyOf
  refine .get ?_
  simp only [symbolName_eq (obj_of_kept hsym)]
  split
  · exact .pure hsym
  · exact Interns.intern σ _

end LispMachine.Simulation
