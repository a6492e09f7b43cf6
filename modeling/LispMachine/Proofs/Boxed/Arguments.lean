/-
Laying arguments on the stack, and the values they come to.

The left machine lays the arguments of a call on its stack one by one; the reference semantics makes a list of them. Both come to
the same values in the same order, one for each parameter, or to the same error.
-/
import LispMachine.Proofs.Boxed.Stack

namespace LispMachine.Boxed

open Simulation (InStep Sim Later Val Args)

variable {th : ThreadId} {σ τ υ : Situation th} {F : Situation th → Failure → Failure → Prop}

/-! ## Values one by one -/

theorem pushAll_laid (vs refs : List Value) (σ : Situation th) : Keeping σ F (Act.pushAll th vs refs) (pure ()) fun τ rs _ =>
    rs = refs.reverse ++ Act.slotRefs (σ.left.thread th).stack.id σ.height vs.length ∧ Laid σ τ vs := by
  induction vs generalizing refs σ with
  | nil => exact .pure ⟨(List.append_nil _).symm, .of_balanced (.refl σ)⟩
  | cons v vs ih =>
    unfold Act.pushAll
    refine Keeping.leftThen (push_laid σ F v) ?_
    rintro τ _ - ⟨rfl, hlaid⟩
    refine InStep.mono (ih _ τ) (fun _ => id) (fun _ _ _ _ => id) ?_
    rintro υ rs _ - ⟨rfl, hmore⟩
    refine ⟨?_, hlaid.trans hmore⟩
    rw [hlaid.stays.id, hlaid.level]
    simp [Act.slotRefs, List.range_succ_eq_map, Nat.add_assoc, Nat.add_comm 1]

theorem pushRequired_laid (ps : List Handle) (vs : List Value) (σ : Situation th) :
    Keeping σ F (Act.pushRequired th ps vs) (pure ()) fun τ rest _ => rest = vs.drop ps.length ∧ Laid σ τ (vs.take ps.length) := by
  induction ps generalizing vs σ with
  | nil => exact .pure ⟨rfl, .of_balanced (.refl σ)⟩
  | cons p ps ih =>
    cases vs with
    | nil => exact .pure ⟨rfl, .of_balanced (.refl σ)⟩
    | cons v vs =>
      unfold Act.pushRequired
      refine Keeping.leftThen (push_laid_ σ F v) fun τ _ _ hlaid => ?_
      exact InStep.mono (ih vs τ) (fun _ => id) (fun _ _ _ _ => id) fun υ _ _ _ h => ⟨h.1, hlaid.trans h.2⟩

theorem padded_length (n : Nat) (vs : List Value) : (padded n vs).length = n := by
  rw [padded, List.length_append, List.length_take, List.length_replicate]
  omega

theorem pushOptional_laid (ps : List Handle) (vs : List Value) (σ : Situation th) :
    Keeping σ F (Act.pushOptional th ps vs) (pure ()) fun τ rest _ => rest = vs.drop ps.length ∧ Laid σ τ (padded ps.length vs) := by
  induction ps generalizing vs σ with
  | nil => exact .pure ⟨rfl, by simpa [padded] using Laid.of_balanced (.refl σ)⟩
  | cons p ps ih =>
    cases vs with
    | nil =>
      unfold Act.pushOptional
      refine Keeping.leftThen (push_laid_ σ F .unset) fun τ _ _ hlaid => ?_
      refine InStep.mono (ih [] τ) (fun _ => id) (fun _ _ _ _ => id) fun υ _ _ _ h => ⟨by simpa using h.1, ?_⟩
      simpa [padded, List.replicate_succ] using hlaid.trans h.2
    | cons v vs =>
      unfold Act.pushOptional
      refine Keeping.leftThen (push_laid_ σ F v) fun τ _ _ hlaid => ?_
      refine InStep.mono (ih vs τ) (fun _ => id) (fun _ _ _ _ => id) fun υ _ _ _ h => ⟨h.1, ?_⟩
      simpa [padded] using hlaid.trans h.2

/-! ## Values on both sides -/

/-- between two situations values have been laid on the stack on the left that stand for the given ones -/
def Lays (σ τ : Situation th) (n : Nat) (vs' : List Value) : Prop :=
  ∃ vs, Laid σ τ vs ∧ List.Forall₂ (Val τ) vs vs' ∧ vs.length = n

namespace Lays

variable {n k : Nat} {vs' ws' : List Value}

theorem trans (h : Lays σ τ n vs') (h' : Lays τ υ k ws') : Lays σ υ (n + k) (vs' ++ ws') := by
  obtain ⟨vs, hlaid, hvs, rfl⟩ := h
  obtain ⟨ws, hlaid', hws, rfl⟩ := h'
  exact ⟨vs ++ ws, hlaid.trans hlaid', List.rel_append (hvs.imp fun _ _ h => h.later hlaid'.later) hws, List.length_append⟩

theorem of_balanced (h : Situation.Balanced σ τ) : Lays σ τ 0 [] := ⟨[], .of_balanced h, .nil, rfl⟩

theorem keeps (h : Lays σ τ n vs') : Situation.Keeps σ τ := have ⟨_, hlaid, _⟩ := h; hlaid.toKeeps

end Lays

/-- more is done with the result on the right -/
theorem Keeping.mapRight {α β γ : Type} {P : Situation th → α → β → Prop} {x : Act α} {y : Act β} (h : Keeping σ F x y P)
    (g : β → γ) : Keeping σ F x (do return g (← y)) fun τ a c => ∃ b, c = g b ∧ P τ a b := by
  rcases h with hs | ⟨τ, hτ, hend⟩
  · exact .inl (hs.grow List.suffix_rfl (Simulation.bind_grows _ _ _))
  · refine .inr ⟨τ, hτ, ?_⟩
    rw [Act.run_bind]
    generalize x.run (Simulation.left σ) = r, y.run (Simulation.right σ) = r' at hend ⊢
    cases hend with
    | ok h => exact .ok ⟨_, rfl, h⟩
    | error h => exact .error h

theorem pushKeys_lays {given given' : List (Handle × Value)} (hgiven : Simulation.Given σ (Val σ) given given') {ks ks' : List Handle}
    (hks : List.Forall₂ (σ.pairing.obj .symbol) ks ks') :
    Keeping σ Simulation.Failure.Like (Act.pushKeys th given ks) (keyValues given' ks') fun τ _ vs' => Lays σ τ ks.length vs' := by
  induction ks generalizing σ ks' with
  | nil => cases hks; exact .pure (.of_balanced (.refl σ))
  | cons k ks ih =>
    cases hks with
    | cons hk hks =>
      unfold Act.pushKeys keyValues
      refine Keeping.bind (Keeping.of_sim (Simulation.keyOf_sim (σ := σ) hk).sim) fun τ key key' hτ hkey => ?_
      have hgiven := hgiven.later hτ.later fun _ _ h => h.later hτ.later
      have hval : Val τ _ _ := hgiven.lookup .unset hkey.2
      refine Keeping.leftThen (push_laid_ τ _ _) fun υ _ hυ hlaid => ?_
      have hlater := hυ.later
      have hmore := ih (hgiven.later hlater fun _ _ h => h.later hlater) (hks.imp fun _ _ h => hυ.extends_.obj (hτ.extends_.obj h))
      refine InStep.mono (hmore.mapRight _) (fun _ => id) (fun _ _ _ _ => id) ?_
      rintro φ _ _ hφ ⟨vs', rfl, hlays⟩
      have hfirst : Lays τ υ 1 [_] := ⟨[_], hlaid, .cons (hval.later hlater) .nil, rfl⟩
      have hall := (Lays.of_balanced hkey.1).trans (hfirst.trans hlays)
      rwa [Nat.zero_add, Nat.add_comm 1] at hall

/-- a list of arguments that are left -/
theorem newListOf_sim (text : Bool) {args args' : List Value} (hargs : Args (Val σ) args args') :
    Sim σ (Act.newListOf th text args) (Act.newListOf th text args') Val := by
  cases text with
  | true => exact (Simulation.newListOf_code (σ := σ) (hargs.imp fun _ _ h => ⟨h, trivial⟩)).sim.mono fun _ _ _ _ h => h.1
  | false => exact (Simulation.newListOf_val (σ := σ) hargs).sim

theorem padded_val {vs vs' : List Value} (h : Args (Val σ) vs vs') (n : Nat) : Args (Val σ) (padded n vs) (padded n vs') := by
  unfold padded
  rw [h.length_eq]
  exact List.rel_append (List.forall₂_take n h) (List.forall₂_same.2 fun _ hv => List.eq_of_mem_replicate hv ▸ .unset)

section

variable {text : Bool} {p p' : Params} {args args' : List Value}

/-- a wrong number of arguments -/
theorem miscounted_lays {α β : Type} {Q : Situation th → α → β → Prop} (hp : p.Like σ.pairing.obj p') (n : Nat) :
    Keeping σ Simulation.Failure.Like (Act.raiseError th .argCount p.source (Act.int32 n)) (miscounted th p' n) Q :=
  InStep.mono (Simulation.raiseError_sim .argCount (Val.live hp.source) (.int _)) (fun _ => Situation.Balanced.toKeeps)
    (fun _ _ _ _ => id) fun _ _ _ _ => id

/-- the values of key parameters, or a check that nothing is left -/
theorem pushEnd_lays (hp : p.Like σ.pairing.obj p') (n : Nat) (hargs : Args (Val σ) args args') :
    Keeping σ Simulation.Failure.Like
      (if p.keys.isEmpty then
        if p.rest.isNone && !args.isEmpty then Act.raiseError th .argCount p.source (Act.int32 n) else pure ()
      else do Act.pushKeys th (← Act.keyedArgs th args []) p.keys)
      (lastValues th p' n args') fun τ _ vs' => Lays σ τ p.keys.length vs' := by
  unfold lastValues
  rw [Tandem.forall₂_isEmpty hp.keys, ← Option.not_isSome, Tandem.optionRel_isSome hp.rest, Option.not_isSome,
    Tandem.forall₂_isEmpty hargs]
  have hkeys := hp.keys
  generalize p.keys = ks, p'.keys = ks' at hkeys
  cases hkeys with
  | nil =>
    simp only [List.isEmpty_nil, if_true]
    split
    · exact miscounted_lays hp n
    · exact .pure (.of_balanced (.refl σ))
  | cons hk hks =>
    simp only [List.isEmpty_cons, Bool.false_eq_true, if_false]
    refine Keeping.bind (Keeping.of_sim (Simulation.keyedArgs_sim (σ := σ) (fun _ _ h => h) hargs .nil)) ?_
    rintro τ given given' hτ ⟨-, rfl, hgiven⟩
    exact pushKeys_lays hgiven (.cons hk hks)

/-- the arguments of a call, one for each parameter -/
theorem pushArgs_lays (hp : p.Like σ.pairing.obj p') (hargs : Args (Val σ) args args') :
    Keeping σ Simulation.Failure.Like (Act.pushArgs th text p args) (argValues th text p' args') fun τ _ vs' =>
      Lays σ τ p.size vs' := by
  unfold Act.pushArgs argValues
  simp only [hargs.length_eq, ← hp.required.length_eq, ← hp.optional.length_eq]
  by_cases hcount : args'.length < p.required.length
  · simp only [hcount, if_true]
    exact Keeping.bind (miscounted_lays (Q := fun _ _ _ => False) hp _) fun _ _ _ _ h => h.elim
  simp only [hcount, if_false]
  refine Keeping.leftThen (pushRequired_laid p.required args σ) ?_
  rintro τ _ hτ ⟨rfl, hrequired⟩
  refine Keeping.leftThen (pushOptional_laid p.optional _ τ) ?_
  rintro υ _ hυ ⟨rfl, hoptional⟩
  have hkept := hτ.trans hυ
  have hfirst : Lays σ υ (p.required.length + p.optional.length)
      (args'.take p.required.length ++ padded p.optional.length (args'.drop p.required.length)) := by
    have hall : Args (Val σ) _ _ := List.rel_append (List.forall₂_take p.required.length hargs)
      (padded_val (List.forall₂_drop p.required.length hargs) p.optional.length)
    refine ⟨_, hrequired.trans hoptional, hall.imp fun _ _ h => h.later hkept.later, ?_⟩
    rw [List.length_append, List.length_take, padded_length, hargs.length_eq, Nat.min_eq_left (Nat.le_of_not_lt hcount)]
  have hothers : Args (Val υ) ((args.drop p.required.length).drop p.optional.length) _ :=
    (List.forall₂_drop p.optional.length (List.forall₂_drop p.required.length hargs)).imp fun _ _ h => h.later hkept.later
  -- what comes after the list of the arguments that are left
  have hend {φ : Situation th} (hφ : Situation.Keeps υ φ) {rs : List Value} (hrest : Lays υ φ p.rest.toList.length rs) :
      Keeping φ Simulation.Failure.Like _ _ fun ψ _ vs' => Lays σ ψ p.size vs' :=
    InStep.mono
      ((pushEnd_lays (hp.mono fun _ _ _ h => hφ.extends_.obj (hkept.extends_.obj h)) args'.length
        (hothers.imp fun _ _ h => h.later hφ.later)).mapRight
          fun ks => args'.take p.required.length ++ padded p.optional.length (args'.drop p.required.length) ++ rs ++ ks)
      (fun _ => id) (fun _ _ _ _ => id) fun ψ _ _ _ ⟨ks, hvs, hkeys⟩ => by
        have hall := (hfirst.trans hrest).trans hkeys
        rw [hvs]
        rwa [show p.required.length + p.optional.length + p.rest.toList.length + p.keys.length = p.size by
          simp only [Params.size, Params.symbols, List.length_append]] at hall
  have hrest := hp.rest
  unfold restValues
  generalize hr : p.rest = r, hr' : p'.rest = r' at hrest hend
  cases hrest with
  | none => exact hend (.refl υ) (.of_balanced (.refl υ))
  | some _ =>
    simp only [Option.isSome_some, if_true]
    refine Keeping.bind ((Keeping.of_sim (newListOf_sim text hothers)).mapRight fun list => [list]) ?_
    rintro φ list _ hφ ⟨list', rfl, hbalanced, hlist⟩
    refine Keeping.leftThen (push_laid_ φ _ list) fun ψ _ hψ hlaid => ?_
    have hone : Lays φ ψ 1 [list'] := ⟨_, hlaid, .cons (hlist.later hψ.later) .nil, rfl⟩
    exact hend (hφ.trans hψ) ((Lays.of_balanced hbalanced).trans hone)

end

end LispMachine.Boxed
