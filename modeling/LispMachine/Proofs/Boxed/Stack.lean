/-
The stack of the machine that has its variables there.

What a call lays on the stack is on the left only. It leaves the slots below as they were, so the variables in them stay what they
are, and when the stack is cut back to where it was, no run inside shows.
-/
import LispMachine.Proofs.Boxed.Promotion

namespace LispMachine.Boxed

open Pairing
open Simulation (InStep Sim Later Val)

variable {th : ThreadId} {σ τ υ : Situation th} {vs ws : List Value}

/-! ## Other items -/

/-- other items that leave the slots below `n` as they are, those of all variables among them -/
structure Recasts (σ : Situation th) (n : Nat) (f : Array Value → Array Value) : Prop where
  above : ∀ {h sym i b}, σ.pairing.slot h sym i b → i < n
  below : ∀ i, i < n → (f (σ.left.thread th).stack.items)[i]? = (σ.left.thread th).stack.items[i]?

namespace Situation

theorem thread_stacking (σ : Situation th) (f : Array Value → Array Value) :
    (σ.left.onThread th (Thread.stacking f)).thread th = (σ.left.thread th).stacking f :=
  (Machine.thread_onThread σ.agree.isOpen (Thread.stacking f) th).trans (if_pos rfl)

/-- the situation with other items on the stack -/
def restack (σ : Situation th) {n : Nat} {f : Array Value → Array Value} (hf : Recasts σ n f) : Situation th where
  left := σ.left.onThread th (Thread.stacking f)
  right := σ.right
  pairing := σ.pairing
  agree :=
    have hthread := σ.thread_stacking f
    { σ.agree with
      store := by rw [hthread]; exact σ.agree.store.restack fun _ _ _ _ hs => hf.below _ (hf.above hs)
      isOpen := by rw [hthread]; exact σ.agree.isOpen
      whole := by rw [hthread]; exact σ.agree.whole
      owner := by rw [hthread]; exact σ.agree.owner
      scopes := by rw [hthread]; exact σ.agree.scopes
      outermost := by rw [hthread]; exact σ.agree.outermost }

section

variable {n : Nat} {f : Array Value → Array Value}

theorem height_restack (hf : Recasts τ n f) : (τ.restack hf).height = (f (τ.left.thread th).stack.items).size := by
  unfold height restack
  rw [thread_stacking]
  rfl

theorem item?_restack (hf : Recasts τ n f) (i : Nat) :
    (τ.restack hf).item? i = (f (τ.left.thread th).stack.items)[i]? := by
  unfold item? restack
  rw [thread_stacking]
  rfl

theorem later_restack (hf : Recasts τ n f) : Later τ (τ.restack hf) := ⟨id, id, fun _ => id, fun _ => ⟨rfl, rfl⟩⟩

/-- what was kept below still is -/
theorem Keeps.restack (hk : Keeps σ τ) (hf : Recasts τ n f) (hn : σ.height ≤ n) (hsize : n ≤ (τ.restack hf).height) :
    Keeps σ (τ.restack hf) where
  extends_ := hk.extends_
  frame := hk.frame
  slot := hk.slot
  lasts := hk.lasts
  lasts' := hk.lasts'
  stays :=
    have hthread := τ.thread_stacking f
    hk.stays.trans ⟨congrArg (·.stack.id) hthread, congrArg (·.scopes) hthread, fun _ => rfl, Array.size_modify .., rfl, rfl, rfl, rfl⟩
  stays' := hk.stays'
  height := Nat.le_trans hn hsize
  item? i hi hfree := by
    rw [item?_restack, hf.below i (Nat.lt_of_lt_of_le hi hn)]
    exact hk.item? i hi hfree

end

/-- what stands for each other goes on doing so -/
theorem later_of_lasts (hobj : ∀ {k h h'}, σ.pairing.obj k h h' → τ.pairing.obj k h h') (hl : σ.left.heap.Lasts τ.left.heap)
    (hl' : σ.right.heap.Lasts τ.right.heap) : Later σ τ where
  kept := hobj
  placed hr := hr.mono fun _ _ _ => hobj
  runnable _ := id
  label ho := by
    obtain ⟨s, s', hf⟩ := σ.agree.store.fits ho
    obtain ⟨u, hu, hlabel⟩ := hl.labelled _ s hf.slot
    obtain ⟨u', hu', hlabel'⟩ := hl'.labelled _ s' hf.slot'
    exact ⟨by simp [Simulation.left, hf.slot, hu, hlabel], by simp [Simulation.right, hf.slot', hu', hlabel']⟩

theorem Keeps.later (hk : Keeps σ τ) : Later σ τ := later_of_lasts hk.extends_.obj hk.lasts hk.lasts'

/-- cutting the stack back to where it was -/
theorem Keeps.recasts (hk : Keeps σ τ) : Recasts τ σ.height (·.shrink σ.height) where
  above hs := lt_height (hk.slot hs)
  below i hi := by simp [← Array.getElem?_toList, hi]

theorem Keeps.cut (hk : Keeps σ τ) : Balanced σ (τ.restack hk.recasts) := by
  have hheight : (τ.restack hk.recasts).height = σ.height := by
    rw [height_restack, Array.size_shrink]
    exact Nat.min_eq_left hk.height
  exact ⟨hk.restack _ (Nat.le_refl _) (Nat.le_of_eq hheight.symm), hheight⟩

end Situation

/-! ## Values on the stack -/

/-- between two situations values have been laid on the stack -/
structure Laid (σ τ : Situation th) (vs : List Value) : Prop extends Situation.Keeps σ τ where
  level : τ.height = σ.height + vs.length
  values : ∀ j, j < vs.length → τ.item? (σ.height + j) = vs[j]?

theorem Laid.of_balanced (h : Situation.Balanced σ τ) : Laid σ τ [] := ⟨h.toKeeps, h.level, fun _ hj => by cases hj⟩

theorem Laid.trans (h : Laid σ τ vs) (h' : Laid τ υ ws) : Laid σ υ (vs ++ ws) where
  toKeeps := h.toKeeps.trans h'.toKeeps
  level := by rw [h'.level, h.level, List.length_append, Nat.add_assoc]
  values j hj := by
    by_cases hlt : j < vs.length
    · -- slots above those of all variables stay what they are
      have hslot : ∀ g sym b, ¬ τ.pairing.slot g sym (σ.height + j) b := fun g sym b hs =>
        absurd (Situation.lt_height (h.slot hs)) (Nat.not_lt.2 (Nat.le_add_right _ _))
      rw [h'.item? _ (by rw [h.level]; exact Nat.add_lt_add_left hlt _) hslot, h.values j hlt, List.getElem?_append_left hlt]
    · have hle := Nat.le_of_not_lt hlt
      have hj' : j - vs.length < ws.length := by rw [List.length_append] at hj; exact Nat.sub_lt_left_of_lt_add hle hj
      rw [List.getElem?_append_right hle, ← h'.values _ hj', h.level, Nat.add_assoc, Nat.add_sub_cancel' hle]

/-- how a run that lays values on the stack ends, whether it succeeds or not -/
abbrev Keeping {α β : Type} (σ : Situation th) (F : Situation th → Failure → Failure → Prop) (x : Act α) (y : Act β)
    (Q : Situation th → α → β → Prop) : Prop := InStep Situation.Keeps F σ x y Q

section

variable {α β γ δ : Type} {F : Situation th → Failure → Failure → Prop} {P : Situation th → α → β → Prop}
  {Q : Situation th → γ → δ → Prop}

theorem Keeping.of_sim {x : Act α} {y : Act β} (h : Sim σ x y P) :
    Keeping σ Simulation.Failure.Like x y fun τ a b => Situation.Balanced σ τ ∧ P τ a b :=
  InStep.mono h (fun _ => Situation.Balanced.toKeeps) (fun _ _ _ _ => id) fun _ _ _ => And.intro

theorem Keeping.bind {x : Act α} {y : Act β} {f : α → Act γ} {g : β → Act δ} (h : Keeping σ F x y P)
    (hf : ∀ τ a b, Situation.Keeps σ τ → P τ a b → Keeping τ F (f a) (g b) Q) : Keeping σ F (x >>= f) (y >>= g) Q :=
  InStep.bind h (fun _ => id) fun τ a b hτ hP =>
    InStep.mono (hf τ a b hτ hP) (fun _ => hτ.trans) (fun _ _ _ _ => id) fun _ _ _ _ => id

/-- a sequence on the left whose first part runs alone -/
theorem Keeping.leftThen {x : Act α} {f : α → Act γ} {y : Act δ} {P : Situation th → α → Unit → Prop}
    (h : Keeping σ F x (pure ()) P) (hf : ∀ τ a, Situation.Keeps σ τ → P τ a () → Keeping τ F (f a) y Q) :
    Keeping σ F (x >>= f) y Q :=
  leftBind h (fun _ => id) fun τ a hτ hP =>
    InStep.mono (hf τ a hτ hP) (fun _ => hτ.trans) (fun _ _ _ _ => id) fun _ _ _ _ => id

theorem Keeping.pure {a : α} {b : β} (h : P σ a b) : Keeping σ F (pure a) (pure b) P := InStep.pure (.refl σ) h

end

theorem recasts_push (σ : Situation th) (v : Value) : Recasts σ σ.height (·.push v) where
  above := Situation.lt_height
  below _ hi := Array.getElem?_push_lt hi |>.trans (Array.getElem?_eq_getElem hi).symm

theorem laid_push (σ : Situation th) (v : Value) : Laid σ (σ.restack (recasts_push σ v)) [v] := by
  have hheight : (σ.restack (recasts_push σ v)).height = σ.height + 1 := by rw [Situation.height_restack, Array.size_push]; rfl
  refine ⟨(Situation.Keeps.refl σ).restack _ (Nat.le_refl _) (by rw [hheight]; exact Nat.le_succ _), hheight, fun j hj => ?_⟩
  obtain rfl : j = 0 := Nat.lt_one_iff.1 hj
  rw [Situation.item?_restack]
  exact Array.getElem?_push_size

/-- a push fails only with an overflow -/
theorem push_laid (σ : Situation th) (F : Situation th → Failure → Failure → Prop) (v : Value) :
    Keeping σ F (Act.push th v) (pure ()) fun τ r _ =>
      r = .ref (.stack (σ.left.thread th).stack.id σ.height) ∧ Laid σ τ [v] := by
  have hsize : (σ.left.thread th).stack.size = σ.height := Tandem.size_eq σ.agree.whole
  by_cases hfull : (σ.left.thread th).stack.capacity ≤ (σ.left.thread th).stack.size
  · refine interrupted (e := .overflowed) rfl ?_
    unfold Act.push
    simp only [Act.run_bind, Act.run_get, hfull, if_true]
    exact List.mem_cons_self
  · refine done (σ.restack (recasts_push σ v)) (laid_push σ v).toKeeps ?_ rfl ⟨rfl, laid_push σ v⟩
    unfold Act.push
    simp only [Act.run_bind, Act.run_get, hfull, if_false]
    rw [hsize]
    rfl

theorem push_laid_ (σ : Situation th) (F : Situation th → Failure → Failure → Prop) (v : Value) :
    Keeping σ F (Act.push_ th v) (pure ()) fun τ _ _ => Laid σ τ [v] :=
  Keeping.leftThen (push_laid σ F v) fun _ _ _ h => .pure h.2

/-! ## Cutting back -/

/-- a situation after which no trace is left of what has been run since another, the stack being cut back -/
def Ends (σ τ υ : Situation th) : Prop :=
  Situation.Balanced σ υ ∧ Later τ υ ∧ υ.left = τ.left.onThread th (Thread.stacking (·.shrink σ.height)) ∧ υ.right = τ.right

theorem Situation.Keeps.ends (hk : Situation.Keeps σ τ) : ∃ υ, Ends σ τ υ :=
  ⟨τ.restack hk.recasts, hk.cut, later_restack hk.recasts, rfl, rfl⟩

theorem run_dropSlots {n : Nat} (h : τ.height = σ.height + n) :
    (Act.dropSlots th n).run τ.left = .ok () (τ.left.onThread th (Thread.stacking (·.shrink σ.height))) := by
  rw [Tandem.run_dropSlots τ.agree.whole]
  have hsize : (τ.left.thread th).stack.items.size = σ.height + n := h
  refine congrArg (EStateM.Result.ok ()) (Machine.onThread_congr ?_)
  simp [Thread.stacking, hsize]

theorem andThen_grows {α : Type} (x : Act α) (after : Act Unit) (m : Machine) :
    (Outcome.machine (x.run m)).journal <:+ (Outcome.machine ((Act.andThen x after).run m)).journal :=
  (Simulation.observe_grows x m).trans (Simulation.bind_grows _ _ _)

theorem run_andThen_bind {α β : Type} {x : Act α} {f : α → Act β} {after : Act Unit} {m m' : Machine} {a : α}
    (hx : x.run m = .ok a m') : (Act.andThen (x >>= f) after).run m = (Act.andThen (f a) after).run m' := by
  unfold Act.andThen
  rw [Act.run_bind, Act.run_observe, Act.bind_ok hx, Act.run_bind, Act.run_observe]

/-- an action after which the stack is cut back to where it was -/
theorem ending_sim {α β : Type} {Q : Situation th → α → β → Prop} {x : Act α} {y : Act β} {cut : Act Unit} (h : Sim τ x y Q)
    (hends : ∀ φ, Situation.Balanced τ φ → ∃ ψ, Ends σ φ ψ)
    (hcut : ∀ φ, Situation.Balanced τ φ → cut.run φ.left = .ok () (φ.left.onThread th (Thread.stacking (·.shrink σ.height))))
    (hQ : ∀ τ υ a b, Later τ υ → Q τ a b → Q υ a b) :
    InStep (fun _ υ => Situation.Balanced σ υ) Simulation.Failure.Like τ (Act.andThen x cut) y Q := by
  rcases h with hs | ⟨φ, hφ, hend⟩
  · exact .inl (hs.grow (andThen_grows x cut _) List.suffix_rfl)
  · obtain ⟨ψ, hψ, hlater, hleft, hright⟩ := hends φ hφ
    have hcut : cut.run (Simulation.left φ) = .ok () (Simulation.left ψ) :=
      (hcut φ hφ).trans (congrArg (EStateM.Result.ok ()) hleft.symm)
    have hright : Simulation.right φ = Simulation.right ψ := hright.symm
    refine .inr ⟨ψ, hψ, ?_⟩
    unfold Act.andThen
    rw [Act.run_bind, Act.run_observe]
    generalize x.run (Simulation.left τ) = r, y.run (Simulation.right τ) = r' at hend ⊢
    cases hend with
    | ok h =>
      dsimp only
      rw [Act.bind_ok hcut, hright]
      exact .ok (hQ _ _ _ _ hlater h)
    | error h =>
      dsimp only
      rw [Act.bind_ok hcut, hright]
      exact .error (h.later hlater)

end LispMachine.Boxed
