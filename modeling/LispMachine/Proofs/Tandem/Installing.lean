/-
Installing the primitives, and whole sessions, on two machines that are abreast.
-/
import LispMachine.Proofs.Tandem.Opening

namespace LispMachine

namespace Tandem

open Machine (Corr)
open Simulation (InStep Sim LooseSim Later Val Code Observed)

variable {th : ThreadId} {same : Bool} {σ τ : Tandem th same} {α β : Type}

/-- two actions run in step, but for what their errors speak of -/
abbrev AkinSim (σ : Tandem th same) (x : Act α) (y : Act β) (Q : Tandem th same → α → β → Prop) : Prop :=
  InStep Simulation.Balanced (fun _ e e' => e.Akin e') σ x y Q

theorem AkinSim.of_sim {x : Act α} {y : Act β} {Q : Tandem th same → α → β → Prop} (h : Sim σ x y Q) : AkinSim σ x y Q :=
  InStep.mono h (fun _ => id) (fun _ _ _ _ h => .of_loose (.like h)) fun _ _ _ _ => id

/-- two sequences of balanced actions -/
theorem balancedBind {F : Tandem th same → Failure → Failure → Prop} {γ δ : Type} {x : Act α} {y : Act β} {f : α → Act γ}
    {g : β → Act δ} {Q : Tandem th same → α → β → Prop} {R : Tandem th same → γ → δ → Prop}
    (h : InStep Simulation.Balanced F σ x y Q)
    (hf : ∀ τ a b, Simulation.Balanced σ τ → Q τ a b → InStep Simulation.Balanced F τ (f a) (g b) R) :
    InStep Simulation.Balanced F σ (x >>= f) (y >>= g) R :=
  InStep.bind h (fun _ => id) fun τ a b hτ hQ =>
    InStep.mono (hf τ a b hτ hQ) (fun _ => Simulation.balanced_trans hτ) (fun _ _ _ _ => id) fun _ _ _ _ => id

/-- an operation that may come upon an improper list, guarded -/
theorem guarded_akin {x y : Act Value} (h : LooseSim σ x y Val) :
    AkinSim σ (Act.guarded th x) (Act.guarded th y) fun _ _ _ => True := by
  unfold Act.guarded Act.closeGuard
  refine InStep.andBind (AkinSim.of_sim (openGuard_sim σ)) ?_
  rintro σ g _ _ ⟨rfl, rfl, hg⟩
  rw [hg]
  refine InStep.observing h fun τ r r' hτ hr => ?_
  have hlike {r r' : Except Failure Value} (hr : Settled .value τ r r') :
      InStep (fun _ υ => Simulation.Balanced σ υ) (fun _ e e' => e.Akin e') τ
        (do Act.conclude th (σ.left.thread th).pins.size (← Act.contain th g.base r))
        (do Act.conclude th (σ.left.thread th).pins.size (← Act.contain th g.base r')) fun _ _ _ => True := by
    have hclose : InStep (fun _ υ => Simulation.Balanced σ υ) Simulation.Failure.Like τ
        (do Act.conclude th (σ.left.thread th).pins.size (← Act.contain th g.base r))
        (do Act.conclude th (σ.left.thread th).pins.size (← Act.contain th g.base r')) (Out .value) := by
      refine InStep.bind (contain_sim g.base hr) (fun _ => Simulation.balanced_trans hτ) fun υ s s' hυ hs => ?_
      exact conclude_sim (Simulation.balanced_trans hτ hυ) hs
    exact InStep.mono hclose (fun _ => id) (fun _ _ _ _ h => .of_loose (.like h)) fun _ _ _ _ _ => trivial
  cases hr with
  | ok hv => exact hlike (.ok hv)
  | error he =>
    cases he with
    | like he => exact hlike (.error he)
    | improperList _ =>
      refine InStep.after (τ := τ) rfl rfl ?_
      refine InStep.after (τ := τ.unpinning (σ.left.thread th).pins.size .nil) rfl rfl ?_
      exact InStep.throw (balanced_unpinning hτ .nil) (.raised _ _)

/-! ## Primitives -/

theorem defaultGlobal_sim (σ : Tandem th same) (hg : σ.left.globalScope ≠ none) :
    Sim σ Act.defaultGlobal Act.defaultGlobal fun τ g g' => τ.Kept .scope g g' := by
  have hglobal := σ.agree.globalScope
  generalize hl : σ.left.globalScope = o, hr : σ.right.globalScope = o' at hglobal
  cases hglobal with
  | none => exact absurd hl hg
  | some hc =>
    refine .read (Machine.run_defaultGlobal_some hl) (Machine.run_defaultGlobal_some hr) ⟨hc, ?_, ?_⟩
    · exact .inUse (σ.sound.global _ hl)
    · exact .inUse (σ.sound'.global _ hr)

theorem define_akin (σ : Tandem th same) (hg : σ.left.globalScope ≠ none) {b : Builtin} (hb : b.primitive.Suits b.special) :
    AkinSim σ (Act.define th b) (Act.define th b) fun _ _ _ => True := by
  unfold Act.define
  refine balancedBind (guarded_akin ?_) fun _ _ _ _ _ => InStep.pure (Simulation.balanced_refl _) trivial
  refine balancedBind (LooseSim.of_sim (Simulation.readString_sim th σ b.params)) fun τ params params' hτ hparams => ?_
  refine balancedBind (LooseSim.of_sim (intern_sim τ b.name).sim) fun υ name name' hυ hname => ?_
  refine balancedBind (newPrimitive_sim (.some hname) (hparams.later (.of_balanced hυ)) hb) fun φ f f' hφ hf => ?_
  have hglobal : φ.left.globalScope ≠ none := by
    rw [hφ.keeps.global, hυ.keeps.global, hτ.keeps.global]
    exact hg
  refine LooseSim.bind (.of_sim (defaultGlobal_sim φ hglobal)) fun ψ g g' hψ hscope => ?_
  refine LooseSim.bind (.of_sim (Simulation.bind_sim th hscope (hψ.kept (hname.balanced hφ)) (hf.later hψ))) ?_
  exact fun _ _ _ _ _ => .pure .nil

theorem defineAll_akin (bs : List Builtin) (hbs : ∀ b ∈ bs, b.primitive.Suits b.special) (σ : Tandem th same)
    (hg : σ.left.globalScope ≠ none) : AkinSim σ (bs.forM (Act.define th)) (bs.forM (Act.define th)) fun _ _ _ => True := by
  induction bs generalizing σ with
  | nil => exact InStep.pure (Simulation.balanced_refl σ) trivial
  | cons b bs ih =>
    refine balancedBind (define_akin σ hg (hbs b List.mem_cons_self)) fun τ _ _ hτ _ => ?_
    exact ih (fun b hb => hbs b (List.mem_cons_of_mem _ hb)) τ (by rw [hτ.keeps.global]; exact hg)

end Tandem

/-- the primitives are installed as what they are -/
theorem builtins_suit : ∀ b ∈ builtins, b.primitive.Suits b.special := by
  have hform : ∀ b ∈ builtins, b.special = b.primitive.isForm := by decide
  have hhost : ∀ b ∈ builtins, ∀ a, b.primitive ≠ .host a := by simp [builtins]
  exact fun b hb => ⟨hform b hb, hhost b hb⟩

/-! ## Sessions -/

namespace Machine

variable {m m' : Machine} {same : Bool}

theorem Abreast.installAll (h : m.Abreast m') (heq : same = true → m = m') : Alongside same Act.installAll m m' :=
  h.session heq (fun th => builtins.forM (Act.define th)) fun _ σ hg => Tandem.defineAll_akin builtins builtins_suit σ hg

/-- the machine with what has come of installing the primitives -/
def withInstalled (m : Machine) (o : Option (Except Cause Unit)) : Machine := { m with installed := o }

theorem Abreast.withInstalled (h : m.Abreast m') (o o' : Option (Except Cause Unit)) :
    (m.withInstalled o).Abreast (m'.withInstalled o') :=
  ⟨{ h.sound with }, { h.sound' with }, { h.agree with }⟩

theorem run_install (hm : m.installed = none) : Act.install.run m = (do
    match ← Act.attempt Act.installAll with
    | .ok _ => return
    | .error c =>
      modify fun m => { m with installed := some (.error c) }
      Act.raise c : Act Unit).run (m.withInstalled (some (.ok ()))) := by
  unfold Act.install
  rw [Act.bind_ok (Act.run_get m), hm]
  rfl

theorem Abreast.install (h : m.Abreast m') (heq : same = true → m = m') (hm : m.installed = none)
    (hm' : m'.installed = none) : Alongside same Act.install m m' := by
  have hinstalled := (h.withInstalled (some (.ok ())) (some (.ok ()))).installAll fun hsame => by rw [heq hsame]
  unfold Alongside
  rw [run_install hm, run_install hm']
  rcases hinstalled with hs | hfull | hend
  · unfold Act.attempt
    refine .inl (hs.grow ?_ ?_)
    · exact (Simulation.observe_grows _ _).trans ((Simulation.bind_grows _ _ _).trans (Simulation.bind_grows _ _ _))
    · exact (Simulation.observe_grows _ _).trans ((Simulation.bind_grows _ _ _).trans (Simulation.bind_grows _ _ _))
  · exact .inr (.inl (hfull.imp (fun h => h.attempt.bind _) fun h => h.attempt.bind _))
  · refine .inr (.inr ?_)
    unfold Act.attempt
    simp only [Act.run_bind, Act.run_observe]
    generalize Act.installAll.run (m.withInstalled (some (.ok ()))) = o,
      Act.installAll.run (m'.withInstalled (some (.ok ()))) = o' at hend
    cases hend with
    | ok h => exact .ok h
    | error he h =>
      cases he with
      | raised c c' => exact .error (.raised c c') (h.withInstalled (some (.error c)) (some (.error c')))
      | fault f => exact .error (.fault f) h
      | outOfFuel => exact .error .outOfFuel h

/-- installing the primitives and running the loop on a source text -/
theorem Abreast.replRun (h : m.Abreast m') (hm : m.installed = none) (hm' : m'.installed = none) (fuel : Nat) (showPrompt : Bool)
    (c : Source.Cursor) : Spoilt false (Outcome.machine ((Act.replRun fuel showPrompt c).run m))
      (Outcome.machine ((Act.replRun fuel showPrompt c).run m')) ∨
    Ended ((Act.replRun fuel showPrompt c).run m) ((Act.replRun fuel showPrompt c).run m') := by
  refine Alongside.spoilt_or_ended (.bind nofun (h.install nofun hm hm') fun l r h (heq : false = true → l = r) => ?_)
  exact h.session heq (fun th => Act.replLoop fuel th showPrompt c) fun _ σ _ =>
    Tandem.AkinSim.of_sim (Tandem.replLoop_sim σ fuel showPrompt c)

end Machine

end LispMachine
