/-
Installing the primitives, and whole sessions, on two machines one of which has its variables in boxes.
-/
import LispMachine.Proofs.Boxed.Opening
import LispMachine.Proofs.Tandem.Installing

namespace LispMachine.Boxed

open Simulation (InStep Sim LooseSim Later Val Code)

variable {th : ThreadId} {σ τ : Situation th}

/-! ## Primitives -/

theorem newPrimitive_sim {name name' : Option Handle} (hname : Option.Rel (σ.pairing.obj .symbol) name name')
    {params params' : Value} (hparams : Code σ params params') {special : Bool} {p : Primitive} (hp : p.Suits special) :
    LooseSim σ (Act.newPrimitive th name params special p) (Act.newPrimitive th name' params' special p) Val := by
  unfold Act.newPrimitive
  refine (Simulation.parseParams_sim hparams).bind ?_
  rintro τ ps ps' _ ⟨rfl, hps⟩
  refine .of_sim (allocateFunction_sim ⟨hname, hps, .primitive p special⟩ ?_)
  rintro q special' hb
  cases hb
  exact hp

theorem defaultGlobal_sim (σ : Situation th) :
    Sim σ Act.defaultGlobal Act.defaultGlobal fun τ g g' => τ.pairing.obj .scope g g' := by
  obtain ⟨g, g', hg, hg', ho⟩ := σ.agree.globalScope
  exact .read (Machine.run_defaultGlobal_some hg) (Machine.run_defaultGlobal_some hg') ho

/-- two actions that keep what stands for each other and end alike, whatever their errors speak of -/
abbrev AkinKeeping {α β : Type} (σ : Situation th) (x : Act α) (y : Act β) (Q : Situation th → α → β → Prop) : Prop :=
  Keeping σ (fun _ e e' => e.Akin e') x y Q

theorem AkinKeeping.of_like {α β : Type} {x : Act α} {y : Act β} {Q : Situation th → α → β → Prop}
    (h : Keeping σ Simulation.Failure.Like x y Q) : AkinKeeping σ x y Q :=
  InStep.mono h (fun _ => id) (fun _ _ _ _ h => .of_loose (.like h)) fun _ _ _ _ => id

theorem define_akin (σ : Situation th) {b : Builtin} (hb : b.primitive.Suits b.special) :
    AkinKeeping σ (Act.define th b) (Act.define th b) fun _ _ _ => True := by
  unfold Act.define
  refine Keeping.bind (P := fun _ _ _ => True) ?_ fun _ _ _ _ _ => .pure trivial
  have hbody : LooseSim σ
      (do
        let params ← Act.readString th b.params
        let sym ← Act.intern b.name
        let f ← Act.newPrimitive th (some sym) params b.special b.primitive
        Act.bind (← Act.defaultGlobal) sym f
        return Value.nil)
      (do
        let params ← Act.readString th b.params
        let sym ← Act.intern b.name
        let f ← Act.newPrimitive th (some sym) params b.special b.primitive
        Act.bind (← Act.defaultGlobal) sym f
        return Value.nil) fun _ _ _ => True := by
    refine LooseSim.bind (.of_sim (Simulation.readString_sim th σ b.params)) fun τ params params' _ hparams => ?_
    refine LooseSim.bind (.of_sim (intern_sim τ b.name)) fun υ name name' hυ hname => ?_
    refine LooseSim.bind (newPrimitive_sim (.some hname) (hparams.later hυ) hb) fun φ f f' hφ hf => ?_
    refine LooseSim.bind (.of_sim (defaultGlobal_sim φ)) fun ψ g g' hψ hscope => ?_
    refine LooseSim.bind (.of_sim (Simulation.bind_sim th hscope (hψ.kept (hφ.kept hname)) (hf.later hψ))) ?_
    exact fun _ _ _ _ _ => .pure trivial
  have hguarded := guarded_both steady_loose hbody (fun _ _ => Situation.Balanced.trans) fun _ _ _ _ _ _ _ => id
  exact InStep.mono hguarded (fun _ => Situation.Balanced.toKeeps) (fun _ _ _ _ => .of_loose) fun _ _ _ _ => id

theorem defineAll_akin (bs : List Builtin) (hbs : ∀ b ∈ bs, b.primitive.Suits b.special) (σ : Situation th) :
    AkinKeeping σ (bs.forM (Act.define th)) (bs.forM (Act.define th)) fun _ _ _ => True := by
  induction bs generalizing σ with
  | nil => exact Keeping.pure trivial
  | cons b bs ih =>
    refine Keeping.bind (define_akin σ (hbs b List.mem_cons_self)) fun τ _ _ _ _ => ?_
    exact ih (fun b hb => hbs b (List.mem_cons_of_mem _ hb)) τ

/-! ## Sessions -/

/-- two runs that end alike on machines beside each other -/
inductive Ended : Outcome Unit → Outcome Unit → Prop where
  | ok {ρ : Pairing} {l r : Machine} : Beside ρ l r → Ended (.ok () l) (.ok () r)
  | error {ρ : Pairing} {e e' : Failure} {l r : Machine} : e.Akin e' → Beside ρ l r → Ended (.error e l) (.error e' r)

/-- two actions come to the same on two machines, unless an event interrupts the left one -/
def Alongside (x y : Act Unit) (l r : Machine) : Prop := Interrupted (x.run l) ∨ Ended (x.run l) (y.run r)

variable {ρ : Pairing} {l r : Machine}

theorem Alongside.bind {x y x' y' : Act Unit} (hx : Alongside x x' l r)
    (hy : ∀ ρ l r, Beside ρ l r → Alongside y y' l r) : Alongside (do x; y) (do x'; y') l r := by
  rcases hx with hs | hend
  · exact .inl (hs.grow (Simulation.bind_grows _ _ _))
  · unfold Alongside
    rw [Act.run_bind, Act.run_bind]
    generalize x.run l = o, x'.run r = o' at hend
    cases hend with
    | ok h => exact hy _ _ _ h
    | error he h => exact .inr (.error he h)

/-- what is run on a thread of its own comes to the same if it keeps what stands for each other -/
theorem Beside.session (h : Beside ρ l r) (x y : ThreadId → Act Unit)
    (hxy : ∀ th (σ : Situation th), AkinKeeping σ (x th) (y th) fun _ _ _ => True) :
    Alongside (do let th ← Act.openDefaultThread; Act.andThen (x th) (Act.closeThread th))
      (do let th ← Act.openDefaultThread; Act.andThen (y th) (Act.closeThread th)) l r := by
  rcases h.openDefaultThread with hs | ⟨c, hl, hr⟩ | ⟨ρ₁, g, g', l₁, r₁, capacity, hrooted, hl, hr⟩
  · exact .inl (hs.grow (Simulation.bind_grows _ _ _))
  · refine .inr ?_
    rw [Act.bind_error hl, Act.bind_error hr]
    exact .error (.raised _ _) h
  · have hbeside := hrooted.beside
    have hopened := hxy l₁.threads.size (hbeside.opened hrooted.obj hrooted.globalScope hrooted.globalScope' capacity)
    have hunfold (z : ThreadId → Act Unit) (th : ThreadId) : Act.andThen (z th) (Act.closeThread th) = (do
      let o ← Act.observe (z th)
      Act.closeThread th
      Act.settle o) := rfl
    unfold Alongside
    rw [Act.bind_ok hl, Act.bind_ok hr, ← hbeside.size, hunfold, hunfold]
    rcases hopened with hs | ⟨τ, hk, hend⟩
    · have hjournal : Interrupted ((x l₁.threads.size).run (l₁.joined g capacity)) :=
        hs.elim id fun ⟨_, _, hfalse⟩ => hfalse.elim
      exact .inl (hjournal.grow ((Simulation.observe_grows _ _).trans (Simulation.bind_grows _ _ _)))
    · refine .inr ?_
      have hclose := run_close rfl hbeside.unowned τ.agree.isOpen hk.stays
      have hclose' := run_close hbeside.size hbeside.unowned' τ.agree.isOpen' hk.stays'
      have hshut := Beside.shut hk
      rw [Act.run_bind, Act.run_bind, Act.run_observe, Act.run_observe]
      change Simulation.Ends _ τ _ ((x l₁.threads.size).run (l₁.joined g capacity))
        ((y l₁.threads.size).run (r₁.joined g' capacity)) at hend
      generalize (x l₁.threads.size).run (l₁.joined g capacity) = o, (y l₁.threads.size).run (r₁.joined g' capacity) = o' at hend
      cases hend with
      | ok _ => exact cast (congrArg₂ Ended (Act.bind_ok hclose).symm (Act.bind_ok hclose').symm) (.ok hshut)
      | error he => exact cast (congrArg₂ Ended (Act.bind_ok hclose).symm (Act.bind_ok hclose').symm) (.error he hshut)

theorem Beside.installAll (h : Beside ρ l r) : Alongside Act.installAll Act.installAll l r :=
  h.session (fun th => builtins.forM (Act.define th)) _ fun _ σ => defineAll_akin builtins builtins_suit σ

theorem Beside.withInstalled (h : Beside ρ l r) (o o' : Option (Except Cause Unit)) :
    Beside ρ (l.withInstalled o) (r.withInstalled o') := { h with }

theorem Beside.install (h : Beside ρ l r) (hl : l.installed = none) (hr : r.installed = none) :
    Alongside Act.install Act.install l r := by
  have hinstalled := (h.withInstalled (some (.ok ())) (some (.ok ()))).installAll
  unfold Alongside
  rw [Machine.run_install hl, Machine.run_install hr]
  unfold Act.attempt
  rcases hinstalled with hs | hend
  · exact .inl (hs.grow ((Simulation.observe_grows _ _).trans ((Simulation.bind_grows _ _ _).trans (Simulation.bind_grows _ _ _))))
  · refine .inr ?_
    simp only [Act.run_bind, Act.run_observe]
    generalize Act.installAll.run (l.withInstalled (some (.ok ()))) = o,
      Act.installAll.run (r.withInstalled (some (.ok ()))) = o' at hend
    cases hend with
    | ok h => exact .ok h
    | error he h =>
      cases he with
      | raised c c' => exact .error (.raised c c') (h.withInstalled (some (.error c)) (some (.error c')))
      | fault f => exact .error (.fault f) h
      | outOfFuel => exact .error .outOfFuel h

/-- installing the primitives and running the loop on a source text -/
theorem Beside.replRun (h : Beside ρ l r) (hl : l.installed = none) (hr : r.installed = none) (fuel : Nat) (showPrompt : Bool)
    (c : Source.Cursor) : Alongside (Act.replRun fuel showPrompt c) (replRun fuel showPrompt c) l r :=
  (h.install hl hr).bind fun _ _ _ h => h.session (fun th => Act.replLoop fuel th showPrompt c)
    (fun th => replLoop fuel th showPrompt c) fun _ σ => .of_like (replLoop_keeping σ fuel showPrompt c)

end LispMachine.Boxed
