/-
What is still in use is never released.

Source texts are run one after the other on a thread of a machine with the primitives installed. However low the threshold from
which on passes are taken, and wherever a text asks for a pass itself, no step of reading, evaluating or printing comes upon an object
that a pass has released, nor upon another object under its handle.

The exception are programs that store into their own text. The forms of a call are kept by the form they stand in and by nothing else
while they are evaluated one by one; a program that cuts that form and then takes a pass loses the forms that are still to come.
-/
import LispMachine.Proofs.Reached
import LispMachine.Proofs.Unobservable

namespace LispMachine

open Source

/-! ## One machine in tandem with itself -/

/-- a failure that no released object has caused -/
def Failure.IsLive (e : Failure) : Prop := ∀ h k, e ≠ .fault (.freed h k)

namespace Tandem

variable {th : ThreadId} {same : Bool} {τ : Tandem th same}

theorem isLive_of_like {e e' : Failure} (he : Simulation.Failure.Like τ e e') : e.IsLive := by
  rintro h k rfl
  cases he with
  | fault hf => exact hf h k rfl

/-- how the left one of two runs has ended -/
theorem ends_left {α β : Type} {Q : Tandem th same → α → β → Prop} {o : Outcome α} {o' : Outcome β}
    (h : Simulation.Ends Simulation.Failure.Like τ Q o o') :
    (∃ a, o = .ok a τ.left) ∨ ∃ e, e.IsLive ∧ o = .error e τ.left := by
  cases h with
  | ok _ => exact .inl ⟨_, rfl⟩
  | error he => exact .inr ⟨_, isLive_of_like he, rfl⟩

/-- on one machine only a store into program text spoils the comparison -/
theorem spoilt_one {m : Machine} (h : (∃ e ∈ m.journal, Spoils true e) ∨ ∃ e ∈ m.journal, Spoils true e) :
    .assigned true ∈ m.journal := by
  obtain ⟨e, he, rfl | ⟨hfalse, -⟩⟩ := h.elim id id
  · exact he
  · cases hfalse

/-- a machine in tandem with itself agrees with itself -/
theorem abreast (σ : Tandem th true) : σ.left.Abreast σ.left where
  sound := σ.sound
  sound' := σ.sound
  agree := by
    have hagree := σ.agree
    rwa [← σ.eq rfl] at hagree

end Tandem

namespace Machine

variable {m m' : Machine} {th : ThreadId} {α : Type}

/-- a sound machine, beside itself in tandem -/
def Abreast.alone (h : m.Abreast m) (ho : (m.thread th).isOpen = true) : Tandem th true :=
  ⟨m, m, h.sound, h.sound, h.agree, ho, fun _ => rfl⟩

/-- an action that ends in a sound machine, with a result or with a failure that no released object has caused -/
inductive Retains (m : Machine) : Outcome α → Prop where
  | ok {a : α} {m' : Machine} : m'.Abreast m' → m.Keeps m' → Retains m (.ok a m')
  | error {e : Failure} {m' : Machine} : e.IsLive → m'.Abreast m' → m.Keeps m' → Retains m (.error e m')

theorem Retains.abreast {o : Outcome α} (h : m.Retains o) : (Outcome.machine o).Abreast (Outcome.machine o) := by
  cases h <;> assumption

theorem Retains.keeps {o : Outcome α} (h : m.Retains o) : m.Keeps (Outcome.machine o) := by cases h <;> assumption

/-- what runs in step on every two machines in tandem retains what one machine holds, unless it stores into program text -/
theorem Abreast.retains (h : m.Abreast m) (ho : (m.thread th).isOpen = true) {x : Act α} {Q : Tandem th true → α → α → Prop}
    (hx : ∀ σ : Tandem th true, Simulation.Sim σ x x Q) :
    .assigned true ∈ (Outcome.machine (x.run m)).journal ∨ m.Retains (x.run m) := by
  rcases hx (h.alone ho) with hs | ⟨τ, hb, hend⟩
  · exact .inl (Tandem.spoilt_one hs)
  · change Simulation.Ends _ τ Q (x.run m) (x.run m) at hend
    rcases Tandem.ends_left hend with ⟨a, hrun⟩ | ⟨e, he, hrun⟩
    · exact .inr (hrun ▸ .ok τ.abreast hb.keeps)
    · exact .inr (hrun ▸ .error he τ.abreast hb.keeps)

/-! ## Threads that serve -/

/-- a thread with the primitives installed, on which source texts have been run one after the other -/
inductive Serves (th : ThreadId) : Machine → Prop where
  | opened (r : Request) {m : Machine} :
      (do Act.configure r; Act.install; Act.openDefaultThread : Act ThreadId).run initial = .ok th m → Serves th m
  | text (fuel : Nat) (showPrompt : Bool) (c : Cursor) {m m' : Machine} :
      Serves th m → (Act.replLoop fuel th showPrompt c).Leaves m m' → Serves th m'

/-- a thread is opened on a machine that holds what is there -/
theorem Abreast.opened (h : m.Abreast m) (hrun : Act.openDefaultThread.run m = .ok th m') :
    m'.Abreast m' ∧ (m'.thread th).isOpen = true := by
  rcases h.openDefaultThread with hfull | ⟨c, hl, -⟩ | ⟨l, r, g, g', capacity, habreast, hc, hg, hg', hl, -, hone⟩
  · rcases hfull with ⟨_, hfull, -⟩ | ⟨_, hfull, -⟩ <;> cases hrun.symm.trans hfull
  · cases hrun.symm.trans hl
  · cases hrun.symm.trans hl
    let σ : Tandem l.threads.size true := habreast.tandem hc hg hg' capacity fun _ => hone rfl
    exact ⟨σ.abreast, σ.isOpen⟩

/-- the primitives are installed on a new machine -/
theorem installed_fresh (r : Request) {l : Machine}
    (hrun : Act.install.run (fresh r.config r.allocator r.collector) = .ok () l) :
    .assigned true ∈ l.journal ∨ l.Abreast l := by
  have hfresh : (fresh r.config r.allocator r.collector).Abreast (fresh r.config r.allocator r.collector) :=
    abreast_fresh rfl (Nat.le_refl 1) rfl (Nat.le_refl 1) rfl
  have hinstall : Alongside true Act.install _ _ := hfresh.install (fun _ => rfl) rfl rfl
  unfold Alongside at hinstall
  rw [hrun] at hinstall
  rcases hinstall with hs | (⟨_, hfull, -⟩ | ⟨_, hfull, -⟩) | hend
  · exact .inl (Tandem.spoilt_one hs)
  · cases hfull
  · cases hfull
  · cases hend with
    | ok h => exact .inr h

/-- a thread that serves is open on a sound machine, for as long as nothing is stored into program text -/
theorem Serves.abreast (hm : m.Serves th) :
    .assigned true ∈ m.journal ∨ m.Abreast m ∧ (m.thread th).isOpen = true := by
  induction hm with
  | @opened r m hrun =>
    change (do Act.install; Act.openDefaultThread : Act ThreadId).run (fresh r.config r.allocator r.collector) = _ at hrun
    rw [Act.run_bind] at hrun
    cases hinstall : Act.install.run (fresh r.config r.allocator r.collector) with
    | error e l => rw [hinstall] at hrun; cases hrun
    | ok _ l =>
      rw [hinstall] at hrun
      have hopen : Act.openDefaultThread.run l = .ok th m := hrun
      have hgrows := Act.openDefaultThread.grows l
      rw [hopen] at hgrows
      exact (installed_fresh r hinstall).imp (fun hs => hgrows.subset hs) fun h => h.opened hopen
  | @text fuel showPrompt c m m' hm hrun ih =>
    have hgrows := (Act.replLoop fuel th showPrompt c).grows m
    have hend : Outcome.machine ((Act.replLoop fuel th showPrompt c).run m) = m' := by
      rcases hrun with ⟨_, hrun⟩ | ⟨_, hrun⟩ <;> rw [hrun] <;> rfl
    rw [hend] at hgrows
    rcases ih with hs | ⟨h, ho⟩
    · exact .inl (hgrows.subset hs)
    · have hretains := h.retains ho fun σ => Tandem.replLoop_sim σ fuel showPrompt c
      rw [hend] at hretains
      refine hretains.imp_right fun hr => ?_
      rw [← hend]
      exact ⟨hr.abreast, (hr.keeps.threads th).1.trans ho⟩

/-- **What is in use is never released.** A source text is run on a thread on which any other texts have been run before it, with any
threshold. Unless one of them has stored into program text, nothing that is read, evaluated or printed comes upon an object that has
been released, and the run does not end with a fault over one. -/
theorem Serves.never_misses (hm : m.Serves th) (fuel : Nat) (showPrompt : Bool) (c : Cursor) :
    .assigned true ∈ (Outcome.machine ((Act.replLoop fuel th showPrompt c).run m)).journal ∨
    .missed ∉ (Outcome.machine ((Act.replLoop fuel th showPrompt c).run m)).journal ∧
      ∀ e l, (Act.replLoop fuel th showPrompt c).run m = .error e l → e.IsLive := by
  rcases hm.abreast with hs | ⟨h, ho⟩
  · exact .inl (((Act.replLoop fuel th showPrompt c).grows m).subset hs)
  · refine (h.retains ho fun σ => Tandem.replLoop_sim σ fuel showPrompt c).imp_right fun hr => ⟨hr.abreast.sound.clean, ?_⟩
    intro e l hrun
    rw [hrun] at hr
    cases hr
    assumption

end Machine

end LispMachine
