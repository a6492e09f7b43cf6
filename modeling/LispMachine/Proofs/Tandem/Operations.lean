/-
The operations of two machines in tandem, all together.

A pass may be taken on one side and not on the other: it leaves what is held firmly, and roots. What is written as results and
errors is the same on both sides.
-/
import LispMachine.Proofs.Tandem.Bindings

namespace LispMachine

namespace Machine

variable {m m' : Machine}

/-! ## Passes -/

/-- what a pass, or none, leads to -/
structure Swept (m m' : Machine) : Prop where
  sound : m'.Sound
  keeps : m.Keeps m'
  pruned : m.Pruned m'

theorem Sound.run_maybeCollect (hm : m.Sound) : ∃ taken m', Act.maybeCollect.run m = .ok taken m' ∧ m.Swept m' := by
  have hnone : m.Swept m := ⟨hm, .refl m, hm.pruned⟩
  unfold Act.maybeCollect
  simp only [Act.run_bind, Act.run_get]
  split
  · exact ⟨false, m, rfl, hnone⟩
  · split
    · exact ⟨false, m, rfl, hnone⟩
    · refine ⟨true, m.collected .threshold, ?_, hm.collect _, hm.keeps_collected _, hm.pruned_collected _⟩
      rw [Act.bind_ok (hm.collectable.run_collect .threshold)]
      rfl

/-! ## The console -/

/-- the machine with another console -/
def withConsole (m : Machine) (c : Console) : Machine := { m with console := c }

theorem keeps_withConsole (m : Machine) (c : Console) : m.Keeps (m.withConsole c) := { Keeps.refl m with }

/-- the console with one more text -/
def said (m : Machine) (c : Channel) (text : String) (budget : Option Nat) : Machine :=
  m.withConsole ⟨m.console.written.push (c, text), budget⟩

/-- what is said alike on both sides adds one line, or none -/
theorem lines_said {m m' : Machine} (h : m.console.lines = m'.console.lines) (c : Channel) {text text' : String}
    (htext : c ≠ .debug → text = text') (budget : Option Nat) :
    (m.said c text budget).console.lines = (m'.said c text' budget).console.lines := by
  unfold Console.lines at h
  simp only [Machine.said, Machine.withConsole, Console.lines, Array.toList_push, List.filter_append, h]
  by_cases hc : c = .debug
  · simp [hc]
  · rw [htext hc]

/-- what comes of a write depends on the channel and the budget alone -/
theorem run_write (c : Channel) (b : Option Nat) :
    (∃ left, ∀ (m : Machine) text, m.console.budget = b → (Act.write c text).run m = .ok () (m.said c text left)) ∨
    ∀ (m : Machine) text, m.console.budget = b → (Act.write c text).run m = .error (.raised .writeRefused) m := by
  have hdebug : ∃ left, ∀ (m : Machine) text, m.console.budget = b →
      (Act.write .debug text).run m = .ok () (m.said .debug text left) :=
    ⟨b, fun m text hb => by simp [Act.write, Act.run_bind, said, withConsole, ← hb]⟩
  cases c with
  | debug => exact .inl hdebug
  | _ =>
    match b with
    | none => exact .inl ⟨none, fun m text hb => by simp [Act.write, Act.run_bind, said, withConsole, hb]⟩
    | some 0 => exact .inr fun m text hb => by simp [Act.write, Act.run_bind, hb]
    | some (n + 1) => exact .inl ⟨some n, fun m text hb => by simp [Act.write, Act.run_bind, said, withConsole, hb]⟩

end Machine

namespace Tandem

open Machine (Corr)
open Simulation (InStep Sim QuietSim Later)

variable {th : ThreadId} {same : Bool} {σ τ : Tandem th same}

/-- the situation after a pass on either side, or on both -/
def passing (σ : Tandem th same) {l r : Machine} (hl : σ.left.Swept l) (hr : σ.right.Swept r) (heq : same = true → l = r) :
    Tandem th same where
  left := l
  right := r
  sound := hl.sound
  sound' := hr.sound
  agree := σ.agree.pruned σ.sound σ.sound' hl.pruned hr.pruned
  isOpen := (hl.keeps.threads th).1.trans σ.isOpen
  eq := heq

theorem maybeCollect_sim (σ : Tandem th same) : Sim σ Act.maybeCollect Act.maybeCollect fun _ _ _ => True := by
  obtain ⟨taken, l, hx, hl⟩ := σ.sound.run_maybeCollect
  obtain ⟨taken', r, hy, hr⟩ := σ.sound'.run_maybeCollect
  have heq (hsame : same = true) : l = r := by
    rw [σ.eq hsame, hy] at hx
    exact (EStateM.Result.ok.inj hx).2.symm
  exact done (σ.passing hl hr heq) ⟨hl.keeps, hr.keeps⟩ hx hy trivial

/-- a pass that is called for is taken on one machine; on two it spoils the comparison -/
theorem gc_sim (σ : Tandem th same) : Sim σ Act.gc Act.gc Simulation.Val := by
  have hrun {m : Machine} (hm : m.Sound) :
      Act.gc.run m = .ok (Act.int32 (m.passRecord .explicit).survivors) (m.collected .explicit) := by
    unfold Act.gc
    rw [Act.bind_ok (hm.collectable.run_collect .explicit)]
    rfl
  have hswept {m : Machine} (hm : m.Sound) : m.Swept (m.collected .explicit) :=
    ⟨hm.collect _, hm.keeps_collected _, hm.pruned_collected _⟩
  rcases Bool.eq_false_or_eq_true same with hsame | hsame
  · have hone := σ.eq hsame
    have hcount : Act.int32 (σ.left.passRecord .explicit).survivors = Act.int32 (σ.right.passRecord .explicit).survivors := by
      rw [hone]
    refine done (σ.passing (hswept σ.sound) (hswept σ.sound') fun _ => by rw [hone])
      ⟨(hswept σ.sound).keeps, (hswept σ.sound').keeps⟩ (hrun σ.sound) (hrun σ.sound') ?_
    rw [hcount]
    exact .int _
  · refine .inl (.inl ⟨.passed .explicit, ?_, .inr ⟨hsame, .inr rfl⟩⟩)
    change Event.passed .explicit ∈ (Outcome.machine (Act.gc.run σ.left)).journal
    rw [hrun σ.sound]
    exact List.mem_cons_self

/-- the situation with one more text on both sides -/
def saying (σ : Tandem th same) (c : Channel) {text text' : String} (htext : c = .debug ∧ same = false ∨ text = text')
    (budget : Option Nat) : Tandem th same where
  left := σ.left.said c text budget
  right := σ.right.said c text' budget
  sound := { σ.sound with }
  sound' := { σ.sound' with }
  agree :=
    { σ.agree with
      lines := Machine.lines_said σ.agree.lines c (fun hc => htext.resolve_left fun h => hc h.1) budget
      budget := rfl }
  isOpen := σ.isOpen
  eq hsame := by rw [σ.eq hsame, htext.resolve_left fun h => by rw [hsame] at h; cases h.2]

/-- what is written for debugging may differ between two machines -/
theorem write_sim (σ : Tandem th same) (c : Channel) {text text' : String} (htext : c = .debug ∧ same = false ∨ text = text') :
    Sim σ (Act.write c text) (Act.write c text') fun _ _ _ => True := by
  rcases Machine.run_write c σ.left.console.budget with ⟨budget, hrun⟩ | hrun
  · exact done (σ.saying c htext budget) ⟨σ.left.keeps_withConsole _, σ.right.keeps_withConsole _⟩ (hrun _ _ rfl)
      (hrun _ _ σ.agree.budget.symm) trivial
  · exact failed σ (Simulation.balanced_refl σ) (hrun _ _ rfl) (hrun _ _ σ.agree.budget.symm)
      (.raised (.bare ⟨by simp, by simp, by simp⟩))

theorem debug_sim {v v' : Value} (hv : Simulation.Val σ v v') : Sim σ (Act.debug v) (Act.debug v') Simulation.Val := by
  unfold Act.debug
  have htext : Sim σ (Act.debugText v) (Act.debugText v') fun _ text text' => True ∧ (same = true → text = text') :=
    one_result (fun hsame => by rw [value_eq hsame (.inl hv.live)]) (Simulation.debugText_sim hv.live).sim
  refine htext.bind fun τ text text' hτ htext => ?_
  refine (write_sim τ .debug ?_).bind fun υ _ _ hυ _ => .pure ((hv.later hτ).later hυ)
  rcases Bool.eq_false_or_eq_true same with hsame | hsame
  · exact .inr (by rw [htext.2 hsame])
  · exact .inl ⟨rfl, hsame⟩

/-! ## All of them -/

instance : Simulation.Operations (Tandem th same) th where
  gensym := gensym_sim
  newCons := newCons_sim
  newText := newText_sim
  newErrorObject := newErrorObject_sim
  newScope := newScope_sim
  bindIn overwrite hg hsym hv := bindIn_sim overwrite hg hsym hv
  lookup? := lookup?_like
  globalScope σ := (globalScope_sim σ).mono fun _ _ _ _ h => h.2
  withGlobal hg hx hQ := withGlobal_sim hg hx hQ
  deref h := (deref_sim h).mono fun _ _ _ _ h => h.2
  storeThrough hr hv := storeThrough_sim hr hv
  placed_field hk := ⟨.car hk, .cdr hk⟩
  write σ c _ := write_sim σ c (.inr rfl)
  debug := debug_sim
  gc := gc_sim

theorem lookup_sim {sym sym' : Handle} (hsym : σ.Kept .symbol sym sym') :
    Sim σ (Act.lookup th sym) (Act.lookup th sym') Simulation.Placed := by
  unfold Act.lookup
  refine (currentScope_sim σ).bind ?_
  rintro τ h h' _ ⟨rfl, hk⟩
  refine Sim.get ?_
  have hfound := lookup?_like hk hsym
  simp only [Simulation.left, Simulation.right]
  generalize τ.left.lookup? h sym = r, τ.right.lookup? h' sym' = r' at hfound
  cases hfound with
  | some hr => exact .pure hr
  | none => exact Simulation.raiseError_sim .unboundSymbol (.symbol hsym.corr) .nil

end Tandem

end LispMachine
