/-
Whole forms and source texts on two machines in tandem.

A form is evaluated through a frame on the stack. Frames of stacks that stand for each other are closed alike, and what is read
from a frame just made is the form that was put there.
-/
import LispMachine.Proofs.Tandem.Evaluate

namespace LispMachine

/-- failures of stack operations on stacks that stand for each other -/
inductive StackError.Like (ρ : Kind → Handle → Handle → Prop) : StackError → StackError → Prop where
  | overflow (size capacity : Nat) : Like ρ (.overflow size capacity) (.overflow size capacity)
  | underflow : Like ρ .underflow .underflow
  | notMarker {v v' : Value} : v.Like ρ v' → Like ρ (.notMarker v) (.notMarker v')

namespace Tandem

open Machine (Corr)
open Simulation (InStep Sim LooseSim QuietSim Later Val Code EvalSim Attempted)
open Source (Cursor Reading)

variable {th : ThreadId} {same : Bool} {σ τ : Tandem th same} {v v' : Value}

/-! ## Frames -/

/-- what a stack operation comes to on both sides: other items, or failures that stand for each other -/
inductive Framed (σ : Tandem th same) : Except StackError Stack → Except StackError Stack → Prop where
  | ok {s s' : Stack} : s = { (σ.left.thread th).stack with items := s.items } →
      s' = { (σ.right.thread th).stack with items := s'.items } →
      List.Forall₂ (Value.Like (Corr σ.left σ.right)) s.items.toList s'.items.toList → Framed σ (.ok s) (.ok s')
  | error {e e' : StackError} : StackError.Like (Corr σ.left σ.right) e e' → Framed σ (.error e) (.error e')

theorem stackFailure_sim (id : Nat) {e e' : StackError} (he : StackError.Like (Corr σ.left σ.right) e e') :
    Sim σ (Act.stackFailure id e) (Act.stackFailure id e') fun τ f f' => Simulation.Failure.Like τ f f' := by
  cases he with
  | overflow size capacity =>
    exact (note_sim σ (e := .overflowed) (by simp)).sim.bind fun _ _ _ _ _ => .pure (.raised (.bare ⟨by simp, by simp, by simp⟩))
  | underflow => exact .pure (.raised (.bare ⟨by simp, by simp, by simp⟩))
  | notMarker hv =>
    refine (Sim.of_quiet (Simulation.printIn_sim (σ := σ) "s" hv)).bind fun τ s s' _ h => ?_
    obtain rfl : s = s' := h.2
    exact .pure (.raised (.bare ⟨by simp, by simp, by simp⟩))

theorem setStack_eq {m : Machine} (xs : Array Value) :
    (Act.setStack th { (m.thread th).stack with items := xs }).run m = .ok () (m.onThread th (Thread.stacking fun _ => xs)) := by
  have hthread : m.onThread th (fun t => { t with stack := { (m.thread th).stack with items := xs } }) =
      m.onThread th (Thread.stacking fun _ => xs) := Machine.onThread_congr rfl
  exact congrArg (EStateM.Result.ok ()) hthread

theorem run_readStack {α : Type} {m : Machine} {f : Stack → Except StackError α} {a : α}
    (h : f (m.thread th).stack = .ok a) : (Act.readStack th f).run m = .ok a m := by
  have hstack : (Act.stackOf th).run m = .ok (m.thread th).stack m := rfl
  unfold Act.readStack
  rw [Act.bind_ok hstack, h]
  rfl

theorem run_readStack_error {α : Type} {m : Machine} {f : Stack → Except StackError α} {e : StackError}
    (h : f (m.thread th).stack = .error e) : (Act.readStack th f).run m =
      (do throw (← Act.stackFailure (m.thread th).stack.id e) : Act α).run m := by
  have hstack : (Act.stackOf th).run m = .ok (m.thread th).stack m := rfl
  unfold Act.readStack
  rw [Act.bind_ok hstack, h]

/-- a stack operation that fails on both sides -/
theorem readStack_failed {α β : Type} {Q : Tandem th same → α → β → Prop} {f : Stack → Except StackError α}
    {f' : Stack → Except StackError β} {e e' : StackError} (h : f (σ.left.thread th).stack = .error e)
    (h' : f' (σ.right.thread th).stack = .error e') (he : StackError.Like (Corr σ.left σ.right) e e') :
    Sim σ (Act.readStack th f) (Act.readStack th f') Q := by
  unfold Simulation.Sim Simulation.InStep
  rw [show (Act.readStack th f).run (Simulation.left σ) = _ from run_readStack_error h,
    show (Act.readStack th f').run (Simulation.right σ) = _ from run_readStack_error h']
  change Sim σ _ _ Q
  rw [show ((Simulation.left σ).thread th).stack.id = ((Simulation.right σ).thread th).stack.id from σ.alike.id]
  exact (stackFailure_sim _ he).bind fun _ _ _ _ hf => .throw hf

theorem onStack_sim {f f' : Stack → Except StackError Stack}
    (h : Framed σ (f (σ.left.thread th).stack) (f' (σ.right.thread th).stack)) :
    Sim σ (Act.onStack th f) (Act.onStack th f') fun τ _ _ => ∃ s s', f (σ.left.thread th).stack = .ok s ∧
      f' (σ.right.thread th).stack = .ok s' ∧ items τ.left th = s.items.toList ∧ items τ.right th = s'.items.toList := by
  unfold Act.onStack
  generalize hr : f (σ.left.thread th).stack = r, hr' : f' (σ.right.thread th).stack = r' at h
  cases h with
  | @ok s s' hs hs' hitems =>
    refine InStep.after (τ := σ) (run_readStack hr) (run_readStack hr') ?_
    rw [hs, hs']
    refine Sim.mono (stacking_sim (fun _ => s.items) (fun _ => s'.items) hitems (setStack_eq _) (setStack_eq _)) ?_
    exact fun τ _ _ _ h => ⟨s, s', congrArg _ hs.symm, congrArg _ hs'.symm, h.1, h.2⟩
  | error he => exact Sim.bind (Q := fun _ _ _ => False) (readStack_failed hr hr' he) fun _ _ _ _ h => h.elim

/-- the count on top of two stacks -/
theorem frameCount_alike (σ : Tandem th same) :
    (∃ n, (σ.left.thread th).stack.frameCount = .ok n ∧ (σ.right.thread th).stack.frameCount = .ok n) ∨
    ∃ e e', (σ.left.thread th).stack.frameCount = .error e ∧ (σ.right.thread th).stack.frameCount = .error e' ∧
      StackError.Like (Corr σ.left σ.right) e e' := by
  have hback : Option.Rel (Value.Like (Corr σ.left σ.right)) (σ.left.thread th).stack.items.back?
      (σ.right.thread th).stack.items.back? := by
    have hitems := List.rel_reverse σ.alike.items
    rw [← Array.getLast?_toList, ← Array.getLast?_toList, List.getLast?_eq_head?_reverse, List.getLast?_eq_head?_reverse]
    generalize (σ.left.thread th).stack.items.toList.reverse = l, (σ.right.thread th).stack.items.toList.reverse = r at hitems
    cases hitems with
    | nil => exact .none
    | cons hv _ => exact .some hv
  unfold Stack.frameCount
  rw [σ.fits.readable, σ.fits'.readable, ← σ.stackSize_eq]
  generalize (σ.left.thread th).stack.items.back? = o, (σ.right.thread th).stack.items.back? = o' at hback
  cases hback with
  | none => exact .inr ⟨_, _, rfl, rfl, .underflow⟩
  | some hv =>
    cases hv with
    | uint n =>
      simp only [Nat.lt_irrefl, if_false]
      split
      · exact .inr ⟨_, _, rfl, rfl, .underflow⟩
      · exact .inl ⟨_, rfl, rfl⟩
    | float x => exact .inr ⟨_, _, rfl, rfl, .notMarker (.float x)⟩
    | nil => exact .inr ⟨_, _, rfl, rfl, .notMarker .nil⟩
    | t => exact .inr ⟨_, _, rfl, rfl, .notMarker .t⟩
    | unset => exact .inr ⟨_, _, rfl, rfl, .notMarker .unset⟩
    | int n => exact .inr ⟨_, _, rfl, rfl, .notMarker (.int n)⟩
    | reserved sub val => exact .inr ⟨_, _, rfl, rfl, .notMarker (.reserved sub val)⟩
    | cons h => exact .inr ⟨_, _, rfl, rfl, .notMarker (.cons h)⟩
    | symbol h => exact .inr ⟨_, _, rfl, rfl, .notMarker (.symbol h)⟩
    | scope h => exact .inr ⟨_, _, rfl, rfl, .notMarker (.scope h)⟩
    | function h => exact .inr ⟨_, _, rfl, rfl, .notMarker (.function h)⟩
    | error mood h => exact .inr ⟨_, _, rfl, rfl, .notMarker (.error mood h)⟩

theorem closeFrameWith_framed (hv : v.Like (Corr σ.left σ.right) v') :
    Framed σ ((σ.left.thread th).stack.closeFrameWith v) ((σ.right.thread th).stack.closeFrameWith v') := by
  unfold Stack.closeFrameWith Stack.closeFrame
  rcases σ.frameCount_alike with ⟨n, hl, hr⟩ | ⟨e, e', hl, hr, he⟩
  · rw [hl, hr]
    have hdrop : List.Forall₂ (Value.Like (Corr σ.left σ.right)) ((σ.left.thread th).stack.drop (n + 1)).items.toList
        ((σ.right.thread th).stack.drop (n + 1)).items.toList := by
      unfold Stack.drop
      rw [← σ.items_size]
      exact forall₂_shrink σ.alike.items _
    have hsize : ((σ.left.thread th).stack.drop (n + 1)).size = ((σ.right.thread th).stack.drop (n + 1)).size := by
      have hlen := hdrop.length_eq
      rw [Array.length_toList, Array.length_toList] at hlen
      unfold Stack.size
      rw [hlen]
      exact congrArg _ (σ.fits.readable.trans σ.fits'.readable.symm)
    have hcapacity : ((σ.left.thread th).stack.drop (n + 1)).capacity = ((σ.right.thread th).stack.drop (n + 1)).capacity :=
      σ.alike.capacity
    simp only [Stack.push, Stack.overflow]
    by_cases hfull : ((σ.left.thread th).stack.drop (n + 1)).capacity ≤ ((σ.left.thread th).stack.drop (n + 1)).size
    · rw [if_pos hfull, if_pos (hcapacity ▸ hsize ▸ hfull), hcapacity, hsize]
      exact .error (.overflow _ _)
    · rw [if_neg hfull, if_neg (hcapacity ▸ hsize ▸ hfull)]
      exact .ok rfl rfl (forall₂_push hdrop hv)
  · rw [hl, hr]
    exact .error he

theorem makeFrame_framed (hv : v.Like (Corr σ.left σ.right) v') :
    Framed σ ((σ.left.thread th).stack.makeFrame [v]) ((σ.right.thread th).stack.makeFrame [v']) := by
  unfold Stack.makeFrame Stack.overflow
  have hsize := σ.stackSize_eq
  have hcapacity := σ.alike.capacity
  by_cases hfull : (σ.left.thread th).stack.capacity < (σ.left.thread th).stack.size + [v].length + 1
  · rw [if_pos hfull, if_pos (by rw [← hcapacity, ← hsize]; exact hfull), hcapacity, hsize]
    exact .error (.overflow _ _)
  · rw [if_neg hfull, if_neg (by rw [← hcapacity, ← hsize]; exact hfull)]
    refine .ok rfl rfl (forall₂_push ?_ (.uint _))
    simp only [Array.toList_append]
    exact List.rel_append σ.alike.items (.cons hv .nil)

/-! ## Whole forms -/

/-- a frame of one form on top of the stack -/
structure Topped (m : Machine) (th : ThreadId) (below : List Value) (form : Value) : Prop where
  items : items m th = below ++ [form, .uint 1]

theorem Topped.size {m : Machine} {below : List Value} {form : Value} (h : Topped m th below form) :
    (m.thread th).stack.items.size = below.length + 2 := by
  have hitems := h.items
  unfold Tandem.items at hitems
  rw [← Array.length_toList, hitems, List.length_append]
  rfl

theorem Topped.frameCount {m : Machine} {below : List Value} {form : Value} (h : Topped m th below form)
    (hbeyond : (m.thread th).stack.beyond = 0) : (m.thread th).stack.frameCount = .ok 1 := by
  have hsize := h.size
  have hitems := h.items
  unfold Tandem.items at hitems
  unfold Stack.frameCount
  rw [hbeyond, ← Array.getLast?_toList, hitems]
  simp [Stack.size, hsize, hbeyond]

theorem Topped.run_argReference {m : Machine} {below : List Value} {form : Value} (h : Topped m th below form)
    (hbeyond : (m.thread th).stack.beyond = 0) :
    (Act.argReference th 0).run m = .ok (.ref (.stack (m.thread th).stack.id below.length)) m := by
  have hslot : (m.thread th).stack.argSlot 0 = .ok below.length := by
    unfold Stack.argSlot
    rw [h.frameCount hbeyond]
    simp [Stack.size, h.size, hbeyond]
  unfold Act.argReference
  rw [Act.bind_ok (run_readStack hslot)]
  rfl

/-- the form in a frame is the one that was put there -/
theorem Topped.load {m : Machine} {below : List Value} {form : Value} (h : Topped m th below form) (hm : m.Sound)
    (ho : (m.thread th).isOpen = true) : m.load (.stack (m.thread th).stack.id below.length) = form := by
  have hown := (hm.owners (m.thread th).stack.id th).2 ⟨ho, rfl⟩
  have hitems := h.items
  unfold Tandem.items at hitems
  simp only [Machine.load, Machine.stack?, hown, Option.map_some, Stack.get]
  rw [← Array.getElem?_toList, hitems]
  simp

theorem evalFromStack_sim (fuel : Nat) {form form' : Value} (hform : Code σ form form') {below below' : List Value}
    (hl : Topped σ.left th below form) (hr : Topped σ.right th below' form') :
    Sim σ (Act.evalFromStack fuel th) (Act.evalFromStack fuel th) fun _ _ _ => True := by
  have hclose {τ : Tandem th same} {v v' : Value} (hv : Val τ v v') :
      Sim τ (Act.onStack th (·.closeFrameWith v)) (Act.onStack th (·.closeFrameWith v')) fun _ _ _ => True :=
    Sim.mono (onStack_sim (closeFrameWith_framed hv.live)) fun _ _ _ _ _ => trivial
  have hattempt {m : Machine} {below : List Value} {form : Value} (h : Topped m th below form)
      (hbeyond : (m.thread th).stack.beyond = 0) : (Act.attempt (Act.argReference th 0)).run m =
        .ok (.ok (.ref (.stack (m.thread th).stack.id below.length))) m := by
    unfold Act.attempt
    rw [Act.run_bind, Act.run_observe, h.run_argReference hbeyond]
    rfl
  have hderef {m : Machine} {below : List Value} {form : Value} (h : Topped m th below form) (hm : m.Sound)
      (ho : (m.thread th).isOpen = true) :
      (Act.deref (.ref (.stack (m.thread th).stack.id below.length))).run m = .ok form m := by
    rw [← h.load hm ho]
    exact run_look rfl
  unfold Act.evalFromStack
  refine InStep.after (τ := σ) (hattempt hl σ.fits.readable) (hattempt hr σ.fits'.readable) ?_
  unfold Act.derefPinned
  have hpinned : Sim σ
      (do
        let x ← Act.deref (.ref (.stack (σ.left.thread th).stack.id below.length))
        Act.pin th x
        return x)
      (do
        let x ← Act.deref (.ref (.stack (σ.right.thread th).stack.id below'.length))
        Act.pin th x
        return x) Code := by
    refine InStep.after (τ := σ) (hderef hl σ.sound σ.isOpen) (hderef hr σ.sound' σ.isOpen') ?_
    exact (pin_sim (.inl hform.1.live)).sim.bind fun τ _ _ hτ _ => .pure (hform.later hτ)
  refine hpinned.bind fun τ x x' _ hx => ?_
  refine (Sim.attempt ((eval_sim th fuel).value hx)).bind fun υ r r' _ hr => ?_
  cases hr with
  | ok hv => exact hclose hv
  | error hc =>
    cases hc with
    | raised hc =>
      refine (Simulation.asError_sim hc).bind fun φ e e' _ he => ?_
      exact hclose (.error .signaling he.kept)

theorem run_popRaw {m : Machine} (hbeyond : (m.thread th).stack.beyond = 0) {below : List Value}
    (hitems : items m th = below ++ [v]) :
    (Act.popRaw th).run m = .ok v (m.onThread th (Thread.stacking fun _ => (m.thread th).stack.items.pop)) := by
  have hstack : (Act.stackOf th).run m = .ok (m.thread th).stack m := rfl
  have hpop : (m.thread th).stack.pop = (.ok v, { (m.thread th).stack with items := (m.thread th).stack.items.pop }) := by
    unfold items at hitems
    unfold Stack.pop
    rw [← Array.getLast?_toList, hitems]
    simp [hbeyond]
  unfold Act.popRaw Act.throughStack
  rw [Act.bind_ok hstack]
  simp only [hpop]
  exact Act.bind_ok (setStack_eq _)

theorem run_popRaw_empty {m : Machine} (hbeyond : (m.thread th).stack.beyond = 0) (hitems : items m th = []) :
    (Act.popRaw th).run m =
      .error (.raised .stackUnderflow) (m.onThread th (Thread.stacking fun _ => (m.thread th).stack.items)) := by
  have hstack : (Act.stackOf th).run m = .ok (m.thread th).stack m := rfl
  have hpop : (m.thread th).stack.pop = (.error .underflow, (m.thread th).stack) := by
    unfold items at hitems
    unfold Stack.pop
    rw [← Array.getLast?_toList, hitems]
    simp [hbeyond]
  unfold Act.popRaw Act.throughStack
  rw [Act.bind_ok hstack]
  simp only [hpop]
  exact Act.bind_ok (setStack_eq _)

theorem popRaw_sim (σ : Tandem th same) :
    Sim σ (Act.popRaw th) (Act.popRaw th) fun τ v v' => v.Like (Corr τ.left τ.right) v' := by
  have hitems := List.rel_reverse σ.alike.items
  generalize hl : (σ.left.thread th).stack.items.toList.reverse = l,
    hr : (σ.right.thread th).stack.items.toList.reverse = r at hitems
  cases hitems with
  | nil =>
    exact failed (σ.stacking (σ.left.thread th).stack.items (σ.right.thread th).stack.items σ.alike.items)
      (σ.stacking_balanced _ _ _) (run_popRaw_empty σ.fits.readable (List.reverse_eq_nil_iff.1 hl))
      (run_popRaw_empty σ.fits'.readable (List.reverse_eq_nil_iff.1 hr)) (.raised (.bare ⟨by simp, by simp, by simp⟩))
  | @cons v v' l r hv hrest =>
    have hl : items σ.left th = l.reverse ++ [v] := by rw [← List.reverse_cons, ← hl, List.reverse_reverse]
    have hr : items σ.right th = r.reverse ++ [v'] := by rw [← List.reverse_cons, ← hr, List.reverse_reverse]
    have hpopped : List.Forall₂ (Value.Like (Corr σ.left σ.right)) (σ.left.thread th).stack.items.pop.toList
        (σ.right.thread th).stack.items.pop.toList := by
      unfold items at hl hr
      rw [Array.toList_pop, Array.toList_pop, hl, hr, List.dropLast_concat, List.dropLast_concat]
      exact List.rel_reverse hrest
    exact done (σ.stacking _ _ hpopped) (σ.stacking_balanced _ _ hpopped)
      (run_popRaw σ.fits.readable hl) (run_popRaw σ.fits'.readable hr) hv

theorem pop_sim (σ : Tandem th same) : Sim σ (Act.pop th) (Act.pop th) Val := by
  unfold Act.pop
  refine (popRaw_sim σ).bind fun τ v v' _ hv => ?_
  refine (pin_sim (.inl hv)).sim.bind fun υ _ _ _ hkept => .pure ?_
  rcases hkept with hk | hk
  · exact hk
  · exact absurd hk.isReference.1 (by simp [hv.not_reference])

theorem makeFrame_items {s s' : Stack} {v : Value} (h : s.makeFrame [v] = .ok s') :
    s'.items.toList = s.items.toList ++ [v, .uint 1] := by
  unfold Stack.makeFrame at h
  split at h
  · cases h
  · cases h
    simp

theorem evalTopLevel_sim (fuel : Nat) {form form' : Value} (hform : Code σ form form') :
    Sim σ (Act.evalTopLevel fuel th form) (Act.evalTopLevel fuel th form') Val := by
  unfold Act.evalTopLevel
  refine guarded_sim ?_
  have hframe : Sim σ (Act.withErrorObjects th (Act.onStack th (·.makeFrame [form])))
      (Act.withErrorObjects th (Act.onStack th (·.makeFrame [form']))) fun τ _ _ =>
        Topped τ.left th (items σ.left th) form ∧ Topped τ.right th (items σ.right th) form' := by
    refine Simulation.withErrorObjects_sim th (Sim.mono (onStack_sim (makeFrame_framed hform.1.live)) ?_)
    rintro τ _ _ _ ⟨s, s', hs, hs', hl, hr⟩
    exact ⟨⟨hl.trans (makeFrame_items hs)⟩, ⟨hr.trans (makeFrame_items hs')⟩⟩
  refine hframe.bind fun τ _ _ hτ hframe => ?_
  refine (Simulation.withErrorObjects_sim th (evalFromStack_sim fuel (hform.later hτ) hframe.1 hframe.2)).bind
    fun υ _ _ _ _ => ?_
  refine (Sim.attempt (pop_sim υ)).bind fun φ r r' _ hr => ?_
  refine (maybeCollect_sim φ).bind fun ψ _ _ hψ _ => ?_
  cases hr with
  | ok hv => exact Simulation.unlessSignaling_val (Val.later hψ hv)
  | error hc =>
    cases hc with
    | raised hc => exact (Simulation.asError_sim (hc.later hψ)).bind fun _ _ _ _ he => .raise (.object he)

/-! ## Source texts -/

theorem replStep_sim (σ : Tandem th same) (fuel : Nat) (reading : Reading) :
    Sim σ (Act.replStep fuel th reading) (Act.replStep fuel th reading) fun _ _ _ => True := by
  unfold Act.replStep
  refine Sim.bind (Q := Val) (guarded_sim (Sim.bind (Simulation.onReading_sim th σ (fun hv => ?_) reading) ?_)) ?_
  · unfold Act.evalPrint
    exact (Sim.attempt (evalTopLevel_sim fuel hv)).bind fun _ _ _ _ hr => Simulation.report_sim th hr
  · exact fun _ _ _ _ _ => .pure .nil
  · exact fun _ _ _ _ _ => .pure trivial

theorem replLoop_sim (σ : Tandem th same) (fuel : Nat) (showPrompt : Bool) (c : Cursor) :
    Sim σ (Act.replLoop fuel th showPrompt c) (Act.replLoop fuel th showPrompt c) fun _ _ _ => True := by
  induction hn : c.rest.length using Nat.strong_induction_on generalizing σ c with
  | _ n ih =>
    subst hn
    have hread {τ : Tandem th same} : Sim τ
        (do
          let reading := c.read
          if reading.isFinished then return
          else
            Act.replStep fuel th reading
            Act.replLoop fuel th showPrompt reading.after)
        (do
          let reading := c.read
          if reading.isFinished then return
          else
            Act.replStep fuel th reading
            Act.replLoop fuel th showPrompt reading.after) fun _ _ _ => True := by
      simp only
      split
      · exact .pure trivial
      · rename_i hfinished
        refine (replStep_sim τ fuel c.read).bind fun υ _ _ _ _ => ?_
        exact ih _ (Cursor.read_length (by simpa using hfinished)) υ _ rfl
    rw [Act.replLoop]
    split
    · exact (write_sim σ .out (.inr rfl)).bind fun τ _ _ _ _ => by simpa using hread
    · simpa using hread

end Tandem

end LispMachine
