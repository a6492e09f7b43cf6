/-
Whole forms and source texts on two machines, one of which has its variables in boxes.

On the left a form is evaluated through a frame on the stack, inside guards that drop what has been pinned; on the right it is just
evaluated. What is laid on the stack for it is taken back unless a fault unwinds everything, so from form to form nothing is lost.
-/
import LispMachine.Proofs.Boxed.Evaluate
import LispMachine.Proofs.Tandem.Sessions

namespace LispMachine.Boxed

open Simulation (InStep Sim Later Val Code Attempted)
open Source (Cursor Reading)

variable {th : ThreadId} {σ τ υ : Situation th} {F : Situation th → Failure → Failure → Prop} {v v' w w' : Value} {vs : List Value}

/-! ## Frames -/

theorem recasts_append (σ : Situation th) (vs : List Value) : Recasts σ σ.height (· ++ vs.toArray) where
  above := Situation.lt_height
  below _ hi := Array.getElem?_append_left hi

theorem laid_append (σ : Situation th) (vs : List Value) : Laid σ (σ.restack (recasts_append σ vs)) vs := by
  have hheight : (σ.restack (recasts_append σ vs)).height = σ.height + vs.length := by
    rw [Situation.height_restack, Array.size_append, List.size_toArray]
    rfl
  refine ⟨(Situation.Keeps.refl σ).restack _ (Nat.le_refl _) (by rw [hheight]; exact Nat.le_add_right _ _), hheight, fun j hj => ?_⟩
  refine (Situation.item?_restack ..).trans ((Array.getElem?_append_right (Nat.le_add_right σ.height j)).trans ?_)
  rw [List.getElem?_toArray]
  exact congrArg (vs[·]?) (Nat.add_sub_cancel_left ..)

/-- what has been laid is on top -/
theorem Laid.items (h : Laid σ τ vs) :
    Tandem.items τ.left th = (Tandem.items τ.left th).take σ.height ++ vs := by
  refine (List.take_append_drop σ.height _).symm.trans (congrArg _ (List.ext_getElem? fun j => ?_))
  rw [List.getElem?_drop]
  by_cases hj : j < vs.length
  · exact (Array.getElem?_toList ..).trans (h.values j hj)
  · have hlen : (Tandem.items τ.left th).length = σ.height + vs.length := h.level
    rw [List.getElem?_eq_none (Nat.not_lt.1 hj), List.getElem?_eq_none]
    rw [hlen]
    exact Nat.add_le_add_left (Nat.not_lt.1 hj) _

theorem Laid.balanced (h : Laid σ τ vs) (hb : Situation.Balanced τ υ) : Laid σ υ vs := by
  simpa using h.trans (.of_balanced hb)

section

variable {m : Machine} {f : Stack → Except StackError Stack}

theorem run_onStack {g : Array Value → Array Value}
    (h : f (m.thread th).stack = .ok { (m.thread th).stack with items := g (m.thread th).stack.items }) :
    (Act.onStack th f).run m = .ok () (m.onThread th (Thread.stacking g)) := by
  unfold Act.onStack
  rw [Act.bind_ok (Tandem.run_readStack h), Tandem.setStack_eq]
  exact congrArg (EStateM.Result.ok ()) (Machine.onThread_congr rfl)

theorem run_onStack_overflow {s : Stack} (h : f (m.thread th).stack = .error s.overflow) :
    Event.overflowed ∈ (Outcome.machine ((Act.onStack th f).run m)).journal := by
  unfold Act.onStack
  rw [Act.bind_error (Tandem.run_readStack_error h)]
  exact List.mem_cons_self

end

/-- a frame of one value -/
theorem makeFrame_laid (σ : Situation th) (v : Value) :
    Keeping σ F (Act.withErrorObjects th (Act.onStack th (·.makeFrame [v]))) (pure ()) fun τ _ _ => Laid σ τ [v, .uint 1] := by
  by_cases hfull : (σ.left.thread th).stack.capacity < (σ.left.thread th).stack.size + [v].length + 1
  · refine interrupted (e := .overflowed) rfl (List.IsSuffix.subset ?_ (run_onStack_overflow (f := (·.makeFrame [v])) (if_pos hfull)))
    exact (Simulation.observe_grows _ _).trans ((Simulation.bind_grows _ _ _).trans (Simulation.bind_grows _ _ _))
  · have hitems : ((σ.left.thread th).stack.items ++ [v].toArray).push (.uint (UInt32.ofNat [v].length)) =
        (σ.left.thread th).stack.items ++ [v, .uint 1].toArray := Array.toList_inj.1 (by simp)
    have hframe : (σ.left.thread th).stack.makeFrame [v] = .ok { (σ.left.thread th).stack with
        items := (σ.left.thread th).stack.items ++ [v, .uint 1].toArray } := by
      unfold Stack.makeFrame
      rw [if_neg hfull, hitems]
    refine done (a := ()) (σ.restack (recasts_append σ [v, .uint 1])) (laid_append σ _).toKeeps ?_ rfl (laid_append σ _)
    unfold Act.withErrorObjects Act.attempt
    rw [Act.run_bind_assoc, Act.run_bind, Act.run_observe, run_onStack (g := (· ++ [v, .uint 1].toArray)) hframe]
    rfl

/-- the frame of a form on top of the stack -/
theorem Laid.topped (h : Laid σ τ [v, .uint 1]) :
    Tandem.Topped τ.left th ((Tandem.items τ.left th).take σ.height) v ∧
      ((Tandem.items τ.left th).take σ.height).length = σ.height := by
  refine ⟨⟨h.items⟩, List.length_take_of_le ?_⟩
  exact Nat.le_of_lt_succ (Nat.lt_succ_of_le (h.height.trans (Nat.le_of_eq (Array.length_toList).symm)))

theorem recasts_close (hk : Situation.Keeps σ τ) (v : Value) : Recasts τ σ.height fun items => (items.shrink σ.height).push v where
  above hs := Situation.lt_height (hk.slot hs)
  below i hi := by
    have hle : σ.height ≤ (τ.left.thread th).stack.items.toList.length := hk.height.trans (Nat.le_of_eq Array.length_toList.symm)
    rw [← Array.getElem?_toList, ← Array.getElem?_toList, Array.toList_push, Array.toList_shrink,
      List.getElem?_append_left (by rw [List.length_take_of_le hle]; exact hi), List.getElem?_take_of_lt hi]

/-- a frame of one value is closed with another -/
theorem closeFrameWith_laid {β : Type} (h : Laid σ τ [v, .uint 1]) (w : Value) (b : β) :
    InStep (fun _ υ => Situation.Keeps σ υ) F τ (Act.onStack th (·.closeFrameWith w)) (pure b) fun υ _ b' =>
      b' = b ∧ Laid σ υ [w] ∧ Later τ υ := by
  obtain ⟨htop, hlen⟩ := h.topped
  have hdrop : (τ.left.thread th).stack.closeFrame = .ok { (τ.left.thread th).stack with
      items := (τ.left.thread th).stack.items.shrink σ.height } := by
    have hsize : (τ.left.thread th).stack.items.size = σ.height + 2 := h.level
    unfold Stack.closeFrame
    rw [htop.frameCount τ.agree.whole]
    simp [Stack.drop, hsize]
  have hlaid : Laid σ (τ.restack (recasts_close h.toKeeps w)) [w] := by
    have hheight : (τ.restack (recasts_close h.toKeeps w)).height = σ.height + 1 := by
      rw [Situation.height_restack, Array.size_push, Array.size_shrink]
      exact congrArg (· + 1) (Nat.min_eq_left h.height)
    refine ⟨h.toKeeps.restack _ (Nat.le_refl _) (by omega), hheight, fun j hj => ?_⟩
    obtain rfl : j = 0 := Nat.lt_one_iff.1 hj
    have hsize : ((τ.left.thread th).stack.items.shrink σ.height).size = σ.height := by
      rw [Array.size_shrink]
      exact Nat.min_eq_left h.height
    rw [Situation.item?_restack, Nat.add_zero, Array.getElem?_push, if_pos hsize.symm]
    rfl
  have hclose : (τ.left.thread th).stack.closeFrameWith w = Stack.push { (τ.left.thread th).stack with
      items := (τ.left.thread th).stack.items.shrink σ.height } w := by
    unfold Stack.closeFrameWith
    rw [hdrop]
  by_cases hfull : (τ.left.thread th).stack.capacity ≤
      { (τ.left.thread th).stack with items := (τ.left.thread th).stack.items.shrink σ.height }.size
  · exact interrupted (e := .overflowed) rfl (run_onStack_overflow (f := (·.closeFrameWith w)) (hclose.trans (if_pos hfull)))
  · exact done (σ := τ) (τ.restack (recasts_close h.toKeeps w)) hlaid.toKeeps (run_onStack (hclose.trans (if_neg hfull))) rfl
      ⟨rfl, hlaid, Situation.later_restack _⟩

/-- what has been laid alone is popped -/
theorem run_pop (h : Laid σ τ [v]) : ∃ υ, Situation.Balanced σ υ ∧ Later τ υ ∧ υ.right = τ.right ∧
    (Act.pop th).run τ.left = .ok v υ.left := by
  have hpop : (Act.popRaw th).run τ.left = .ok v (τ.restack h.recasts).left := by
    have hsize : (τ.left.thread th).stack.items.size = σ.height + 1 := h.level
    refine (Tandem.run_popRaw τ.agree.whole h.items).trans (congrArg (EStateM.Result.ok v) (Machine.onThread_congr ?_))
    have hpop : (τ.left.thread th).stack.items.pop = (τ.left.thread th).stack.items.shrink σ.height := by
      rw [← Array.toList_inj, Array.toList_pop, Array.toList_shrink, List.dropLast_eq_take, Array.length_toList, hsize,
        Nat.add_sub_cancel]
    simp only [Thread.stacking, hpop]
  obtain ⟨m, hpin, hidle⟩ := run_pin (τ.restack h.recasts).agree.isOpen v
  refine ⟨(τ.restack h.recasts).idle hidle (.refl th _), h.cut.trans (Situation.balanced_idle ..), ?_, rfl, ?_⟩
  · exact (Situation.later_restack _).trans (later_idle ..)
  · unfold Act.pop
    rw [Act.bind_ok hpop, Act.bind_ok hpin]
    rfl

/-! ## Whole forms -/

theorem run_deref_slot (h : Laid σ τ [v, .uint 1]) :
    (Act.deref (.ref (.stack (τ.left.thread th).stack.id σ.height))).run τ.left = .ok v τ.left := by
  have hv := h.values 0 (by simp)
  rw [Nat.add_zero] at hv
  rw [← load_slot τ.agree.owner hv]
  exact Tandem.run_look rfl

theorem close_laid (h : Laid σ τ [v, .uint 1]) (hw : Val τ w w') :
    InStep (fun _ υ => Situation.Keeps σ υ) F τ (Act.onStack th (·.closeFrameWith w)) (pure w') fun υ _ w' =>
      ∃ w, Val υ w w' ∧ Laid σ υ [w] :=
  InStep.mono (closeFrameWith_laid h w w') (fun _ => id) (fun _ _ _ _ => id) fun _ _ _ _ ⟨heq, hlaid, hlater⟩ =>
    ⟨w, heq ▸ hw.later hlater, hlaid⟩

/-- the form in a frame is evaluated, and its value or error takes the place of the frame -/
theorem evalFromStack_laid (fuel : Nat) (hlaid : Laid σ τ [v, .uint 1]) (hv : Val τ v v') :
    InStep (fun _ υ => Situation.Keeps σ υ) Simulation.Failure.Like τ (Act.evalFromStack fuel th) (evalSignaling fuel th v')
      fun υ _ w' => ∃ w, Val υ w w' ∧ Laid σ υ [w] := by
  obtain ⟨htop, hlen⟩ := hlaid.topped
  obtain ⟨m, hpin, hidle⟩ := run_pin τ.agree.isOpen v
  let φ := τ.idle hidle (.refl th τ.right)
  have hφ : Situation.Balanced τ φ := τ.balanced_idle hidle (.refl th τ.right)
  have hreference : (Act.attempt (Act.argReference th 0)).run τ.left =
      .ok (.ok (.ref (.stack (τ.left.thread th).stack.id σ.height))) τ.left := by
    unfold Act.attempt
    rw [Act.run_bind, Act.run_observe, htop.run_argReference τ.agree.whole, hlen]
    rfl
  have hform : (Act.derefPinned th (.ref (.stack (τ.left.thread th).stack.id σ.height))).run τ.left = .ok v φ.left := by
    unfold Act.derefPinned
    rw [Act.bind_ok (run_deref_slot hlaid), Act.bind_ok hpin]
    rfl
  have hkeeps {υ : Situation th} (hυ : Situation.Balanced φ υ) : Laid σ υ [v, .uint 1] := (hlaid.balanced hφ).balanced hυ
  unfold Act.evalFromStack evalSignaling
  refine leftAfter τ hreference rfl (leftAfter φ hform rfl ?_)
  refine InStep.bind (Sim.attempt ((eval_sim th fuel).value (σ := φ) ⟨hv, trivial⟩)) (fun _ hυ => (hkeeps hυ).toKeeps)
    fun υ r r' hυ hr => ?_
  cases hr with
  | ok hw => exact close_laid (hkeeps hυ) hw
  | error hc =>
    cases hc with
    | raised hc =>
      refine InStep.bind (Simulation.asError_sim hc) (fun _ hψ => (hkeeps (hυ.trans hψ)).toKeeps) fun ψ e e' hψ he => ?_
      exact close_laid (hkeeps (hυ.trans hψ)) (.error .signaling he.kept)

/-- errors are made into objects on both sides -/
theorem errorObjects {α β : Type} {R : Situation th → Situation th → Prop} {Q : Situation th → α → β → Prop} {x : Act α}
    {y : Act β} (h : InStep R Simulation.Failure.Like σ x y Q) (hR : ∀ τ υ, R σ τ → Situation.Balanced τ υ → R σ υ) :
    InStep R Simulation.Failure.Like σ (Act.withErrorObjects th x) (Act.withErrorObjects th y) Q := by
  unfold Act.withErrorObjects
  refine InStep.bind (InStep.attempted (fun _ _ _ => .like) h) (fun _ => id) fun τ r r' hτ hr => ?_
  cases hr with
  | ok hQ => exact InStep.pure hτ hQ
  | error hc =>
    cases hc with
    | raised hc =>
      refine InStep.bind (Simulation.asError_sim hc) (fun _ => hR _ _ hτ) fun υ e e' hυ he => ?_
      exact InStep.throw (σ := υ) (hR τ υ hτ hυ) (.raised (.object he))

theorem evalTopLevel_keeping (fuel : Nat) (hv : Val σ v v') :
    Keeping σ Simulation.Failure.Like (Act.evalTopLevel fuel th v) (evalTopLevel fuel th v') Val := by
  unfold Act.evalTopLevel evalTopLevel
  refine guarded_left steady_like ?_ (fun _ _ h h' => h.trans h'.toKeeps) fun _ _ _ _ _ _ _ => id
  refine leftBind (makeFrame_laid σ v) (fun _ => id) fun τ _ _ hframe => ?_
  refine InStep.bind (errorObjects (evalFromStack_laid fuel hframe (hv.later hframe.later)) fun _ _ h h' => h.trans h'.toKeeps)
    (fun _ => id) fun υ _ w' hυ hw => ?_
  obtain ⟨w, hw, hlaid⟩ := hw
  obtain ⟨φ, hφ, hlater, hright, hpop⟩ := run_pop hlaid
  have hattempt : (Act.attempt (Act.pop th)).run υ.left = .ok (.ok w) φ.left := by
    unfold Act.attempt
    rw [Act.run_bind, Act.run_observe, hpop]
    rfl
  refine leftAfter φ hattempt hright (leftBind (maybeCollect_sim φ) (fun _ hψ => (hφ.trans hψ).toKeeps) fun ψ _ hψ _ => ?_)
  have hw : Val ψ w w' := hw.later (hlater.trans (.of_balanced hψ))
  exact InStep.mono (Simulation.unlessSignaling_val hw) (fun _ h => ((hφ.trans hψ).trans h).toKeeps) (fun _ _ _ _ => id)
    fun _ _ _ _ => id

/-! ## Source texts -/

theorem evalPrint_keeping (fuel : Nat) (hv : Val σ v v') :
    Keeping σ Simulation.Failure.Like (Act.evalPrint fuel th v) (evalPrint fuel th v') fun _ _ _ => True := by
  unfold Act.evalPrint evalPrint
  refine Keeping.bind (InStep.attempted (fun _ _ _ => .like) (evalTopLevel_keeping fuel hv)) fun τ r r' _ hr => ?_
  exact InStep.mono (Simulation.report_sim th hr) (fun _ => Situation.Balanced.toKeeps) (fun _ _ _ _ => id) fun _ _ _ _ => id

/-- a result that is not used may be anything -/
theorem run_discard (x : Act Unit) (v : Value) (m : Machine) :
    x.run m = ((x >>= fun _ => pure v) >>= fun _ => pure ()).run m := by
  rw [Act.run_bind, Act.run_bind]
  cases x.run m <;> rfl

theorem replStep_keeping (σ : Situation th) (fuel : Nat) (reading : Reading) :
    Keeping σ Simulation.Failure.Like (Act.replStep fuel th reading) (Act.onReading th (evalPrint fuel th) reading)
      fun _ _ _ => True := by
  have hread := Simulation.onReading_inStep th (R := Situation.Keeps) σ (fun _ => Situation.Balanced.toKeeps)
    (fun τ _ _ hτ hv => InStep.mono (evalPrint_keeping fuel hv.1) (fun _ => hτ.toKeeps.trans) (fun _ _ _ _ => id)
      fun _ _ _ _ => id) reading
  have hnil : Keeping σ Simulation.Failure.Like (do Act.onReading th (Act.evalPrint fuel th) reading; return Value.nil)
      (do Act.onReading th (evalPrint fuel th) reading; return Value.nil) fun _ _ _ => True :=
    Keeping.bind hread fun _ _ _ _ _ => .pure trivial
  unfold Act.replStep
  refine same_run rfl (run_discard _ .nil _) (Keeping.bind (guarded_left steady_like hnil ?_ ?_) fun _ _ _ _ _ => .pure trivial)
  · exact fun _ _ h h' => h.trans h'.toKeeps
  · exact fun _ _ _ _ _ _ _ => id

theorem replLoop_keeping (σ : Situation th) (fuel : Nat) (showPrompt : Bool) (c : Cursor) :
    Keeping σ Simulation.Failure.Like (Act.replLoop fuel th showPrompt c) (replLoop fuel th showPrompt c) fun _ _ _ => True := by
  induction hn : c.rest.length using Nat.strong_induction_on generalizing σ c with
  | _ n ih =>
    subst hn
    have hread (τ : Situation th) : Keeping τ Simulation.Failure.Like
        (if c.read.isFinished then pure () else do
          Act.replStep fuel th c.read
          Act.replLoop fuel th showPrompt c.read.after)
        (if c.read.isFinished then pure () else do
          Act.onReading th (evalPrint fuel th) c.read
          replLoop fuel th showPrompt c.read.after) fun _ _ _ => True := by
      split
      · exact .pure trivial
      · rename_i hfinished
        refine Keeping.bind (replStep_keeping τ fuel c.read) fun υ _ _ _ _ => ?_
        exact ih _ (Cursor.read_length (by simpa using hfinished)) υ _ rfl
    rw [Act.replLoop, replLoop]
    split
    · exact Keeping.bind (Keeping.of_sim (write_sim σ .out fun _ => rfl)) fun τ _ _ _ _ => by simpa using hread τ
    · simpa using hread σ

end LispMachine.Boxed
