/-
Reached states.

A machine is settled if it is the initial machine or what an operation of a host has made of a settled one: opening and
closing threads, installing the primitives, reading, evaluating a form, a step of the loop. A loop over a whole text is a
sequence of such operations.

Inside an operation there are the states in which an evaluation starts. A run with a watched evaluator is stopped at the
first start that meets a condition, so a start is reached if a run that watches for it is stopped. Starts nest: a form is
started by the operation, and every other start lies inside one.
-/
import LispMachine.Machine.Settings
import LispMachine.Proofs.Orderly.Sessions

namespace LispMachine

open Source

/-! ## Between operations -/

/-- an operation of a host -/
inductive Command where
  | configure (r : Request)
  | shutdown
  | restrictHeap (n : Nat)
  | relaxHeap (q : Quota)
  | limitWrites (n : Option Nat)
  | install
  | openThread (capacity : Int)
  | closeThread (th : ThreadId)
  | read (th : ThreadId) (r : Reading)
  | evaluate (fuel : Nat) (th : ThreadId) (form : Value)
  | step (fuel : Nat) (th : ThreadId) (r : Reading)
  | write (c : Channel) (text : String)
  | collect (t : Trigger)

namespace Command

/-- what is run for a command, without its result -/
def act : Command → Act Unit
  | configure r => Act.configure r
  | shutdown => Act.shutdown
  | restrictHeap n => do let _ ← Act.restrictHeap n
  | relaxHeap q => Act.relaxHeap q
  | limitWrites n => modify fun m => { m with console := { m.console with budget := n } }
  | install => Act.install
  | openThread capacity => do let _ ← Act.openThread capacity
  | closeThread th => Act.closeThread th
  | read th r => do let _ ← Act.buildReading th r
  | evaluate fuel th form => do let _ ← Act.evalTopLevel fuel th form
  | step fuel th r => Act.replStep fuel th r
  | write c text => Act.write c text
  | collect t => do let _ ← Act.collect t

/-- the thread of a command is open, and what is evaluated is a form -/
def Suits (m : Machine) : Command → Prop
  | read th _ | step _ th _ => (m.thread th).isOpen = true
  | evaluate _ th form => (m.thread th).isOpen = true ∧ form.IsPlain
  | _ => True

end Command

/-- an action ends in a machine with a result or an ordinary error -/
def Act.Leaves {α : Type} (x : Act α) (m m' : Machine) : Prop :=
  (∃ a, x.run m = .ok a m') ∨ ∃ c, x.run m = .error (.raised c) m'

/-- a machine between two operations of its host -/
inductive Machine.Settled : Machine → Prop where
  | initial : Settled initial
  | step {m m' : Machine} (c : Command) : Settled m → c.Suits m → c.act.Leaves m m' → Settled m'

namespace Act

variable {α : Type} {m m' : Machine} {th : ThreadId}

theorem Settles.idle {x : Act α} (hx : x.Settles m) (h : x.Leaves m m') : m'.Idle := by
  unfold Settles Ends at hx
  rcases h with ⟨a, hr⟩ | ⟨c, hr⟩ <;> rw [hr] at hx
  · exact hx
  · exact hx c rfl

theorem Settles.discard {x : Act α} (hx : x.Settles m) : Settles (do let _ ← x) m :=
  Ends.bind hx fun _ _ h => h

theorem settles_evalTopLevel (hm : m.Idle) (ho : (m.thread th).isOpen = true) (fuel : Nat) {form : Value}
    (hform : form.IsPlain) : (evalTopLevel fuel th form).Settles m :=
  (ends_evalTopLevelBy (orderly_eval th 2 fuel fuel) (hm.sane ho) (hm.empty th ho) hform).mono
    (fun _ _ h => hm.even ho h.1.1) fun _ _ h c hc => hm.even ho ⟨h.1.onward, h.1.quietly c hc, h.1.level c hc⟩

theorem settles_replStep (hm : m.Idle) (ho : (m.thread th).isOpen = true) (fuel : Nat) (r : Reading) :
    (replStep fuel th r).Settles m :=
  (ends_replStep hm ho fuel r).mono (fun _ _ h => hm.even ho h.1) fun _ _ h c hc => hm.even ho (h c hc)

end Act

/-- a command leaves all threads idle -/
theorem Command.settles {m : Machine} (hm : m.Idle) {c : Command} (hc : c.Suits m) : c.act.Settles m := by
  cases c with
  | configure r => exact hm.congr hm.heap rfl rfl
  | shutdown => exact hm.congr hm.heap rfl rfl
  | restrictHeap n => exact hm.steady ⟨⟨hm.heap.cells, hm.heap.order.restrict n, hm.heap.spare⟩, rfl, rfl, rfl⟩
  | relaxHeap q => exact hm.steady ⟨⟨hm.heap.cells, hm.heap.order.relax q, hm.heap.spare⟩, rfl, rfl, rfl⟩
  | limitWrites n => exact hm.congr hm.heap rfl rfl
  | install => exact Act.settles_install hm
  | openThread capacity => exact Act.Ends.bind (Act.ends_openThread hm capacity) fun _ _ h => h.1
  | closeThread th => exact Act.settles_closeThread hm th
  | read th r => exact ((Act.runs_buildReading r).settles hm hc).discard
  | evaluate fuel th form => exact (Act.settles_evalTopLevel hm hc.1 fuel hc.2).discard
  | step fuel th r => exact Act.settles_replStep hm hc fuel r
  | write c text => exact (Act.still_write c text).settles hm
  | collect t => exact ((Act.still_collect (C := fun _ => True) t).settles hm).discard

/-- between two operations all threads are idle -/
theorem Machine.Settled.idle {m : Machine} (hm : m.Settled) : m.Idle := by
  induction hm with
  | initial => exact initial_idle
  | step c _ hc h hm => exact (Command.settles hm hc).idle h

/-- the machine whose only thread has just been opened -/
def Machine.opened : Machine := Outcome.machine ((Act.openThread 0).run initial)

theorem Machine.settled_opened : opened.Settled := .step (.openThread 0) .initial trivial (.inl ⟨(), rfl⟩)

/-- whether an operation came to a result, and of it and the machine then `p` holds -/
def Outcome.isOkAnd {α : Type} (o : Outcome α) (p : α → Machine → Bool) : Bool :=
  match o with
  | .ok a m => p a m
  | .error _ _ => false

theorem Outcome.exists_of_isOkAnd {α : Type} {o : Outcome α} {p : α → Machine → Bool} (h : o.isOkAnd p = true) :
    ∃ a m, o = .ok a m ∧ p a m = true := by
  cases o with
  | ok a m => exact ⟨a, m, rfl, h⟩
  | error e m => cases h

/-- the kind of the error object in which an operation ended -/
def Outcome.errorKind? {α : Type} : Outcome α → Option ErrorKind
  | .error (.raised (.object e)) _ => some e.kind
  | _ => none

theorem Outcome.exists_of_errorKind? {α : Type} {o : Outcome α} {kind : ErrorKind} (h : o.errorKind? = some kind) :
    ∃ e m, o = .error (.raised (.object e)) m ∧ e.kind = kind := by
  unfold errorKind? at h
  split at h
  · cases h
    exact ⟨_, _, rfl, rfl⟩
  · cases h

/-- whether an operation came to this result -/
def Outcome.gives {α : Type} [DecidableEq α] (o : Outcome α) (a : α) : Bool := o.isOkAnd fun x _ => x = a

theorem Outcome.eq_ok_of_gives {α : Type} [DecidableEq α] {o : Outcome α} {a : α} (h : o.gives a = true) : o = .ok a o.machine := by
  obtain ⟨x, m, rfl, hx⟩ := exists_of_isOkAnd h
  obtain rfl : x = a := by simpa using hx
  rfl

/-- the machine with the primitives installed -/
def Machine.furnished : Machine := Outcome.machine (Act.install.run initial)

/-- the machine with the primitives installed and a thread whose stack has forty slots -/
def Machine.equipped : Machine := Outcome.machine ((Act.openThread 40).run furnished)

/-- `(catch-error x e y)`, where `x` and `y` are bound to nothing -/
def Source.Form.failing : Source.Form := .list [.atom "catch-error", .atom "x", .atom "e", .atom "y"]

/-- the machine on which that form has been read -/
def Machine.failing : Machine := Outcome.machine ((Act.buildReading 1 (.form .failing (.ofRunes []))).run equipped)

/-- the form fails; a step of the loop with it prints the error -/
theorem Machine.runs_failing : (Act.install.run initial).gives () = true ∧ ((Act.openThread 40).run furnished).gives 1 = true ∧
    ((Act.buildReading 1 (.form .failing (.ofRunes []))).run equipped).gives (some (.cons 211)) = true ∧
    (failing.thread 1).stack.capacity = 40 ∧ ((Act.evalTopLevel 5 1 (.cons 211)).run failing).errorKind? = some .unboundSymbol ∧
    ((Act.replStep 5 1 (.form .failing (.ofRunes []))).run equipped).gives () = true := by decide +kernel

theorem Machine.settled_equipped : equipped.Settled ∧ (equipped.thread 1).isOpen = true := by
  obtain ⟨hinstall, hopen, -⟩ := runs_failing
  have hopened := Outcome.eq_ok_of_gives hopen
  have hfurnished : furnished.Settled := .step .install .initial trivial (.inl ⟨(), Outcome.eq_ok_of_gives hinstall⟩)
  exact ⟨.step (.openThread 40) hfurnished trivial (.inl ⟨(), Act.bind_ok hopened⟩),
    ((Act.ends_openThread hfurnished.idle 40).ok hopened).2⟩

theorem Machine.settled_failing : failing.Settled ∧ (failing.thread 1).isOpen = true := by
  obtain ⟨hequipped, ho⟩ := settled_equipped
  obtain ⟨-, -, hread, -⟩ := runs_failing
  have hformed := Outcome.eq_ok_of_gives hread
  have hsane := hequipped.idle.sane ho
  exact ⟨.step (.read 1 (.form .failing (.ofRunes []))) hequipped ho (.inl ⟨(), Act.bind_ok hformed⟩),
    ((Act.runs_buildReading _ equipped hsane).ok hformed).1.toOnward.isOpen hsane⟩

namespace Act

variable {α β : Type} {m m' : Machine} {th : ThreadId}

theorem Leaves.of_bind {x : Act α} {f : α → Act β} (h : (x >>= f).Leaves m m') :
    x.Leaves m m' ∨ ∃ a m₁, x.run m = .ok a m₁ ∧ (f a).Leaves m₁ m' := by
  unfold Leaves at h
  rw [run_bind] at h
  cases hx : x.run m with
  | ok a m₁ => rw [hx] at h; exact .inr ⟨a, m₁, rfl, h⟩
  | error e m₁ =>
    rw [hx] at h
    obtain ⟨a, h⟩ | ⟨c, h⟩ := h <;> cases h
    exact .inl (.inr ⟨c, hx⟩)

/-- the thread of a step is still open after it -/
theorem isOpen_replStep (hm : m.Idle) (ho : (m.thread th).isOpen = true) {fuel : Nat} {r : Reading}
    (h : (replStep fuel th r).run m = .ok () m') : (m'.thread th).isOpen = true := by
  have hends := ends_replStep hm ho fuel r
  unfold Ends at hends
  rw [h] at hends
  exact hends.1.isOpen (hm.sane ho)

theorem thread_write {c : Channel} {text : String} (hm : m.Idle) (h : (write c text).run m = .ok () m') :
    m'.thread th = m.thread th := by
  have hends := still_write c text m hm.heap
  unfold Ends at hends
  rw [h] at hends
  exact hends.1.thread th

/-- a loop over a text runs from settled machine to settled machine -/
theorem Leaves.settled_replLoop {fuel : Nat} {showPrompt : Bool} {c : Cursor} (hm : m.Settled)
    (ho : (m.thread th).isOpen = true) (h : (replLoop fuel th showPrompt c).Leaves m m') : m'.Settled := by
  -- the loop after its prompt
  have hrest {m : Machine} {c : Cursor} (hm : m.Settled) (ho : (m.thread th).isOpen = true)
      (ih : ¬ c.read.isFinished = true → ∀ {m : Machine}, m.Settled → (m.thread th).isOpen = true →
        (replLoop fuel th showPrompt c.read.after).Leaves m m' → m'.Settled)
      (h : (if _h : c.read.isFinished = true then pure () else do
        replStep fuel th c.read
        replLoop fuel th showPrompt c.read.after : Act Unit).Leaves m m') : m'.Settled := by
    split at h
    · obtain ⟨_, h⟩ | ⟨_, h⟩ := h <;> cases h
      exact hm
    · rename_i hf
      obtain h | ⟨_, m₁, hstep, h⟩ := Leaves.of_bind h
      · exact .step (.step fuel th c.read) hm ho h
      · exact ih hf (.step (.step fuel th c.read) hm ho (.inl ⟨(), hstep⟩)) (isOpen_replStep hm.idle ho hstep) h
  induction c using replLoop.induct fuel th showPrompt generalizing m with
  | case1 c hprompt ih =>
    rw [replLoop, if_pos hprompt] at h
    obtain h | ⟨_, m₁, hwrite, h⟩ := Leaves.of_bind h
    · exact .step (.write .out Repl.prompt) hm trivial h
    · refine hrest (.step (.write .out Repl.prompt) hm trivial (.inl ⟨(), hwrite⟩)) ?_ (fun hf _ hm ho => ih hf hm ho) h
      rw [thread_write hm.idle hwrite]
      exact ho
  | case2 c hprompt ih =>
    rw [replLoop, if_neg hprompt] at h
    exact hrest hm ho (fun hf _ hm ho => ih hf hm ho) h

end Act

/-! ## Inside an operation -/

open Classical in
/-- an evaluator that is stopped when it is to evaluate `v` on the machine `m` -/
noncomputable def Evaluator.watched (ev : Evaluator) (v : Value) (mode : Mode) (m : Machine) : Evaluator where
  eval v' mode' := do
    if v' = v ∧ mode' = mode ∧ (← get) = m then Act.fault (.custom "stopped") else ev.eval v' mode'
  steps := ev.steps

/-- an action ends because the evaluator that it uses is stopped -/
def Act.IsStopped {α : Type} (x : Act α) (m : Machine) : Prop :=
  x.Ends m (fun _ _ => False) fun e _ => e = .fault (.custom "stopped")

/-- the evaluation of `v` starts on the machine `m` with so much fuel, while a form is evaluated for a host -/
inductive Reached (th : ThreadId) : Nat → Value → Mode → Machine → Prop where
  | form {fuel : Nat} {v form : Value} {mode : Mode} {m m₀ : Machine} :
      m₀.Settled → (m₀.thread th).isOpen = true → form.IsPlain →
      (Act.evalTopLevelBy ((evaluator fuel th).watched v mode m) th form).IsStopped m₀ → Reached th fuel v mode m
  | inside {fuel : Nat} {v v₀ : Value} {mode mode₀ : Mode} {m m₀ : Machine} :
      Reached th (fuel + 1) v₀ mode₀ m₀ →
      (Act.evaluate ((evaluator fuel th).watched v mode m) th v₀ mode₀).IsStopped m₀ → Reached th fuel v mode m

/-- a machine between operations, or at the start of an evaluation -/
def Machine.Visited (m : Machine) : Prop := m.Settled ∨ ∃ th fuel v mode, Reached th fuel v mode m

section Watched

variable {ev : Evaluator} {th : ThreadId} {b : Nat} {v : Value} {mode : Mode} {m : Machine}

/-- until it is stopped, a watched evaluator does what it did -/
theorem Evaluator.run_watched {v' : Value} {mode' : Mode} {m' : Machine} (h : ¬ (v' = v ∧ mode' = mode ∧ m' = m)) :
    ((ev.watched v mode m).eval v' mode').run m' = (ev.eval v' mode').run m' := by
  simp only [watched, Act.run_bind, Act.run_get, if_neg h]

theorem Evaluator.isStopped_watched : ((ev.watched v mode m).eval v mode).IsStopped m := by
  simp [Act.IsStopped, Act.Ends, watched, Act.run_bind]

/-- an evaluator that is watched for a start that is not orderly is orderly: it is never stopped -/
theorem Evaluator.Orderly.watched (hev : ev.Orderly th b) (h : ¬ (m.Sane th b b ∧ (mode = .place → v.StaysAbove b))) :
    (ev.watched v mode m).Orderly th b where
  value v' m' hm := by
    unfold Act.Ends
    rw [run_watched (by rintro ⟨-, rfl, rfl⟩; exact h ⟨hm, by simp⟩)]
    exact hev.value v' m' hm
  place v' hv m' hm := by
    unfold Act.Ends
    rw [run_watched (by rintro ⟨rfl, rfl, rfl⟩; exact h ⟨hm, fun _ => hv⟩)]
    exact hev.place v' hv m' hm
  pinned v' m' hm := by
    unfold Act.Ends
    rw [run_watched (by rintro ⟨-, rfl, rfl⟩; exact h ⟨hm, by simp⟩)]
    exact hev.pinned v' m' hm

theorem Act.Ends.not_isStopped {α : Type} {x : Act α} {Q : α → Machine → Prop} {E : Failure → Machine → Prop}
    {C : Cause → Prop} (hx : x.Ends m Q E) (hE : ∀ e m', E e m' → e.IsKnown C) : ¬ x.IsStopped m := by
  unfold IsStopped Ends at *
  cases hr : x.run m with
  | ok a m' => exact id
  | error e m' =>
    rw [hr] at hx
    exact (hE e m' hx).fault _

/-- every start of an evaluation is orderly -/
theorem Reached.sane {fuel : Nat} (h : Reached th fuel v mode m) :
    m.Sane th 2 2 ∧ (mode = .place → v.StaysAbove 2) := by
  induction h with
  | @form fuel v form mode m m₀ hm ho hform hstopped =>
    by_contra hnot
    exact (Act.ends_evalTopLevelBy ((Act.orderly_eval th 2 fuel fuel).watched hnot) (hm.idle.sane ho) (hm.idle.empty th ho)
      hform).not_isStopped (fun _ _ h => h.1.toIsKnown) hstopped
  | @inside fuel v v₀ mode mode₀ m m₀ _ hstopped ih =>
    by_contra hnot
    exact (Act.ends_evaluate ((Act.orderly_eval th 2 fuel fuel).watched hnot) ih.1 v₀ mode₀ ih.2).not_isStopped
      (fun _ _ h => h.1.toIsKnown) hstopped

end Watched

/-- any open thread can run on a machine that is visited -/
theorem Machine.Visited.sane {m : Machine} (hm : m.Visited) {th : ThreadId} (ho : (m.thread th).isOpen = true) :
    m.Sane th 2 0 := by
  rcases hm with hm | ⟨u, fuel, v, mode, hr⟩
  · exact hm.idle.sane ho
  · have hs := hr.sane.1
    exact ⟨hs.toClean, hs.quiet, hs.global, Nat.zero_le _, ho, hs.beyond, hs.inside, hs.owned, Nat.zero_le _⟩

/-- and it can go on where it is -/
theorem Machine.Visited.sane_zero {m : Machine} (hm : m.Visited) {th : ThreadId} (ho : (m.thread th).isOpen = true) :
    m.Sane th 0 0 :=
  have hs := hm.sane ho
  { hs with toClean := hs.toClean.mono (Nat.zero_le 2), floor := le_rfl }

/-! ## A form is started -/

namespace Act

variable {α β : Type} {th : ThreadId} {m m' : Machine}

theorem IsStopped.bind {x : Act α} (hx : x.IsStopped m) (f : α → Act β) : (x >>= f).IsStopped m :=
  Ends.bind hx fun _ _ h => h.elim

theorem IsStopped.of_ok {x : Act α} {f : α → Act β} {a : α} (hx : x.run m = .ok a m') (hf : (f a).IsStopped m') :
    (x >>= f).IsStopped m := by
  unfold IsStopped Ends
  rw [bind_ok hx]
  exact hf

theorem IsStopped.attempt {x : Act α} (hx : x.IsStopped m) : (attempt x).IsStopped m :=
  Ends.attempt (hx.mono (fun _ _ h => h.elim) fun e _ h => by subst h; exact rfl)

theorem IsStopped.withErrorObjects {x : Act α} (hx : x.IsStopped m) : (withErrorObjects th x).IsStopped m := hx.attempt.bind _

/-- a guard lets a stopped evaluation through -/
theorem IsStopped.guarded {x : Act Value} (hx : x.IsStopped m) : (guarded th x).IsStopped m := by
  have hguard : (openGuard th).run m = .ok ⟨(m.thread th).pins.size, (m.thread th).stack.size⟩ m := rfl
  refine IsStopped.of_ok hguard ?_
  refine Ends.bind (P := fun r _ => r = .error (.fault (.custom "stopped")))
    (.observe (hx.mono (fun _ _ h => h.elim) fun _ _ h => by rw [h])) ?_
  rintro _ m' rfl
  exact rfl

/-- looking at a place gives what it holds -/
theorem exists_run_look (m : Machine) (p : Place) : ∃ m', (look p).run m = .ok (m.load p) m' := by
  unfold look
  simp only [run_bind, run_get]
  split <;> exact ⟨_, rfl⟩

/-- the form that has been read from its frame is evaluated -/
theorem isStopped_evalTopLevelBy (hm : m.Sane th 2 0) (hempty : (m.thread th).height = 0) {form v : Value} (hform : form.IsPlain)
    {m₁ m₂ : Machine} (hmake : (withErrorObjects th (onStack th (·.makeFrame [form]))).run m = .ok () m₁)
    (hderef : (derefPinned th (.ref (.stack (m₁.thread th).stack.id 0))).run m₁ = .ok v m₂) (ev : Evaluator) :
    (evalTopLevelBy (ev.watched v .value m₂) th form).IsStopped m := by
  have hf := (ends_withErrorObjects hm (ends_makeFrame hm hempty hform)).ok hmake
  refine IsStopped.guarded (.of_ok hmake (IsStopped.bind (.withErrorObjects ?_) _))
  exact .of_ok (run_argReference hm hf) (.of_ok hderef (.bind (.attempt Evaluator.isStopped_watched) _))

/-- an evaluation is started for every form that fits on the stack -/
theorem exists_reached (hm : m.Settled) (ho : (m.thread th).isOpen = true) (hroom : 2 ≤ (m.thread th).stack.capacity)
    {form : Value} (hform : form.IsPlain) (fuel : Nat) : ∃ v m', Reached th fuel v .value m' := by
  have hidle := hm.idle
  have hitems : (m.thread th).stack.items = #[] := Array.eq_empty_of_size_eq_zero (hidle.empty th ho)
  have hfits : ¬ (m.thread th).stack.capacity < 2 := Nat.not_lt.2 hroom
  obtain ⟨s, hframe⟩ : ∃ s, (m.thread th).stack.makeFrame [form] = .ok s :=
    ⟨{ (m.thread th).stack with items := #[form, .uint 1] }, by
      simp [Stack.makeFrame, Stack.size, hfits, hitems, hidle.beyond th ho]⟩
  obtain ⟨m₁, hmake⟩ : ∃ m₁, (withErrorObjects th (onStack th (·.makeFrame [form]))).run m = .ok () m₁ := by
    refine ⟨m.onThread th fun t => { t with stack := s }, ?_⟩
    unfold withErrorObjects attempt
    simp only [run_bind, run_observe]
    rw [run_onStack hframe]
    rfl
  obtain ⟨v, m₂, hderef⟩ : ∃ v m₂, (derefPinned th (.ref (.stack (m₁.thread th).stack.id 0))).run m₁ = .ok v m₂ := by
    obtain ⟨m₂, hlook⟩ := exists_run_look m₁ (.stack (m₁.thread th).stack.id 0)
    have hpin : ∀ v m, ∃ m', (pin th v).run m = .ok () m' := by
      intro v m
      unfold pin
      split <;> exact ⟨_, rfl⟩
    obtain ⟨m₃, hpinned⟩ := hpin (m₁.load (.stack (m₁.thread th).stack.id 0)) m₂
    exact ⟨_, m₃, (bind_ok hlook).trans (bind_ok hpinned)⟩
  exact ⟨v, m₂, .form hm ho hform (isStopped_evalTopLevelBy (hidle.sane ho) (hidle.empty th ho) hform hmake hderef _)⟩

end Act

end LispMachine
