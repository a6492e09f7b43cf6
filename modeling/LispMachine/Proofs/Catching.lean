/-
Catching errors.

An error that comes out of an evaluation goes outwards until a handler that may catch it tries the form that it comes out of.
Stack overflows and full heaps are never caught: such an error is what the operation ends with. For any other the innermost
handler has its forms run, once, in a scope of their own.
-/
import LispMachine.Proofs.Balance
import LispMachine.Proofs.Handlers

namespace LispMachine

/-! ## The scope of a handler -/

/-- the slot of a thread's stack that is pushed next -/
def Machine.nextSlot (m : Machine) (th : ThreadId) : Place := .stack (m.thread th).stack.id (m.thread th).stack.size

/-- a scope of temporary bindings in which a symbol refers to a place -/
def Scope.over (outer name : Handle) (p : Place) : Scope :=
  { parent := .scope outer, table := [(name, .ref p)], transient := true }

/-- a thread has gone into a fresh scope over its innermost one, in which a symbol is bound to a value in a new slot -/
structure Machine.Bound (th : ThreadId) (name : Handle) (v : Value) (h : Handle) (m m' : Machine) : Prop where
  fresh : m.heap.slot? h = none
  scope : ∃ outer, (m.thread th).scopes.back? = some outer ∧
    m'.cell? h = some (.scope (.over outer name (m.nextSlot th)))
  scopes : (m'.thread th).scopes = (m.thread th).scopes.push h
  slots : (m'.thread th).stack.items = (m.thread th).stack.items.push v
  denotes : m'.lookup? h name = some (.ref (m.nextSlot th)) ∧ m'.load (m.nextSlot th) = v
  cells : ∀ t, t ≠ h → m'.heap.slot? t = m.heap.slot? t
  journal : m'.journal = m.journal

/-- the machine with a slot pushed -/
def Machine.pushing (m : Machine) (th : ThreadId) (v : Value) : Machine :=
  m.onThread th fun t => { t with stack := { t.stack with items := t.stack.items.push v } }

/-- the machine with a slot pushed and with a fresh scope that refers to it, gone into -/
def Machine.binding (m : Machine) (th : ThreadId) (name : Handle) (v : Value) (outer : Handle) : Machine :=
  let h := m.heap.nextHandle
  let m₂ := { m.pushing th v with heap := m.heap.insert (.scope (.over outer name (m.nextSlot th))) m.collector.epoch false }
  let m₃ := m₂.onThread th fun t => { t with pins := t.pins.push (.scope h) }
  m₃.rescoped th (·.push h) h (m.useCount h + 1)

/-- a failure that there is when a scope cannot be entered -/
def Failure.IsFull (f : Failure) : Prop :=
  f = .fault .exhausted ∨ ∃ e, f = .raised (.object e) ∧ e.kind = .stackOverflow

namespace Act

variable {th : ThreadId} {b k : Nat} {m m' : Machine}

theorem bound_binding (hm : m.Sane th b b) (name : Handle) (v : Value) {outer : Handle}
    (houter : (m.thread th).scopes.back? = some outer) :
    m.Bound th name v m.heap.nextHandle (m.binding th name v outer) := by
  have hown : (m.binding th name v outer).thread th = { m.thread th with
      stack := { (m.thread th).stack with items := (m.thread th).stack.items.push v }
      pins := (m.thread th).pins.push (.scope m.heap.nextHandle)
      scopes := (m.thread th).scopes.push m.heap.nextHandle } := by
    have hpushed := (Machine.becomes_onThread hm.isOpen fun t =>
      { t with stack := { t.stack with items := t.stack.items.push v } }).own
    have hmade : ({ m.pushing th v with heap := m.heap.insert (.scope (.over outer name (m.nextSlot th))) m.collector.epoch false } :
        Machine).thread th = _ := hpushed
    have hpinned := (Machine.becomes_onThread (by rw [hmade]; exact hm.isOpen) fun t =>
      { t with pins := t.pins.push (.scope m.heap.nextHandle) }).own
    rw [hmade] at hpinned
    have hentered := (Machine.becomes_rescoped (h := m.heap.nextHandle) (by rw [hpinned]; exact hm.isOpen)
      (·.push m.heap.nextHandle) (m.useCount m.heap.nextHandle + 1)).own
    rw [hpinned] at hentered
    exact hentered
  have hsize : (m.thread th).stack.size = (m.thread th).stack.items.size := hm.size
  have hslot (t : Handle) : (m.binding th name v outer).heap.slot? t = if t = m.heap.nextHandle then
      some ⟨.scope (.over outer name (m.nextSlot th)), m.collector.epoch, m.heap.births, false⟩ else m.heap.slot? t :=
    hm.heap.order.slot?_insert ..
  have hcell : (m.binding th name v outer).cell? m.heap.nextHandle = some (.scope (.over outer name (m.nextSlot th))) := by
    rw [Machine.cell?, Heap.cell?_of_slot? ((hslot _).trans (if_pos rfl))]
  refine ⟨hm.heap.order.slot?_nextHandle, ⟨outer, houter, hcell⟩, by rw [hown], by rw [hown], ⟨?_, ?_⟩,
    fun t ht => (hslot t).trans (if_neg ht), rfl⟩
  · have hscope : (m.binding th name v outer).scope m.heap.nextHandle = .over outer name (m.nextSlot th) := by
      rw [Machine.scope, hcell]
    rw [Machine.lookup?, Machine.lookupWithin, hscope]
    simp [Scope.own?, Scope.over]
  · have howner : ((m.binding th name v outer).stackOwners[(m.thread th).stack.id]?).join = some th :=
      Option.join_eq_some_iff.2 (hm.owned th hm.isOpen)
    simp only [Machine.nextSlot, Machine.load, Machine.stack?, howner, Option.map_some, hown, Stack.get, hsize]
    simp

/-- a scope of temporary bindings for one symbol -/
theorem ends_newTransient_one (outer name : Handle) (p : Place) (m : Machine) :
    (newTransient th (.scope outer) [name] [.ref p]).Ends m
      (fun h m' => h = m.heap.nextHandle ∧ m' = Machine.onThread
        { m with heap := m.heap.insert (.scope (.over outer name p)) m.collector.epoch false } th
        fun t => { t with pins := t.pins.push (.scope h) })
      fun f m' => f = .fault .exhausted ∧ m' = { m with journal := .refused :: m.journal } := by
  unfold newTransient
  refine Ends.bind (P := fun h m' => h = m.heap.nextHandle ∧
    m' = { m with heap := m.heap.insert (.scope (.over outer name p)) m.collector.epoch false })
    (ends_allocate (.scope (.over outer name p)) false m) ?_
  rintro _ _ ⟨rfl, rfl⟩
  exact ⟨rfl, rfl⟩

/-- one symbol is bound, or the stack or the heap is full -/
theorem ends_enterBindings_one (hm : m.Sane th b b) (name : Handle) (v : Value) :
    (enterBindings th [name] [v]).Ends m (fun h m' => m.Bound th name v h m') fun f _ => f.IsFull := by
  obtain ⟨outer, houter⟩ : ∃ outer, (m.thread th).scopes.back? = some outer := by
    have hsize := hm.inside th hm.isOpen
    exact ⟨_, Array.back?_eq_getElem? ▸ Array.getElem?_eq_getElem (by omega)⟩
  unfold enterBindings
  refine Ends.bind (P := fun base m' => base = (m.thread th).stack.size ∧ m' = m) ⟨rfl, rfl⟩ ?_
  rintro _ m' ⟨rfl, rfl⟩
  by_cases hfull : (m'.thread th).stack.capacity ≤ (m'.thread th).stack.size
  · -- the error is made before anything is dropped
    have hpush : (attempt (pushAll th [v] [])).run m' = .ok (.error (.stackOverflow (m'.thread th).stack.size
        (m'.thread th).stack.capacity)) { m' with journal := .overflowed :: m'.journal } := by
      simp [attempt, pushAll, push, run_bind, run_observe, hfull]
    have hsteady : Machine.Steady b m' { m' with journal := .overflowed :: m'.journal } := ⟨hm.heap, rfl, rfl, rfl⟩
    have heven : Machine.Even th b b m' _ := hsteady.even hm.toClean
    have hm₁ := heven.sane hm
    unfold Ends
    rw [bind_ok hpush]
    refine Ends.bind (P := fun _ m₁ => m₁ = { m' with journal := .overflowed :: m'.journal }) rfl ?_
    rintro _ _ rfl
    refine Ends.andThen (P := fun _ _ => False) (F := fun f m₂ => f.IsFull ∧ (m₂.thread th).stack.beyond = 0) ?_
      (fun _ _ h => h.elim) fun f m₂ h => (ends_dropSlots_since h.2 _).mono (fun _ _ _ => h.1) fun _ _ h => h
    have hknown := ends_raiseAsError (α := Handle) (Q := fun _ _ => False) hm₁ (c := .stackOverflow (m'.thread th).stack.size
      (m'.thread th).stack.capacity) (by rintro _ ⟨⟩) (by rintro _ ⟨⟩)
    have hkind : (do raise (.object (← asError th (.stackOverflow (m'.thread th).stack.size (m'.thread th).stack.capacity))) :
        Act Handle).Ends { m' with journal := .overflowed :: m'.journal } (fun _ _ => False) fun f _ => f.IsFull :=
      Ends.bind ((ends_newError_kind .stackOverflow _ _).mono (fun _ _ h => h) fun _ _ h => .inl h) fun e _ h => .inr ⟨e, rfl, h⟩
    exact (hknown.and hkind).mono (fun _ _ h => h.1) fun f m₂ h => ⟨h.2, h.1.onward.beyond hm₁⟩
  · have hpush : (attempt (pushAll th [v] [])).run m' = .ok (.ok [.ref (m'.nextSlot th)]) (m'.pushing th v) := by
      simp [attempt, pushAll, push, run_bind, run_observe, hfull, Machine.nextSlot]
      rfl
    have hown := (Machine.becomes_onThread hm.isOpen fun t =>
      { t with stack := { t.stack with items := t.stack.items.push v } }).own
    have hbeyond : ((m'.pushing th v).thread th).stack.beyond = 0 := by
      rw [Machine.pushing, hown]
      exact hm.beyond th hm.isOpen
    have hcurrent : (currentScope th).run (m'.pushing th v) = .ok outer (m'.pushing th v) := by
      unfold currentScope Machine.pushing
      simp only [run_bind, run_get, hown, houter]
      rfl
    unfold Ends
    rw [bind_ok hpush]
    refine Ends.onFailure (F := fun f m₂ => f = .fault .exhausted ∧ (m₂.thread th).stack.beyond = 0) ?_ fun f m₂ h =>
      (ends_dropSlots_since h.2 _).mono (fun _ _ _ => .inl h.1) fun _ _ h => h
    unfold Ends
    rw [bind_ok hcurrent]
    refine Ends.bind ((ends_newTransient_one outer name _ _).mono (fun _ _ h => h) ?_) ?_
    · rintro f _ ⟨rfl, rfl⟩
      exact ⟨rfl, hbeyond⟩
    · rintro h _ ⟨rfl, rfl⟩
      exact bound_binding hm name v houter

/-! ## Handlers -/

/-- what a handler runs; without any forms it comes to the error -/
def handlerForms (ev : Evaluator) (th : ThreadId) (body : Value) (e : HeldError) : Act Value :=
  if body = .nil then pure (e.value .quiet) else evalBody ev th body

/-- from `m` on a handler has come to `r`: either its scope could not be entered, or it has run its forms, once, in a scope of
their own, where they find the error as it was. What they come to the handler comes to, an error, too; all that is left to do
is to clear up. -/
def Handles (ev : Evaluator) (th : ThreadId) (name : Handle) (body : Value) (e : HeldError) (m : Machine)
    (r : Outcome Value) : Prop :=
  let caught : Machine := { m with journal := .caught e name body :: m.journal }
  (∃ f m', (enterBindings th [name] [e.value .quiet]).run caught = .error f m' ∧ f.IsFull ∧ r = .error f m') ∨
  ∃ h m', caught.Bound th name (e.value .quiet) h m' ∧ m'.heap.slot? e.handle = m.heap.slot? e.handle ∧
    (handlerForms ev th body e).Ends m' (fun v m₁ => ∃ m₂, r = .ok v m₂ ∧ Machine.Beside th m₁ m₂)
      fun f m₁ => ∃ m₂, r = .error f m₂ ∧ Machine.Beside th m₁ m₂

/-- a handler that tries a form on `m`: results and faults pass it by; an error comes to it as an object, with everything
removed that the form has pushed, and is handled unless it is fatal -/
structure Catches (ev : Evaluator) (th : ThreadId) (name : Handle) (form body : Value) (m : Machine) : Prop where
  result : ∀ v m₁, (ev.eval form .value).run m = .ok v m₁ → (catching ev th name form body).run m = .ok v m₁
  fault : ∀ f m₁, (ev.eval form .value).run m = .error f m₁ → (∀ c, f ≠ .raised c) →
    (catching ev th name form body).run m = .error f m₁
  error : ∀ c m₁, (ev.eval form .value).run m = .error (.raised c) m₁ → ∃ e, c = .object e ∧ m₁.heap.HoldsError e ∧
    Machine.Balanced th (e.value .quiet) m m₁ ∧
    if e.kind.isFatal then (catching ev th name form body).run m = .error (.raised (.object e)) m₁
    else Handles ev th name body e m₁ ((catching ev th name form body).run m)

variable {ev : Evaluator} {name : Handle} {form body : Value} {e : HeldError}

/-- of a form that fails, what comes of the handler is what comes of handling the error -/
theorem run_catching_error {c : Cause} {m₁ : Machine} (h : (ev.eval form .value).run m = .error (.raised c) m₁) :
    (catching ev th name form body).run m = (handle ev th name body c).run m₁ :=
  bind_ok (run_attempt_raised h)

theorem handle_of_isFatal (he : e.kind.isFatal = true) :
    (handle ev th name body (.object e)).run m = .error (.raised (.object e)) m := by
  unfold handle
  rw [bind_ok (x := asError th (.object e)) rfl, if_pos he]
  rfl

/-- that an error is handled is noted first -/
theorem handle_of_not_isFatal (he : e.kind.isFatal = false) :
    (handle ev th name body (.object e)).run m = (withBindings th [name] [e.value .quiet] (handlerForms ev th body e)).run
      { m with journal := .caught e name body :: m.journal } := by
  unfold handle
  rw [bind_ok (x := asError th (.object e)) rfl, if_neg (by simp [he])]
  rfl

/-- what is cleared up after an action leaves its outcome as it is -/
theorem ends_cleared {α : Type} {x : Act α} {after : Act Unit} {P : Machine → Prop} (hx : x.Ends m (fun _ => P) fun _ => P)
    (hafter : ∀ m₁, P m₁ → after.Ends m₁ (fun _ m₂ => Machine.Beside th m₁ m₂) fun _ _ => False) :
    x.Ends m (fun v m₁ => ∃ m₂, (andThen x after).run m = .ok v m₂ ∧ Machine.Beside th m₁ m₂)
      fun f m₁ => ∃ m₂, (andThen x after).run m = .error f m₂ ∧ Machine.Beside th m₁ m₂ := by
  have hsettle (r : Except Failure α) {m₁ : Machine} (hm₁ : P m₁) (hobserve : (observe x).run m = .ok r m₁) :
      ∃ m₂, (andThen x after).run m = (settle r).run m₂ ∧ Machine.Beside th m₁ m₂ := by
    cases ha : after.run m₁ with
    | ok _ m₂ => exact ⟨m₂, (bind_ok hobserve).trans (bind_ok ha), (hafter m₁ hm₁).ok ha⟩
    | error _ _ => exact ((hafter m₁ hm₁).error ha).elim
  unfold Ends at *
  cases hr : x.run m with
  | ok v m₁ =>
    rw [hr] at hx
    exact hsettle (.ok v) hx (by rw [run_observe, hr])
  | error f m₁ =>
    rw [hr] at hx
    exact hsettle (.error f) hx (by rw [run_observe, hr])

theorem handles_handle (hev : ev.Orderly th b) (hm : m.Sane th b b) (hbody : body.IsPlain) (he : m.heap.HoldsError e)
    (hkind : e.kind.isFatal = false) : Handles ev th name body e m ((handle ev th name body (.object e)).run m) := by
  have hnoted : Machine.Steady b m { m with journal := .caught e name body :: m.journal } := ⟨hm.heap, rfl, rfl, rfl⟩
  have heven : Machine.Even th b b m _ := hnoted.even hm.toClean
  have hm₁ := heven.sane hm
  rw [handle_of_not_isFatal hkind]
  generalize hcaught : ({ m with journal := .caught e name body :: m.journal } : Machine) = m₁ at hm₁
  have hheap : m₁.heap = m.heap := by rw [← hcaught]
  have hplain : ∀ v ∈ [e.value .quiet], v.IsPlain := by rintro v hv; cases List.mem_singleton.1 hv; exact ⟨rfl, rfl⟩
  have hforms : Runs th b b Cause.IsObject (handlerForms ev th body e) Value.IsPlain := by
    unfold handlerForms
    split
    · exact .pure ⟨rfl, rfl⟩
    · exact (tracks_evalBody (.unrelated th ev) hev hbody).1
  have hentered := (ends_enterBindings_one hm₁ name (e.value .quiet)).and (ends_enterBindings hm₁ [name] hplain)
  unfold Handles
  simp only [hcaught]
  unfold withBindings
  cases hr : (enterBindings th [name] [e.value .quiet]).run m₁ with
  | error f m₂ => exact .inl ⟨f, m₂, rfl, (hentered.error hr).1, bind_error hr⟩
  | ok h m₂ =>
    obtain ⟨hbound, hw, hq, hheight⟩ := hentered.ok hr
    have hm₂ := hw.sane hq hm₁ (by simp)
    have hkept : m₂.heap.slot? e.handle = m.heap.slot? e.handle := by
      obtain ⟨s, _, hs, -⟩ := he
      rw [← hheap]
      refine hbound.cells _ fun heq => ?_
      have hfresh := hbound.fresh
      rw [← heq, hheap, hs] at hfresh
      cases hfresh
    refine .inr ⟨h, m₂, hbound, hkept, ?_⟩
    rw [bind_ok hr]
    refine ends_cleared (P := fun m₃ => Machine.Within th b b h ((m₁.thread th).scopes.push h) m₁ m₃ ∧
      (m₁.thread th).height + 1 ≤ (m₃.thread th).height) ((hforms m₂ hm₂).mono (fun v m₃ h₃ => ?_) fun f m₃ h₃ => ?_)
      fun m₃ h₃ => (ends_leaveBindings hm₁ h₃.1 h₃.2).mono (fun _ _ h => h.2.2) fun _ _ h => h
    · exact ⟨hw.trans h₃.1.toOnward, hheight ▸ h₃.1.height⟩
    · exact ⟨hw.trans h₃.onward, hheight ▸ h₃.onward.height⟩

theorem catches (hev : ev.Orderly th b) (hm : m.Sane th b b) (hbalances : (ev.eval form .value).Balances th m)
    (name : Handle) (hbody : body.IsPlain) : Catches ev th name form body m where
  result v m₁ h := bind_ok (run_attempt_ok h)
  fault f m₁ h hf := bind_error (run_attempt_error hf h)
  error c m₁ h := by
    have hfailed := (hev.value form m hm).error h
    obtain ⟨e, rfl, hbalanced⟩ := hbalances.error h c rfl
    have hholds := (hfailed.secure e rfl).holds
    refine ⟨e, rfl, hholds, hbalanced, ?_⟩
    rw [run_catching_error h]
    split
    · rename_i hkind
      exact handle_of_isFatal hkind
    · rename_i hkind
      exact handles_handle hev (hfailed.onward.sane (hfailed.quietly _ rfl) hm) hbody hholds (Bool.eq_false_iff.2 hkind)

end Act

/-! ## Inside one operation -/

/-- the evaluation of `v` starts on the machine `m` with so much fuel, while one form is evaluated for a host on `m₀` -/
inductive Inside (th : ThreadId) (n : Nat) (form : Value) (m₀ : Machine) : Nat → Value → Mode → Machine → Prop
  | form {v : Value} {mode : Mode} {m : Machine} :
      (Act.evalTopLevelBy ((evaluator n th).watched v mode m) th form).IsStopped m₀ → Inside th n form m₀ n v mode m
  | inside {fuel : Nat} {v v₁ : Value} {mode mode₁ : Mode} {m m₁ : Machine} :
      Inside th n form m₀ (fuel + 1) v₁ mode₁ m₁ →
      (Act.evaluate ((evaluator fuel th).watched v mode m) th v₁ mode₁).IsStopped m₁ → Inside th n form m₀ fuel v mode m

/-- the operation ends in the error, and since `m` nothing has been done but clearing up and collecting -/
def Escapes (th : ThreadId) (n : Nat) (form : Value) (m₀ : Machine) (e : HeldError) (m : Machine) : Prop :=
  ∃ m', (Act.evalTopLevel n th form).run m₀ = .error (.raised (.object e)) m' ∧ m.Since m' ∧ m'.heap.HoldsError e

/-- a handler has caught the error that there was at `m`: on `m₁` it has tried the form `v`, which has failed with the error,
and at that time, `m₂`, nothing has been done since `m` but clearing up and collecting; it handles the error from there, with
all that the form has pushed removed, and that is part of the operation -/
structure CaughtBy (th : ThreadId) (n : Nat) (form : Value) (m₀ : Machine) (e : HeldError) (m : Machine) (fuel : Nat)
    (v : Value) (name : Handle) (body : Value) (m₁ m₂ : Machine) : Prop where
  inside : Inside th n form m₀ fuel v .value m₁
  fails : (eval th fuel v .value).run m₁ = .error (.raised (.object e)) m₂
  since : m.Since m₂
  balanced : Machine.Balanced th (e.value .quiet) m₁ m₂
  handles : Act.Handles (evaluator fuel th) th name body e m₂ ((Act.catching (evaluator fuel th) th name v body).run m₁)
  noted : (.caught e name body :: m₂.journal) <:+
    (Outcome.machine ((Act.catching (evaluator fuel th) th name v body).run m₁)).journal
  part : (Outcome.machine ((Act.catching (evaluator fuel th) th name v body).run m₁)).journal <:+
    (Outcome.machine ((Act.evalTopLevel n th form).run m₀)).journal

/-- some handler has caught the error that there was at `m` -/
def IsCaught (th : ThreadId) (n : Nat) (form : Value) (m₀ : Machine) (e : HeldError) (m : Machine) : Prop :=
  ∃ fuel v name body m₁ m₂, CaughtBy th n form m₀ e m fuel v name body m₁ m₂

/-- a handler form that is evaluated on `m`, as part of an operation: on `m₂` its form is tried, and an error that comes out of
that and is not fatal is caught -/
structure Protects (th : ThreadId) (n : Nat) (form : Value) (m₀ : Machine) (fuel : Nat) (h : Handle) (v : Value) (name : Handle)
    (forms : List Value) (mode : Mode) (m m₁ : Machine) (body : Value) (m₂ : Machine) : Prop
    extends Act.Tries (evaluator fuel th) th h v name forms mode m m₁ body m₂ where
  inside : Inside th n form m₀ fuel v .value m₂
  catches : Act.Catches (evaluator fuel th) th name v body m₂
  caught : ∀ e m₃, (eval th fuel v .value).run m₂ = .error (.raised (.object e)) m₃ → e.kind.isFatal = false →
    CaughtBy th n form m₀ e m₃ fuel v name body m₂ m₃

section Inside

variable {th : ThreadId} {n fuel : Nat} {form v : Value} {mode : Mode} {m m₀ m₁ : Machine} {e : HeldError}

theorem Inside.reached (h : Inside th n form m₀ fuel v mode m) (hm : m₀.Settled) (ho : (m₀.thread th).isOpen = true)
    (hform : form.IsPlain) : Reached th fuel v mode m := by
  induction h with
  | form hstopped => exact .form hm ho hform hstopped
  | inside _ hstopped ih => exact .inside ih hstopped

theorem Escapes.since (h : Escapes th n form m₀ e m₁) (hs : m.Since m₁) : Escapes th n form m₀ e m := by
  obtain ⟨m', hr, hsince, hholds⟩ := h
  exact ⟨m', hr, hs.trans hsince, hholds⟩

theorem IsCaught.since (h : IsCaught th n form m₀ e m₁) (hs : m.Since m₁) : IsCaught th n form m₀ e m := by
  obtain ⟨fuel, v, name, body, m₂, m₃, hcaught⟩ := h
  exact ⟨fuel, v, name, body, m₂, m₃, { hcaught with since := hs.trans hcaught.since }⟩

/-- an error that escapes has been caught by no one -/
theorem Escapes.not_isCaught (h : Escapes th n form m₀ e m) : ¬ IsCaught th n form m₀ e m := by
  rintro ⟨fuel, v, name, body, m₁, m₂, hcaught⟩
  obtain ⟨m', hr, hsince, -⟩ := h
  obtain ⟨passes, hpasses⟩ := hsince.journal
  obtain ⟨passes', hpasses'⟩ := hcaught.since.journal
  obtain ⟨later, hlater⟩ := hcaught.noted.trans hcaught.part
  rw [hr] at hlater
  have hlater : later ++ .caught e name body :: m₂.journal = m'.journal := hlater
  rw [hpasses, hpasses', ← List.cons_append, ← List.append_assoc] at hlater
  have hmem : Event.caught e name body ∈ passes.map Event.passed := by
    rw [← List.append_cancel_right hlater]
    simp
  simp at hmem

variable (hm : m₀.Settled) (ho : (m₀.thread th).isOpen = true) (hform : form.IsPlain)
include hm ho hform

theorem Inside.catches (h : Inside th n form m₀ fuel v mode m) (name : Handle) {body : Value} (hbody : body.IsPlain) :
    Act.Catches (evaluator fuel th) th name v body m :=
  have hsane := (h.reached hm ho hform).sane.1
  Act.catches (Act.orderly_eval th 2 fuel fuel) hsane (Act.balances_eval hsane fuel v .value (by simp)).1 name hbody

/-- an error that is not fatal and comes out of the form that a handler tries is caught by that handler -/
theorem Inside.caughtBy (h : Inside th n form m₀ fuel v .value m) (hr : (eval th fuel v .value).run m = .error (.raised (.object e)) m₁)
    (hkind : e.kind.isFatal = false) {name : Handle} {body : Value} (hbody : body.IsPlain)
    (hpart : (Outcome.machine ((Act.catching (evaluator fuel th) th name v body).run m)).journal <:+
      (Outcome.machine ((Act.evalTopLevel n th form).run m₀)).journal) :
    CaughtBy th n form m₀ e m₁ fuel v name body m m₁ := by
  obtain ⟨_, ⟨⟩, -, hbalanced, hhandles⟩ := (h.catches hm ho hform name hbody).error _ m₁ hr
  rw [if_neg (by simp [hkind])] at hhandles
  have hnoted : (.caught e name body :: m₁.journal) <:+
      (Outcome.machine ((Act.catching (evaluator fuel th) th name v body).run m)).journal := by
    rw [Act.run_catching_error hr, Act.handle_of_not_isFatal hkind]
    exact (Act.withBindings th [name] [e.value .quiet] (Act.handlerForms _ th body e)).grows
      { m₁ with journal := .caught e name body :: m₁.journal }
  exact ⟨h, hr, .refl m₁, hbalanced, hhandles, hnoted, hpart⟩

/-- an error that is not fatal and comes to a handler that is part of the operation has been caught -/
theorem Inside.isCaught (h : Inside th n form m₀ fuel v mode m) {f : Failure}
    (hr : (eval th fuel v mode).run m = .error f m₁) (he : f.Names e) (hkind : e.kind.isFatal = false)
    (htried : Watch.Tried ⟨evaluator fuel th, th, v, mode, m⟩ (Outcome.machine ((Act.evalTopLevel n th form).run m₀))) :
    IsCaught th n form m₀ e m₁ := by
  obtain ⟨hmode, name, body, hbody, hpart⟩ := htried
  obtain rfl : mode = .value := hmode
  have hf : f = .raised (.object e) := he.resolve_right fun ⟨_, hfull⟩ => by rw [hfull] at hkind; cases hkind
  rw [hf] at hr
  exact ⟨fuel, v, name, body, m, m₁, h.caughtBy hm ho hform hr hkind hbody hpart⟩

/-- whatever fails inside an operation is part of it, and its error escapes or is caught -/
theorem Inside.error (h : Inside th n form m₀ fuel v mode m) :
    (Outcome.machine ((eval th fuel v mode).run m)).journal <:+ (Outcome.machine ((Act.evalTopLevel n th form).run m₀)).journal ∧
    ∀ f m₁ e, (eval th fuel v mode).run m = .error f m₁ → f.Names e →
      Escapes th n form m₀ e m₁ ∨ e.kind.isFatal = false ∧ IsCaught th n form m₀ e m₁ := by
  have hreached := h.reached hm ho hform
  induction h with
  | @form v mode m hstopped =>
    have hends := Act.ends_evalTopLevelBy (Act.orderly_eval th 2 n n) (hm.idle.sane ho) (hm.idle.empty th ho) hform
    have honto : Watch.Onto ⟨evaluator n th, th, v, mode, m⟩ (Act.evalTopLevelBy (evaluator n th) th form) m₀ :=
      (Watch.follows_evalTopLevelBy (w := ⟨evaluator n th, th, v, mode, m⟩) (Act.orderly_eval th 2 n n) (hm.idle.sane ho)
        (hm.idle.empty th ho) hform).onto hstopped (hends.not_isStopped fun _ _ h => h.1.toIsKnown)
    refine ⟨honto.after, fun f m₁ e hr he => ?_⟩
    rcases honto.lands f m₁ e hr he with ⟨f', m', hr', hnames, hsince⟩ | ⟨hkind, htried⟩
    · left
      have hf : f' = .raised (.object e) := hnames.resolve_right fun ⟨hfull, _⟩ => (hends.error hr').2.2 hfull
      subst hf
      exact ⟨m', hr', hsince, ((hends.error hr').1.secure e rfl).holds⟩
    · exact .inr ⟨hkind, (Inside.form hstopped).isCaught hm ho hform hr he hkind htried⟩
  | @inside fuel v v₁ mode mode₁ m m₁ h hstopped ih =>
    have houter := h.reached hm ho hform
    obtain ⟨hafter, herror⟩ := ih houter
    have hends := Act.ends_evaluate (Act.orderly_eval th 2 fuel fuel) houter.sane.1 v₁ mode₁ houter.sane.2
    have honto : Watch.Onto ⟨evaluator fuel th, th, v, mode, m⟩ (Act.evaluate (evaluator fuel th) th v₁ mode₁) m₁ :=
      (Watch.follows_evaluate (w := ⟨evaluator fuel th, th, v, mode, m⟩) (Act.orderly_eval th 2 fuel fuel) houter.sane.1 v₁
        mode₁ houter.sane.2).onto hstopped (hends.not_isStopped fun _ _ h => h.1.toIsKnown)
    refine ⟨honto.after.trans hafter, fun f m₂ e hr he => ?_⟩
    rcases honto.lands f m₂ e hr he with ⟨f', m', hr', hnames, hsince⟩ | ⟨hkind, htried⟩
    · rcases herror f' m' e hr' hnames with hescapes | ⟨hkind, hcaught⟩
      · exact .inl (hescapes.since hsince)
      · exact .inr ⟨hkind, hcaught.since hsince⟩
    · exact .inr ⟨hkind, (Inside.inside h hstopped).isCaught hm ho hform hr he hkind (htried.mono hafter)⟩

/-- a handler form that is part of an operation catches the errors of its form, unless there is no room to try it -/
theorem Inside.protects {h : Handle} {w : Value} {name : Handle} {forms : List Value} {f : Function}
    (hin : Inside th n form m₀ (fuel + 1) (.cons h) mode m) (hhandler : HandlerForm (evaluator fuel th) th h w name forms f m m₁) :
    ((¬ m.Nests th ∨ ¬ m₁.HasRoom th 3 ∨ m₁.heap.Lacks forms.length) ∧
      ∃ f' m', (eval th (fuel + 1) (.cons h) mode).run m = .error f' m' ∧ f'.IsFatal) ∨
    ∃ body m₂, Protects th n form m₀ fuel h w name forms mode m m₁ body m₂ := by
  have hsane := (hin.reached hm ho hform).sane.1
  refine (Act.tries_of_handlerForm (Act.orderly_eval th 2 fuel fuel) hsane hhandler mode).imp id ?_
  rintro ⟨body, m₂, htries⟩
  have htried : Inside th n form m₀ fuel w .value m₂ := .inside hin htries.starts
  exact ⟨body, m₂, htries, htried, htried.catches hm ho hform name htries.rest.1, fun e m₃ hr hkind =>
    htried.caughtBy hm ho hform hr hkind htries.rest.1 (htries.part.trans (hin.error hm ho hform).1)⟩

end Inside

/-- **Fatal errors are never caught, and all others are caught once.** While a form is evaluated for a host, an evaluation
inside may fail, to whatever depth. If it overflows a limit or finds the heap full, nothing else runs and the operation ends in
that very error. Any other error is caught by the next handler, if there is one, and the operation ends in it if there is none;
on the way to either nothing else runs. A handler whose form fails with such an error finds its stack and its scopes as
they were and runs its forms once, in a fresh scope over its own in which its symbol is bound to the error, unless that scope
cannot be entered; it does not handle what becomes of its forms. Handlers come from handler forms: whatever evaluates to a
function that catches errors, with a form, a symbol and other forms behind it, is such a handler, in the scopes that the
evaluation of the whole started in, unless its frame finds no room, which is a failure that nothing handles. -/
theorem Machine.Settled.errors_caught {m₀ : Machine} (hm : m₀.Settled) {th : ThreadId} (ho : (m₀.thread th).isOpen = true)
    (n : Nat) {form : Value} (hform : form.IsPlain) {fuel : Nat} {v : Value} {mode : Mode} {m : Machine}
    (h : Inside th n form m₀ fuel v mode m) :
    (∀ f m₁ e, (eval th fuel v mode).run m = .error f m₁ → f.Names e →
      (e.kind.isFatal = true → Escapes th n form m₀ e m₁) ∧
      (e.kind.isFatal = false → Escapes th n form m₀ e m₁ ∨ IsCaught th n form m₀ e m₁) ∧
      ¬ (Escapes th n form m₀ e m₁ ∧ IsCaught th n form m₀ e m₁)) ∧
    (∀ name body, body.IsPlain → Act.Catches (evaluator fuel th) th name v body m) ∧
    ∀ k c w name forms f m₁, fuel = k + 1 → v = .cons c → HandlerForm (evaluator k th) th c w name forms f m m₁ →
      ((¬ m.Nests th ∨ ¬ m₁.HasRoom th 3 ∨ m₁.heap.Lacks forms.length) ∧
        ∃ f' m', (eval th fuel v mode).run m = .error f' m' ∧ f'.IsFatal) ∨
      ∃ body m₂, Protects th n form m₀ k c w name forms mode m m₁ body m₂ := by
  refine ⟨fun f m₁ e hr he => ?_, fun name body hbody => h.catches hm ho hform name hbody, ?_⟩
  · have hno : ¬ (Escapes th n form m₀ e m₁ ∧ IsCaught th n form m₀ e m₁) := fun both => both.1.not_isCaught both.2
    rcases (h.error hm ho hform).2 f m₁ e hr he with hescapes | ⟨hkind, hcaught⟩
    · exact ⟨fun _ => hescapes, fun _ => .inl hescapes, hno⟩
    · exact ⟨fun hfatal => absurd (hfatal.symm.trans hkind) (by simp), fun _ => .inr hcaught, hno⟩
  · rintro k c w name forms f m₁ rfl rfl hhandler
    exact h.protects hm ho hform hhandler

/-- `(catch-error (catch-error x e y) e 2)`, where `x` and `y` are bound to nothing -/
def Source.Form.nested : Source.Form := .list [.atom "catch-error", .failing, .atom "e", .atom "2"]

namespace Machine

/-- the machine on which that form has been read -/
def nestedRead : Machine := Outcome.machine ((Act.buildReading 1 (.form .nested (.ofRunes []))).run equipped)

/-- the same with a second thread, on whose stack only seven slots fit -/
def nested : Machine := Outcome.machine ((Act.openThread 7).run nestedRead)

/-- the function that the heads of both handler forms evaluate to -/
def catcher : Function :=
  { name := some 141, params := { required := [134, 135], rest := some 136, source := .cons 140 }, body := .primitive .catchError true }

/-- the machine with the form in a frame of its own -/
def nestedFrame (th : ThreadId) : Machine :=
  Outcome.machine ((Act.withErrorObjects th (Act.onStack th (·.makeFrame [.cons 215]))).run nested)

/-- the machine on which its evaluation starts -/
def nestedStart (th : ThreadId) : Machine :=
  Outcome.machine ((Act.derefPinned th (.ref (.stack ((nestedFrame th).thread th).stack.id 0))).run (nestedFrame th))

/-- the machine on which the outer handler tries its form -/
def outerTried (th : ThreadId) : Machine :=
  Outcome.machine ((Act.pushArgs th true catcher.params [.cons 211, .symbol 206, .int 2]).run ((nestedStart th).pastHead 4 th 215))

/-- the machine on which the inner handler tries its form -/
def innerTried (th : ThreadId) : Machine :=
  Outcome.machine ((Act.pushArgs th true catcher.params [.symbol 4, .symbol 206, .symbol 207]).run ((outerTried th).pastHead 3 th 211))

/-- On both threads the outer handler comes to try the inner form. On the first the inner handler tries `x` and fails with `y`, and
the outer handler catches that; on the second there is no room for the inner handler. -/
theorem runs_nested : ((Act.buildReading 1 (.form .nested (.ofRunes []))).run equipped).gives (some (.cons 215)) = true ∧
    ((Act.openThread 7).run nestedRead).gives 2 = true ∧
    (∀ th ∈ [1, 2], (nested.thread th).isOpen = true ∧
      ((Act.withErrorObjects th (Act.onStack th (·.makeFrame [.cons 215]))).run nested).gives () = true ∧
      ((Act.derefPinned th (.ref (.stack ((nestedFrame th).thread th).stack.id 0))).run (nestedFrame th)).gives (.cons 215) = true ∧
      (nestedStart th).Nests th ∧ (nestedStart th).holdsFor 4 th 215 catcher (.cons 211) 206 [.int 2] = true ∧
      ((Act.pushArgs th true catcher.params [.cons 211, .symbol 206, .int 2]).run ((nestedStart th).pastHead 4 th 215)).gives () = true ∧
      (outerTried th).Nests th ∧ (outerTried th).holdsFor 3 th 211 catcher (.symbol 4) 206 [.symbol 207] = true) ∧
    ((Act.pushArgs 1 true catcher.params [.symbol 4, .symbol 206, .symbol 207]).run ((outerTried 1).pastHead 3 1 211)).gives () = true ∧
    ((eval 1 3 (.symbol 4) .value).run (innerTried 1)).errorKind? = some .unboundSymbol ∧
    ((eval 1 4 (.cons 211) .value).run (outerTried 1)).errorKind? = some .unboundSymbol ∧
    ((Act.evalTopLevel 5 1 (.cons 215)).run nested).gives (.int 2) = true ∧
    ((eval 2 4 (.cons 211) .value).run (outerTried 2)).errorKind? = some .stackOverflow := by decide +kernel

theorem settled_nested : nested.Settled := by
  obtain ⟨hequipped, ho⟩ := settled_equipped
  obtain ⟨hread, hopen, -⟩ := runs_nested
  have hnested : nestedRead.Settled :=
    .step (.read 1 (.form .nested (.ofRunes []))) hequipped ho (.inl ⟨(), Act.bind_ok (Outcome.eq_ok_of_gives hread)⟩)
  exact .step (.openThread 7) hnested trivial (.inl ⟨(), Act.bind_ok (Outcome.eq_ok_of_gives hopen)⟩)

theorem isHandler_catcher : catcher.IsHandler := ⟨rfl, rfl, rfl, rfl, rfl⟩

/-- the inner form is tried by the outer handler -/
theorem inside_nested (th : ThreadId) (hth : th ∈ [1, 2]) : Inside th 5 (.cons 215) nested 5 (.cons 215) .value (nestedStart th) ∧
    Inside th 5 (.cons 215) nested 4 (.cons 211) .value (outerTried th) ∧
    HandlerForm (evaluator 3 th) th 211 (.symbol 4) 206 [.symbol 207] catcher (outerTried th) ((outerTried th).pastHead 3 th 211) := by
  obtain ⟨-, -, hthreads, -⟩ := runs_nested
  obtain ⟨ho, hframe, hstart, hnests, houter, hlaid, -, hinner⟩ := hthreads th hth
  have hidle := settled_nested.idle
  have hform : (Value.cons 215).IsPlain := ⟨rfl, rfl⟩
  have hframed : (Act.withErrorObjects th (Act.onStack th (·.makeFrame [.cons 215]))).run nested = .ok () (nestedFrame th) :=
    Outcome.eq_ok_of_gives hframe
  have hstarts : (Act.derefPinned th (.ref (.stack ((nestedFrame th).thread th).stack.id 0))).run (nestedFrame th) =
      .ok (.cons 215) (nestedStart th) := Outcome.eq_ok_of_gives hstart
  have hstarted : Inside th 5 (.cons 215) nested 5 (.cons 215) .value (nestedStart th) :=
    .form (Act.isStopped_evalTopLevelBy (hidle.sane ho) (hidle.empty th ho) hform hframed hstarts _)
  have hev : (evaluator 4 th).Orderly th 2 := Act.orderly_eval th 2 4 4
  have hpushed : (Act.pushArgs th true catcher.params [.cons 211, .symbol 206, .int 2]).run ((nestedStart th).pastHead 4 th 215) =
      .ok () (outerTried th) := Outcome.eq_ok_of_gives hlaid
  have hsane := (hstarted.reached settled_nested ho hform).sane.1
  obtain ⟨body, htries⟩ : ∃ body, Act.Tries (evaluator 4 th) th 215 (.cons 211) 206 [.int 2] .value (nestedStart th)
      ((nestedStart th).pastHead 4 th 215) body (outerTried th) :=
    Act.exists_tries hev hsane (handlerForm_of_holdsFor isHandler_catcher houter) .value hnests hpushed
  exact ⟨hstarted, .inside hstarted htries.starts, handlerForm_of_holdsFor isHandler_catcher hinner⟩

/-- on the first thread the inner handler protects its form, whose error is caught, and the outer one catches that of the handling;
on the second an overflow goes past the outer handler -/
theorem errors_caught_nested :
    (∃ body m, Protects 1 5 (.cons 215) nested 3 211 (.symbol 4) 206 [.symbol 207] .value (outerTried 1)
      ((outerTried 1).pastHead 3 1 211) body m) ∧
    (∃ e m, (eval 1 3 (.symbol 4) .value).run (innerTried 1) = .error (.raised (.object e)) m ∧ e.kind = .unboundSymbol ∧
      IsCaught 1 5 (.cons 215) nested e m) ∧
    (∃ e m, (eval 1 4 (.cons 211) .value).run (outerTried 1) = .error (.raised (.object e)) m ∧ e.kind = .unboundSymbol ∧
      IsCaught 1 5 (.cons 215) nested e m) ∧
    (∃ m, (Act.evalTopLevel 5 1 (.cons 215)).run nested = .ok (.int 2) m) ∧
    ∃ e m, (eval 2 4 (.cons 211) .value).run (outerTried 2) = .error (.raised (.object e)) m ∧ e.kind = .stackOverflow ∧
      Escapes 2 5 (.cons 215) nested e m := by
  obtain ⟨-, -, hthreads, hlaid, hx, hy, hend, hfull⟩ := runs_nested
  obtain ⟨e₁, m₁, hx, hkind₁⟩ := Outcome.exists_of_errorKind? hx
  obtain ⟨e₂, m₂, hy, hkind₂⟩ := Outcome.exists_of_errorKind? hy
  obtain ⟨e₃, m₃, hfull, hkind₃⟩ := Outcome.exists_of_errorKind? hfull
  have hend := Outcome.eq_ok_of_gives hend
  have hform : (Value.cons 215).IsPlain := ⟨rfl, rfl⟩
  obtain ⟨ho, -, -, -, -, -, hnests, -⟩ := hthreads 1 (by simp)
  obtain ⟨-, hinner, hhandler⟩ := inside_nested 1 (by simp)
  have hx' : Inside 1 5 (.cons 215) nested 3 (.symbol 4) .value (innerTried 1) := by
    obtain ⟨body, htries⟩ := Act.exists_tries (Act.orderly_eval 1 2 3 3) (hinner.reached settled_nested ho hform).sane.1 hhandler
      .value hnests (Outcome.eq_ok_of_gives hlaid)
    exact .inside hinner htries.starts
  have hescapes {e : HeldError} {m : Machine} : ¬ Escapes 1 5 (.cons 215) nested e m := by
    rintro ⟨m', hr, -⟩
    rw [hend] at hr
    cases hr
  have h := settled_nested.errors_caught ho 5 hform hinner
  have h' := settled_nested.errors_caught ho 5 hform hx'
  refine ⟨(h.2.2 3 211 _ _ _ _ _ rfl rfl hhandler).resolve_left ?_, ⟨e₁, m₁, hx, hkind₁, ?_⟩, ⟨e₂, m₂, hy, hkind₂, ?_⟩, ⟨_, hend⟩,
    e₃, m₃, hfull, hkind₃, ?_⟩
  · rintro ⟨-, f, m, hr, e, he, hfatal⟩
    rw [hy] at hr
    cases hr
    obtain ⟨⟨⟩⟩ | ⟨⟨⟩, -⟩ := he
    rw [hkind₂] at hfatal
    cases hfatal
  · exact ((h'.1 _ m₁ e₁ hx (.inl rfl)).2.1 (by rw [hkind₁]; rfl)).resolve_left hescapes
  · exact ((h.1 _ m₂ e₂ hy (.inl rfl)).2.1 (by rw [hkind₂]; rfl)).resolve_left hescapes
  · obtain ⟨ho, -⟩ := hthreads 2 (by simp)
    obtain ⟨-, hinner, -⟩ := inside_nested 2 (by simp)
    exact ((settled_nested.errors_caught ho 5 hform hinner).1 _ m₃ e₃ hfull (.inl rfl)).1 (by rw [hkind₃]; rfl)

end Machine

end LispMachine
