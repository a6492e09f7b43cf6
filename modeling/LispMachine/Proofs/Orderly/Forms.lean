/-
Whole forms.

A form is evaluated on its own through a frame of two slots: the form and the count. Nothing below slot 2 is touched by what
runs above it, so the frame is still there when the form has been evaluated, and its value takes the place of the frame. An
error takes that place as an unwinding error object, which is pinned once when it is popped: these are the only moments at
which a slot or a pin holds one.
-/
import LispMachine.Proofs.Orderly.Evaluate

namespace LispMachine.Act

variable {th : ThreadId} {b k : Nat} {C : Cause → Prop} {m m' : Machine}

/-! ## With any evaluator -/

/-- `evalFromStack` with an evaluator that is given -/
def evalFromStackBy (ev : Evaluator) (th : ThreadId) : Act Unit := do
  match ← attempt (argReference th 0) with
  | .error c =>
    let e ← asError th c
    onStack th (·.closeFrameWith (e.value .signaling))
  | .ok ref =>
    let form ← derefPinned th ref
    let v ← match ← attempt (ev.eval form .value) with
      | .ok v => pure v
      | .error c => do pure ((← asError th c).value .signaling)
    onStack th (·.closeFrameWith v)

/-- `evalTopLevel` with an evaluator that is given -/
def evalTopLevelBy (ev : Evaluator) (th : ThreadId) (form : Value) : Act Value :=
  guarded th do
    withErrorObjects th (onStack th (·.makeFrame [form]))
    withErrorObjects th (evalFromStackBy ev th)
    let r ← attempt (pop th)
    let _ ← maybeCollect
    match r with
    | .error c => raise (.object (← asError th c))
    | .ok v => unlessSignaling v

/-! ## The frame of a form -/

theorem ends_withErrorObjects {α : Type} {x : Act α} {P : α → Machine → Prop} (hm : m.Sane th b k)
    (hx : x.Ends m' P (Machine.Failed th b k Cause.IsFine m)) :
    (withErrorObjects th x).Ends m' P (Machine.Failed th b k Cause.IsObject m) := by
  unfold withErrorObjects
  refine hx.attempting (fun _ _ h => h) (fun c m₁ h => ?_) fun e m₁ he h => h.unraised he
  have heven : Machine.Even th b k m m₁ := ⟨h.onward, h.quietly c rfl, h.level c rfl⟩
  have hsecure (o : HeldError) (ho : c = .object o) : m₁.Secure th o := h.secure o (by rw [ho])
  exact (ends_raiseAsError (heven.sane hm) (h.cause c rfl) hsecure).mono (fun _ _ h => h) fun e m₂ h => h.after heven

/-- the frame of a form, alone on the stack -/
structure Framed (th : ThreadId) (form : Value) (m m' : Machine) : Prop extends Machine.Grown th 2 0 2 m m' where
  items : (m'.thread th).stack.items = #[form, .uint 1]
  room : 2 ≤ (m'.thread th).stack.capacity

theorem run_readStack {α : Type} {f : Stack → Except StackError α} {a : α} (h : f (m.thread th).stack = .ok a) :
    (readStack th f).run m = .ok a m := by
  have hstack : (stackOf th).run m = .ok (m.thread th).stack m := rfl
  unfold readStack
  rw [bind_ok hstack]
  simp only [h]
  rfl

theorem run_onStack {f : Stack → Except StackError Stack} {s : Stack} (h : f (m.thread th).stack = .ok s) :
    (onStack th f).run m = .ok () (m.onThread th fun t => { t with stack := s }) :=
  bind_ok (run_readStack h)

theorem ends_makeFrame (hm : m.Sane th 2 0) (hempty : (m.thread th).height = 0) {form : Value} (hform : form.IsPlain) :
    (onStack th (·.makeFrame [form])).Ends m (fun _ m' => Framed th form m m')
      (Machine.Failed th 2 0 Cause.IsFine m) := by
  have hsize : (m.thread th).stack.size = 0 := hm.size.trans hempty
  have hitems : (m.thread th).stack.items = #[] := Array.eq_empty_of_size_eq_zero hempty
  by_cases hroom : (m.thread th).stack.capacity < 2
  · have hframe : (m.thread th).stack.makeFrame [form] = .error (m.thread th).stack.overflow := by
      simp [Stack.makeFrame, hsize, hroom]
    unfold onStack readStack stackOf
    refine Ends.bind (P := fun _ _ => False) (Ends.bind (P := fun s m' => s = (m.thread th).stack ∧ m' = m) ⟨rfl, rfl⟩ ?_)
      fun _ _ h => h.elim
    rintro s m' ⟨rfl, rfl⟩
    simp only [hframe, Stack.overflow, stackFailure]
    have hnote : Runs th 2 0 Cause.IsFine (do
        note .overflowed
        raise (.stackOverflow (m'.thread th).stack.size (m'.thread th).stack.capacity) : Act Stack) fun _ => False :=
      (Still.note _).runs.bind fun _ _ => .raise (by rintro _ ⟨⟩) (by simp)
    exact (hnote m' hm).mono (fun _ _ h => h.2) fun _ _ h => h
  · have hframe : (m.thread th).stack.makeFrame [form] = .ok { (m.thread th).stack with items := #[form, .uint 1] } := by
      simp [Stack.makeFrame, hsize, hroom, hitems]
    have hb := Machine.becomes_onThread hm.isOpen fun t =>
      { t with stack := { (m.thread th).stack with items := #[form, .uint 1] } }
    unfold Ends
    rw [run_onStack hframe]
    refine ⟨⟨(Machine.Onward.refl hm.toClean).becomes hb (fun _ => rfl) (fun v hv => ?_)
      ⟨rfl, by rw [hempty]; exact Nat.zero_le _, by simp, List.prefix_rfl⟩, .of_eq (by rw [hb.own]), ?_⟩, by rw [hb.own], ?_⟩
    · rcases List.mem_cons.1 (Array.mem_toList_iff.2 hv) with rfl | hv
      · exact hform
      · cases List.mem_singleton.1 hv; exact ⟨rfl, rfl⟩
    · rw [hb.own, hempty]; rfl
    · rw [hb.own]; exact Nat.not_lt.1 hroom

/-- a value, or an error that is unwinding, whose object is there -/
def IsAnswer (m : Machine) (v : Value) : Prop := v.IsPlain ∨ ∃ e : HeldError, v = e.value .signaling ∧ m.heap.HoldsError e

/-- what `evalFromStackBy` leaves: the value, or the unwinding error, in place of the frame -/
structure Answered (th : ThreadId) (v : Value) (m m' : Machine) : Prop where
  answer : IsAnswer m' v
  base : ∃ m₀, Machine.Onward th 2 0 m m₀ ∧ Machine.Quietly th m m₀ ∧
    Machine.Becomes th { m₀.thread th with stack := { (m₀.thread th).stack with items := #[v] } } m₀ m' ∧
    ∀ x, m'.useCount x = m₀.useCount x

section

variable {m₁ : Machine} {form : Value} (hm : m.Sane th 2 0) (hf : Framed th form m m₁)
include hm hf

theorem ends_closeFrameWith (heven : Machine.Even th 2 2 m₁ m') {v : Value} (hv : IsAnswer m' v)
    {E : Failure → Machine → Prop} :
    (onStack th (·.closeFrameWith v)).Ends m' (fun _ m'' => Answered th v m m'') E := by
  have hon := hf.toOnward.trans (heven.toOnward.lower (Nat.zero_le 2))
  have hitems : (m'.thread th).stack.items = #[form, .uint 1] := by
    rw [← hf.items]
    refine Array.ext_getElem? fun i => ?_
    by_cases hi : i < 2
    · exact heven.own.low i hi
    · have hlevel : (m'.thread th).stack.items.size = (m₁.thread th).stack.items.size := heven.level
      have hsize : (m₁.thread th).stack.items.size = 2 := by rw [hf.items]; rfl
      rw [Array.getElem?_eq_none (by omega), Array.getElem?_eq_none (by omega)]
  have hroom : 2 ≤ (m'.thread th).stack.capacity := by
    have hsame : (m'.thread th).stack.capacity = (m₁.thread th).stack.capacity :=
      congrArg Thread.Shape.capacity heven.own.shape
    rw [hsame]
    exact hf.room
  have hclose : (m'.thread th).stack.closeFrameWith v = .ok { (m'.thread th).stack with items := #[v] } := by
    have hbeyond := hon.beyond hm
    have hcapacity : ¬ (m'.thread th).stack.capacity = 0 := by omega
    simp only [Stack.closeFrameWith, Stack.closeFrame, Stack.frameCount, Stack.size, hitems, hbeyond]
    simp [Stack.drop, Stack.push, Stack.size, hitems, hbeyond, hcapacity]
  unfold Ends
  rw [run_onStack hclose]
  have hb := Machine.becomes_onThread (hon.isOpen hm) fun t => { t with stack := { (m'.thread th).stack with items := #[v] } }
  exact ⟨hv, m', hon, hf.quietly.trans heven.quietly, hb, fun _ => rfl⟩

/-- the form is the first argument of its frame -/
theorem run_argReference :
    (attempt (argReference th 0)).run m₁ = .ok (.ok (.ref (.stack (m₁.thread th).stack.id 0))) m₁ := by
  have hsane := hf.sane hm
  have hslot : (m₁.thread th).stack.argSlot 0 = .ok 0 := by
    have hbeyond := hsane.beyond th hsane.isOpen
    simp [Stack.argSlot, Stack.frameCount, Stack.size, hf.items, hbeyond]
  have hrun : (argReference th 0).run m₁ = .ok (.ref (.stack (m₁.thread th).stack.id 0)) m₁ :=
    bind_ok (run_readStack hslot)
  exact run_attempt_ok hrun

theorem ends_evalFromStackBy {ev : Evaluator} (hev : ev.Orderly th 2) :
    (evalFromStackBy ev th).Ends m₁ (fun _ m' => ∃ v, Answered th v m m') (Machine.Failed th 2 0 Cause.IsFine m) := by
  have hsane := hf.sane hm
  have hheight : (m₁.thread th).height = 2 := by unfold Thread.height; rw [hf.items]; rfl
  have hm₁ : m₁.Sane th 2 2 := { hsane with floor := le_rfl, above := hheight.ge }
  have hfail {e : Failure} {m₂ m₃ : Machine} (heven : Machine.Even th 2 2 m₁ m₂)
      (h : Machine.Failed th 2 2 (fun _ => False) m₂ e m₃) : Machine.Failed th 2 0 Cause.IsFine m e m₃ :=
    ⟨⟨h.toIsKnown.mono fun _ h => h.elim, hf.toOnward.trans ((heven.toOnward.trans h.onward).lower (Nat.zero_le 2)),
      fun c hc => (h.cause c hc).elim, h.secure⟩, fun c hc => (h.cause c hc).elim⟩
  unfold evalFromStackBy
  refine Ends.bind (P := fun r m₂ => r = .ok (.ref (.stack (m₁.thread th).stack.id 0)) ∧ m₂ = m₁)
    (by unfold Ends; rw [run_argReference hm hf]; exact ⟨rfl, rfl⟩) ?_
  rintro _ m₂ ⟨rfl, rfl⟩
  have hderef : Runs th 2 2 (fun _ => False) (derefPinned th (.ref (.stack (m₂.thread th).stack.id 0))) Value.IsPlain :=
    (runs_deref _).bind fun x hx => (runs_pin hx.2).bind fun _ _ => .pure hx
  refine Ends.bind ((hderef m₂ hm₁).mono (fun _ _ h => h) fun _ _ h => hfail (.refl hm₁.toClean) h) fun form₁ m₃ ⟨h₃, _⟩ => ?_
  refine Ends.bind (((hev.value form₁).attempt m₃ (h₃.sane hm₁)).mono (fun _ _ h => h) fun _ _ h => hfail h₃ h)
    fun r m₄ ⟨h₄, hr⟩ => ?_
  have heven := h₃.trans h₄
  cases r with
  | ok v => exact (ends_closeFrameWith hm hf heven (.inl hr)).mono (fun _ _ h => ⟨v, h⟩) fun _ _ h => h
  | error c =>
    obtain ⟨⟨e, rfl⟩, ho⟩ := hr
    exact (ends_closeFrameWith hm hf heven (.inr ⟨e, rfl, (ho e rfl).holds⟩)).mono (fun _ _ h => ⟨_, h⟩) fun _ _ h => h

end

/-- the answer is popped, and nothing else is pinned that is unwinding -/
theorem ends_pop (hm : m.Sane th 2 0) (hempty : (m.thread th).height = 0) {v : Value} (ha : Answered th v m m')
    {E : Failure → Machine → Prop} :
    (attempt (pop th)).Ends m' (fun r m'' => r = .ok v ∧ Machine.Onward th 2 0 m m'' ∧ (m''.thread th).height = 0 ∧
      (v.needsPin = true → v ∈ (m''.thread th).pins) ∧
      ∀ w ∈ (m''.thread th).pins, w.isSignaling = true → w = v ∨ w ∈ (m.thread th).pins) E := by
  obtain ⟨m₀, hon, hq, hb, huses⟩ := ha.base
  have hpop : (m'.thread th).stack.pop = (.ok v, { (m₀.thread th).stack with items := #[] }) := by
    rw [hb.own]
    have hbeyond := hon.beyond hm
    simp [Stack.pop, hbeyond]
  have hopen : (m'.thread th).isOpen = true := by rw [hb.own]; exact hon.isOpen hm
  have hrun : (popRaw th).run m' =
      .ok v (m'.onThread th fun t => { t with stack := { (m₀.thread th).stack with items := #[] } }) := by
    have hstack : (stackOf th).run m' = .ok (m'.thread th).stack m' := rfl
    unfold popRaw throughStack
    rw [bind_ok hstack]
    simp only [hpop]
    rfl
  have hb₁ := hb.trans (Machine.becomes_onThread hopen fun t =>
    { t with stack := { (m₀.thread th).stack with items := #[] } })
  rw [hb.own] at hb₁
  have hown := hon.own
  have hdown : Machine.Onward th 2 0 m
      (m'.onThread th fun t => { t with stack := { (m₀.thread th).stack with items := #[] } }) :=
    hon.becomes hb₁ huses (by simp) ⟨hown.shape, by rw [hempty]; exact Nat.zero_le _, by simp, hown.pins⟩
  refine .attempt (Ends.bind (P := fun w m₂ => w = v ∧ Machine.Onward th 2 0 m m₂ ∧
    (m₂.thread th).height = 0 ∧ (m₂.thread th).pins = (m₀.thread th).pins) ?_ ?_)
  · unfold Ends
    rw [hrun]
    exact ⟨rfl, hdown, by rw [hb₁.own]; rfl, by rw [hb₁.own]⟩
  · rintro w m₂ ⟨rfl, hon₂, hheight, hpins⟩
    unfold pin
    split
    · have hb₂ := Machine.becomes_onThread (hon₂.isOpen hm) fun t => { t with pins := t.pins.push w }
      have hheight₂ : ((m₂.onThread th fun t => { t with pins := t.pins.push w }).thread th).height = 0 := by
        rw [hb₂.own]; exact hheight
      have hnew : ∀ x ∈ ((m₂.onThread th fun t => { t with pins := t.pins.push w }).thread th).pins,
          x.isSignaling = true → x = w ∨ x ∈ (m.thread th).pins := by
        intro x hx hs
        rw [hb₂.own] at hx
        rcases Array.mem_push.1 hx with hx | rfl
        · exact .inr (hq x (hpins ▸ hx) hs)
        · exact .inl rfl
      have hpinned : w ∈ ((m₂.onThread th fun t => { t with pins := t.pins.push w }).thread th).pins := by
        rw [hb₂.own]; exact Array.mem_push_self
      exact ⟨rfl, hon₂.becomes hb₂ (fun _ => rfl) (hon₂.clean.slots th)
        ⟨hon₂.own.shape, hon₂.own.height, hon₂.own.low, hon₂.own.pins.trans (by simp)⟩, hheight₂,
        fun _ => hpinned, hnew⟩
    · rename_i hneeds
      exact ⟨rfl, hon₂, hheight, fun h => absurd h hneeds, fun x hx hs => .inr (hq x (hpins ▸ hx) hs)⟩

theorem cameTo_form {ev : Evaluator} (hev : ev.Orderly th 2) (hm : m.Sane th 2 0) (hempty : (m.thread th).height = 0)
    {form : Value} (hform : form.IsPlain) : (observe do
      withErrorObjects th (onStack th (·.makeFrame [form]))
      withErrorObjects th (evalFromStackBy ev th)
      let r ← attempt (pop th)
      let _ ← maybeCollect
      match r with
      | .error c => raise (.object (← asError th c))
      | .ok v => unlessSignaling v).Ends m (CameTo th 2 0 Cause.IsThrown Value.IsPlain m) fun _ _ => False := by
  have hfailed {e : Failure} {m' : Machine} (h : Machine.Failed th 2 0 Cause.IsObject m e m') :
      CameTo th 2 0 Cause.IsThrown Value.IsPlain m (.error e) m' :=
    ⟨h.onward, h.toIsKnown.mono fun _ hc => hc.isThrown, h.level, fun o ho => (h.secure o ho).holds⟩
  refine .observe ?_
  refine Ends.bind ((ends_withErrorObjects hm (ends_makeFrame hm hempty hform)).mono (fun _ _ h => h) fun _ _ h => hfailed h)
    fun _ m₁ hf => ?_
  refine Ends.bind ((ends_withErrorObjects hm (ends_evalFromStackBy hm hf hev)).mono (fun _ _ h => h) fun _ _ h => hfailed h)
    fun _ m₂ ⟨v, ha⟩ => ?_
  refine Ends.bind (ends_pop hm hempty ha) ?_
  rintro _ m₃ ⟨rfl, hon, hheight, -⟩
  -- from here on only the heap is touched
  have hlevel {m₄ : Machine} (h : Machine.Steady 2 m₃ m₄) : Machine.Onward th 2 0 m m₄ ∧
      (m₄.thread th).height = (m.thread th).height := by
    have heven : Machine.Even th 2 0 m₃ m₄ := h.even hon.clean
    exact ⟨hon.trans heven.toOnward, (heven.level.trans hheight).trans hempty.symm⟩
  refine Ends.bind ((still_maybeCollect (C := fun _ => False) m₃ hon.clean.heap).mono (fun _ _ h => h.1) fun e m₄ h =>
    ⟨(hlevel h.1).1, h.2.toIsKnown.mono fun _ h => h.elim, fun c hc => (h.2.cause c hc).elim, fun o ho => (h.2.bare o ho).elim⟩)
    fun _ m₄ h₄ => ?_
  refine (ends_unlessSignaling h₄.heap v).mono ?_ fun e m₅ h => ?_
  · rintro w _ ⟨rfl, rfl, hquiet⟩
    refine ⟨(hlevel h₄).1, ?_, (hlevel h₄).2⟩
    rcases ha.answer with hplain | ⟨e, rfl, -⟩
    · exact hplain
    · cases hquiet
  · have h₅ := hlevel (h₄.trans h.1)
    exact ⟨h₅.1, h.2.1, fun _ _ => h₅.2, fun o ho => (h.2.2 o ho).1⟩

/-- a form evaluated on its own leaves nothing but its result or its error, also if the heap is full -/
theorem ends_evalTopLevelBy {ev : Evaluator} (hev : ev.Orderly th 2) (hm : m.Sane th 2 0) (hempty : (m.thread th).height = 0)
    {form : Value} (hform : form.IsPlain) : (evalTopLevelBy ev th form).Ends m
      (fun v m' => (Machine.Even th 2 0 m m' ∧ v.IsPlain) ∧ PinsKept th (.ok v) m m')
      fun e m' => Machine.Failed th 2 0 Cause.IsObject m e m' ∧ (∀ c, e = .raised c → PinsKept th (.error e) m m') ∧
        e ≠ .fault .exhausted :=
  (ends_guarded hm (.inr ⟨_, rfl⟩) (fun _ h => h.2) (cameTo_form hev hm hempty hform)).mono (fun _ _ h => h) fun _ _ h =>
    ⟨h.1.mono fun _ hc => hc.1.resolve_left hc.2, h.2⟩

end LispMachine.Act
