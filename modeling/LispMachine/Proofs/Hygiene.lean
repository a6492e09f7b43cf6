/-
Hygiene of values.

Primitives return references and errors that are unwinding, but neither is ever stored: pairs, boxes, payloads of errors
and stack slots hold plain values, and so do program texts. A reference is found only in the table of a scope, and what it
refers to is plain, so that one step of dereferencing is enough. An error that is unwinding is handed over in one slot, from
the evaluation of a form in a frame to the operation that made the frame, and is then pinned once.
-/
import LispMachine.Proofs.Reached

namespace LispMachine

/-- a machine that stores plain values, but for what `slot` and `pin` allow on the stack and among the pins of a thread -/
structure Machine.HygienicBut (slot pin : ThreadId → Value → Prop) (m : Machine) : Prop where
  pairs : ∀ h a d, m.cell? h = some (.cons a d) → a.IsPlain ∧ d.IsPlain
  boxes : ∀ h v, m.cell? h = some (.box v) → v.IsPlain
  errors : ∀ h e, m.cell? h = some (.error e) → e.first.IsPlain ∧ e.second.IsPlain
  functions : ∀ h f, m.cell? h = some (.function f) → f.params.source.IsPlain ∧
    ∀ list outer, f.body = .forms list outer → list.IsPlain
  tables : ∀ h s, m.cell? h = some (.scope s) → ∀ e ∈ s.table, e.2.isReference = true
  slots : ∀ th, ∀ v ∈ (m.thread th).stack.items, v.IsPlain ∨ slot th v
  pins : ∀ th, ∀ v ∈ (m.thread th).pins, v.isSignaling = false ∨ pin th v

/-- a machine that stores plain values, and pins no error that is unwinding -/
def Machine.Hygienic (m : Machine) : Prop := m.HygienicBut (fun _ _ => False) fun _ _ => False

/-- an action after which the machine is hygienic, with a result of which `Q` holds or an error that comes with its object -/
def Act.Cleanly {α : Type} (x : Act α) (m : Machine) (Q : α → Prop) : Prop :=
  x.Ends m (fun a m' => Q a ∧ m'.Hygienic) fun e m' => ∀ c, e = .raised c → c.IsObject ∧ m'.Hygienic

/-- a form evaluated through a frame: the frame is hygienic, what comes of the form is handed back in the only slot of the
stack, which alone may hold an unwinding error then, and once it is popped a pin alone may -/
def Act.HandsOver (fuel : Nat) (th : ThreadId) (form : Value) (m : Machine) : Prop :=
  (withErrorObjects th (onStack th (·.makeFrame [form]))).Ends m (fun _ m₁ => m₁.Hygienic ∧
    (withErrorObjects th (evalFromStack fuel th)).Ends m₁ (fun _ m₂ => ∃ v, (m₂.thread th).stack.items = #[v] ∧
      (v.IsPlain ∨ ∃ e : HeldError, v = e.value .signaling) ∧
      m₂.HygienicBut (fun t w => t = th ∧ w = v) (fun _ _ => False) ∧
      (attempt (pop th)).Ends m₂ (fun r m₃ => r = .ok v ∧ m₃.HygienicBut (fun _ _ => False) fun t w => t = th ∧ w = v)
        fun _ _ => False) fun e m₂ => ∀ c, e = .raised c → c.IsObject ∧ m₂.Hygienic)
    fun e m₁ => ∀ c, e = .raised c → c.IsObject ∧ m₁.Hygienic

namespace Machine

variable {b k : Nat} {m m' : Machine} {th : ThreadId} {slot pin : ThreadId → Value → Prop}

theorem hygienicBut (hheap : m.heap.Clean b) (hslots : ∀ th, ∀ v ∈ (m.thread th).stack.items, v.IsPlain ∨ slot th v)
    (hpins : ∀ th, ∀ v ∈ (m.thread th).pins, v.isSignaling = false ∨ pin th v) : m.HygienicBut slot pin where
  pairs h a d hc := by cases hheap.cells h _ hc; exact ⟨by assumption, by assumption⟩
  boxes h v hc := by cases hheap.cells h _ hc; assumption
  errors h e hc := by cases hheap.cells h _ hc; exact ⟨by assumption, by assumption⟩
  functions h f hc := by
    cases hheap.cells h _ hc
    rename_i hsource hbody
    refine ⟨hsource, fun list outer heq => ?_⟩
    rw [heq] at hbody
    cases hbody
    assumption
  tables h s hc e he := by
    cases hheap.cells h _ hc
    rename_i htable
    exact (htable e he).isReference
  slots := hslots
  pins := hpins

theorem Clean.hygienic (hm : m.Clean b) (hquiet : ∀ th, ∀ v ∈ (m.thread th).pins, v.isSignaling = false) : m.Hygienic :=
  hygienicBut hm.heap (fun th v hv => .inl (hm.slots th v hv)) fun th v hv => .inl (hquiet th v hv)

theorem Sane.hygienic (hm : m.Sane th b k) : m.Hygienic := hm.toClean.hygienic hm.quiet

theorem Visited.hygienic (hm : m.Visited) : m.Hygienic ∧ m.Clean 2 := by
  rcases hm with hm | ⟨_, _, _, _, hr⟩
  · exact ⟨hm.idle.toClean.hygienic hm.idle.quiet, hm.idle.toClean⟩
  · exact ⟨hr.sane.1.hygienic, hr.sane.1.toClean⟩

end Machine

namespace Act

variable {α : Type} {b k n : Nat} {m m' : Machine} {th : ThreadId} {x : Act α}

theorem Runs.cleanly {Q : α → Prop} (hx : Runs th b k Cause.IsObject x Q) (hm : m.Sane th b k) : x.Cleanly m Q :=
  (hx m hm).mono (fun _ _ h => ⟨h.2, (h.1.sane hm).hygienic⟩)
    fun _ _ h c hc => ⟨h.cause c hc, (h.onward.sane (h.quietly c hc) hm).hygienic⟩

/-- from a plain value one step of dereferencing is enough -/
theorem exists_run_derefAll (p : Place) (hp : (m.load p).IsPlain) :
    ∃ m', (derefAll (.ref p)).run m = .ok (m.load p) m' := by
  obtain ⟨m', hlook⟩ := exists_run_look m p
  refine ⟨m', ?_⟩
  obtain ⟨n, hn⟩ : ∃ n, m.extent = n + 2 := ⟨_, rfl⟩
  have hrest : derefAllWithin (n + 1) (m.load p) = pure (m.load p) := by
    generalize m.load p = v at hp
    cases v <;> first | rfl | exact absurd hp.1 (by simp [Value.isReference])
  have hrun : (derefAllWithin (n + 2) (.ref p)).run m = .ok (m.load p) m' := by
    refine (bind_ok hlook).trans ?_
    rw [hrest]
    rfl
  unfold derefAll
  rw [bind_ok (x := get) rfl, hn]
  exact hrun

/-- what comes of a form is handed over in one slot, and then in one pin -/
theorem handsOver (hm : m.Idle) (ho : (m.thread th).isOpen = true) (fuel : Nat) {form : Value} (hform : form.IsPlain) :
    HandsOver fuel th form m := by
  have hsane := hm.sane ho
  have hempty := hm.empty th ho
  have hfailed {e : Failure} {m' : Machine} (h : Machine.Failed th 2 0 Cause.IsObject m e m') (c : Cause)
      (hc : e = .raised c) : c.IsObject ∧ m'.Hygienic :=
    ⟨h.cause c hc, (h.onward.sane (h.quietly c hc) hsane).hygienic⟩
  refine (ends_withErrorObjects hsane (ends_makeFrame hsane hempty hform)).mono (fun _ m₁ hf => ?_) fun _ _ h => hfailed h
  refine ⟨(hf.sane hsane).hygienic, ?_⟩
  have heval := ends_evalFromStackBy hsane hf (orderly_eval th 2 fuel fuel)
  refine (ends_withErrorObjects hsane heval).mono (fun _ m₂ ⟨v, ha⟩ => ?_) fun _ _ h => hfailed h
  obtain ⟨m₀, hon, hq, hb, -⟩ := ha.base
  have hsane₀ := hon.sane hq hsane
  refine ⟨v, by rw [hb.own], ha.answer.imp_right fun ⟨e, he, _⟩ => ⟨e, he⟩,
    Machine.hygienicBut (hb.heap ▸ hsane₀.heap) (fun t w hw => ?_) (fun t w hw => ?_), ?_⟩
  · by_cases ht : t = th
    · subst ht
      rw [hb.own] at hw
      exact .inr ⟨rfl, List.mem_singleton.1 (Array.mem_toList_iff.2 hw)⟩
    · rw [hb.others t ht] at hw
      exact .inl (hsane₀.slots t w hw)
  · by_cases ht : t = th
    · subst ht
      rw [hb.own] at hw
      exact .inl (hsane₀.quiet t w hw)
    · rw [hb.others t ht] at hw
      exact .inl (hsane₀.quiet t w hw)
  · refine (ends_pop hsane hempty ha).mono (fun r m₃ ⟨hr, hon₃, _, _, hpins⟩ => ⟨hr, ?_⟩) fun _ _ h => h
    refine Machine.hygienicBut hon₃.clean.heap (fun t w hw => .inl (hon₃.clean.slots t w hw)) fun t w hw => ?_
    cases hs : w.isSignaling with
    | false => exact .inl rfl
    | true =>
      by_cases ht : t = th
      · subst ht
        rcases hpins w hw hs with rfl | hold
        · exact .inr ⟨rfl, rfl⟩
        · rw [hsane.quiet t w hold] at hs
          cases hs
      · rw [(hon₃.others t ht).2.2] at hw
        rw [hsane.quiet t w hw] at hs
        cases hs

end Act

/-- **References and unwinding errors are never stored.** Every machine that a program comes to, between two operations or
at the start of an evaluation, is hygienic, and whatever place is dereferenced, one step leads to a plain value. For every
open thread an evaluation to a value ends with a plain value and one to a place with a reference, every error of either is
an error object, and the machine is hygienic again; it is so, too, while the arguments of a call of any function lie on the
stack. Between two operations, a form that is evaluated on its own hands over what comes of it. -/
theorem Machine.Visited.hygiene {m : Machine} (hm : m.Visited) :
    m.Hygienic ∧
    (∀ p, (m.load p).IsPlain ∧ ∃ m', (Act.derefAll (.ref p)).run m = .ok (m.load p) m') ∧
    ∀ th, (m.thread th).isOpen = true →
      (∀ fuel v, (eval th fuel v .value).Cleanly m Value.IsPlain) ∧
      (∀ fuel v, (eval th fuel v .place).Cleanly m fun w => w.isReference = true) ∧
      (∀ h f args, m.cell? h = some (.function f) → (∀ v ∈ args, v.IsPlain) →
        (Act.pushArgs th f.isSpecial f.params args).Ends m (fun _ m' => m'.Hygienic) fun e m' =>
          ∀ c, e = .raised c → m'.Hygienic) ∧
      (m.Settled → ∀ fuel form, form.IsPlain → Act.HandsOver fuel th form m ∧
        (Act.evalTopLevel fuel th form).Cleanly m Value.IsPlain) := by
  obtain ⟨hhygienic, hclean⟩ := hm.hygienic
  refine ⟨hhygienic, fun p => ⟨hclean.load p, Act.exists_run_derefAll p (hclean.load p)⟩, fun th ho => ?_⟩
  have hsane := hm.sane ho
  have hlow := hm.sane_zero ho
  refine ⟨fun fuel v => ?_, fun fuel v => ?_, fun h f args hf hargs => ?_, fun hsettled fuel form hform => ⟨?_, ?_⟩⟩
  · exact ((Act.orderly_eval th 0 fuel fuel).value v).cleanly hlow
  · have hplace := (Act.orderly_eval th 0 fuel fuel).place v v.staysAbove_zero
    exact (hplace.weaken fun _ h => h.isReference).cleanly hlow
  · have hparams : f.params.source.IsPlain := (hhygienic.functions h f hf).1
    exact (Act.piles_pushArgs f.isSpecial hparams hargs m hlow).mono (fun _ _ h => (h.1.sane hlow).hygienic)
      fun _ _ h c hc => (h.onward.sane (h.quietly c hc) hlow).hygienic
  · exact Act.handsOver hsettled.idle ho fuel hform
  · refine (Act.ends_evalTopLevelBy (Act.orderly_eval th 2 fuel fuel) hsane (hsettled.idle.empty th ho) hform).mono
      (fun _ _ h => ⟨h.1.2, (h.1.1.sane hsane).hygienic⟩) fun _ _ h c hc => ?_
    exact ⟨h.1.cause c hc, (h.1.onward.sane (h.1.quietly c hc) hsane).hygienic⟩

/-- a form that fails inside two calls, and a machine at the start of an evaluation of it -/
theorem Machine.hygiene_failing : failing.Hygienic ∧
    (∃ e m', (Act.evalTopLevel 5 1 (.cons 211)).run failing = .error (.raised (.object e)) m' ∧ e.kind = .unboundSymbol ∧
      m'.Hygienic) ∧
    Act.HandsOver 5 1 (.cons 211) failing ∧ ∃ v m', Reached 1 5 v .value m' ∧ m'.Hygienic := by
  obtain ⟨-, -, -, hcapacity, herror, -⟩ := runs_failing
  obtain ⟨e, m', hr, hkind⟩ := Outcome.exists_of_errorKind? herror
  obtain ⟨hfailing, ho⟩ := settled_failing
  have hform : (Value.cons 211).IsPlain := ⟨rfl, rfl⟩
  have h := Visited.hygiene (.inl hfailing)
  obtain ⟨hover, hclean⟩ := (h.2.2 1 ho).2.2.2 hfailing 5 (.cons 211) hform
  have hroom : 2 ≤ (failing.thread 1).stack.capacity := by rw [hcapacity]; decide
  obtain ⟨v, m₁, hreached⟩ := Act.exists_reached hfailing ho hroom hform 5
  exact ⟨h.1, ⟨e, m', hr, hkind, (hclean.error hr _ rfl).2⟩, hover, v, m₁, hreached,
    (Visited.hygiene (.inr ⟨1, 5, v, .value, hreached⟩)).1⟩

end LispMachine
