/-
Balance.

However an evaluation returns, by a value, an ordinary error, a stack overflow or the error for a full heap, it leaves the
stack as high, the evaluations nested as deep, the scopes the same and each in use as often as it found them; the pins are
those it found, followed by its result or its error at most. The outermost evaluation always returns when the heap is full.
A step of the loop that returns drops the pin of its result, too.
-/
import LispMachine.Proofs.Reached

namespace LispMachine

open Source

/-- what an evaluation leaves as it found it; `kept` is its result or its error -/
structure Machine.Balanced (th : ThreadId) (kept : Value) (m m' : Machine) : Prop where
  size : (m'.thread th).stack.size = (m.thread th).stack.size
  depth : (m'.thread th).depth = (m.thread th).depth
  scopes : (m'.thread th).scopes = (m.thread th).scopes
  uses : ∀ h, m'.useCount h = m.useCount h
  pins : (m'.thread th).pins = (m.thread th).pins ∨ (m'.thread th).pins = (m.thread th).pins.push kept

/-- an evaluation that is balanced, whichever way it returns: its errors come with an object -/
def Act.Balances (th : ThreadId) (x : Act Value) (m : Machine) : Prop :=
  x.Ends m (fun v m' => Machine.Balanced th v m m') fun e m' =>
    ∀ c, e = .raised c → ∃ o : HeldError, c = .object o ∧ Machine.Balanced th (o.value .quiet) m m'

/-- an action that never lets out that the heap is full -/
def Act.ContainsExhaustion {α : Type} (x : Act α) (m : Machine) : Prop := ∀ m', x.run m ≠ .error (.fault .exhausted) m'

namespace Act

variable {th : ThreadId} {b k : Nat} {m m' : Machine}

theorem balanced_of_onward (hm : m.Sane th b k) (h : Machine.Onward th b k m m')
    (hheight : (m'.thread th).height = (m.thread th).height) {r : Except Failure Value} {kept : Value}
    (hpins : PinsKept th r m m') (hkept : outcomeKept r = [kept]) : Machine.Balanced th kept m m' where
  size := by rw [h.size hm, hm.size, hheight]
  depth := congrArg Thread.Shape.depth h.own.shape
  scopes := h.scopes
  uses := h.uses
  pins := by
    rw [hpins, hkept]
    cases hneeds : kept.needsPin with
    | false => left; simp [hneeds]
    | true => right; simp [hneeds]

/-- the ways an evaluation may end are balanced -/
theorem Ends.balances {x : Act Value} {Q : Value → Prop} {P : Prop} (hm : m.Sane th b k)
    (hx : x.Ends m (fun v m' => (Machine.Even th b k m m' ∧ Q v) ∧ PinsKept th (.ok v) m m')
      fun e m' => Machine.Failed th b k Cause.IsObject m e m' ∧ (∀ c, e = .raised c → PinsKept th (.error e) m m') ∧
        (P → e ≠ .fault .exhausted)) :
    x.Balances th m ∧ (P → x.ContainsExhaustion m) := by
  constructor
  · refine hx.mono (fun v m' h => balanced_of_onward hm h.1.1.toOnward h.1.1.level h.2 rfl) fun e m' h c hc => ?_
    obtain ⟨o, ho⟩ := h.1.cause c hc
    have hkept : outcomeKept (.error e) = [o.value .quiet] := by rw [hc, ho]; rfl
    exact ⟨o, ho, balanced_of_onward hm h.1.onward (h.1.level c hc) (h.2.1 c hc) hkept⟩
  · intro hP m' hr
    unfold Ends at hx
    rw [hr] at hx
    exact hx.2.2 hP rfl

theorem balances_eval (hm : m.Sane th b b) (fuel : Nat) (v : Value) (mode : Mode) (hv : mode = .place → v.StaysAbove b) :
    (eval th fuel v mode).Balances th m ∧ ((m.thread th).depth = 0 → (eval th fuel v mode).ContainsExhaustion m) := by
  cases fuel with
  | zero => exact ⟨fun c hc => (by cases hc), fun _ m' h => (by cases h)⟩
  | succ n =>
    exact Ends.balances hm (ends_evaluate (orderly_eval th b n n) hm v mode hv)

end Act

/-- **Evaluation is balanced on every way out.** On every machine that a program comes to, between two operations or at
the start of an evaluation, and for every open thread: an evaluation of anything, to a value or to a place, is balanced,
and the outermost contains a full heap; so is a form evaluated on its own, which a thread does whose stack is empty, as it
is between two operations. A step of the loop that returns leaves stack, scopes and pins as they were. -/
theorem Machine.Visited.evaluation_balanced {m : Machine} (hm : m.Visited) {th : ThreadId}
    (ho : (m.thread th).isOpen = true) (fuel : Nat) :
    (∀ v mode, (eval th fuel v mode).Balances th m ∧
      ((m.thread th).depth = 0 → (eval th fuel v mode).ContainsExhaustion m)) ∧
    ((m.thread th).stack.size = 0 → ∀ form, form.IsPlain →
      (Act.evalTopLevel fuel th form).Balances th m ∧ (Act.evalTopLevel fuel th form).ContainsExhaustion m) ∧
    (m.Settled → (m.thread th).stack.size = 0 ∧ ∀ reading m', (Act.replStep fuel th reading).run m = .ok () m' →
      (m'.thread th).stack.size = (m.thread th).stack.size ∧ (m'.thread th).scopes = (m.thread th).scopes ∧
        (m'.thread th).pins = (m.thread th).pins ∧ ∀ h, m'.useCount h = m.useCount h) := by
  have hsane := hm.sane ho
  refine ⟨fun v mode => Act.balances_eval (hm.sane_zero ho) fuel v mode fun _ => v.staysAbove_zero,
    fun hempty form hform => ?_, fun hsettled => ?_⟩
  · have htop := Act.ends_evalTopLevelBy (Act.orderly_eval th 2 fuel fuel) hsane (hsane.size.symm.trans hempty) hform
    have hboth := Act.Ends.balances (P := True) hsane
      (htop.mono (fun _ _ h => h) fun _ _ h => ⟨h.1, h.2.1, fun _ => h.2.2⟩)
    exact ⟨hboth.1, hboth.2 trivial⟩
  · refine ⟨hsane.size.trans (hsettled.idle.empty th ho), fun reading m' hr => ?_⟩
    have hstep := Act.ends_replStep hsettled.idle ho fuel reading
    unfold Act.Ends at hstep
    rw [hr] at hstep
    obtain ⟨heven, hpins⟩ := hstep
    exact ⟨by rw [heven.size hsane, hsane.size, heven.level], heven.scopes, hpins, heven.uses⟩

/-- a form that fails inside two calls, and a step of the loop with it -/
theorem Machine.evaluation_balanced_failing :
    (∃ e m', (Act.evalTopLevel 5 1 (.cons 211)).run failing = .error (.raised (.object e)) m' ∧ e.kind = .unboundSymbol ∧
      Balanced 1 (e.value .quiet) failing m') ∧
    ∃ m', (Act.replStep 5 1 (.form .failing (.ofRunes []))).run equipped = .ok () m' ∧
      (m'.thread 1).pins = (equipped.thread 1).pins := by
  obtain ⟨-, -, -, -, herror, hstep⟩ := runs_failing
  obtain ⟨e, m', hr, hkind⟩ := Outcome.exists_of_errorKind? herror
  have hstep := Outcome.eq_ok_of_gives hstep
  obtain ⟨hfailing, ho⟩ := settled_failing
  obtain ⟨hequipped, ho'⟩ := settled_equipped
  have h := Visited.evaluation_balanced (.inl hfailing) ho 5
  have h' := Visited.evaluation_balanced (.inl hequipped) ho' 5
  obtain ⟨_, ⟨⟩, hbalanced⟩ := (h.2.1 (h.2.2 hfailing).1 (.cons 211) ⟨rfl, rfl⟩).1.error hr _ rfl
  exact ⟨⟨e, m', hr, hkind, hbalanced⟩, _, hstep, ((h'.2.2 hequipped).2 _ _ hstep).2.2.1⟩

end LispMachine
