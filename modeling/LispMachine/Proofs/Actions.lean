/-
Running the basic actions: what each does to a machine, as equations to rewrite with.
-/
import LispMachine.Machine.State

namespace LispMachine.Act

variable {α β : Type} (m : Machine)

@[simp] theorem run_pure (a : α) : (pure a : Act α).run m = .ok a m := rfl

theorem run_bind (x : Act α) (f : α → Act β) :
    (x >>= f).run m = match x.run m with
      | .ok a m => (f a).run m
      | .error e m => .error e m := rfl

@[simp] theorem run_get : (get : Act Machine).run m = .ok m m := rfl

@[simp] theorem run_set (new : Machine) : (set new : Act PUnit).run m = .ok () { new with journal := m.journal } := rfl

@[simp] theorem run_modify (f : Machine → Machine) :
    (modify f : Act PUnit).run m = .ok () { f m with journal := m.journal } := rfl

@[simp] theorem run_modifyGet (f : Machine → α × Machine) :
    (modifyGet f : Act α).run m = .ok (f m).1 { (f m).2 with journal := m.journal } := rfl

@[simp] theorem run_throw (e : Failure) : (throw e : Act α).run m = .error e m := rfl

@[simp] theorem run_raise (c : Cause) : (raise c : Act α).run m = .error (.raised c) m := rfl

@[simp] theorem run_fault (f : Fault) : (fault f : Act α).run m = .error (.fault f) m := rfl

@[simp] theorem run_note (e : Event) : (note e).run m = .ok () { m with journal := e :: m.journal } := rfl

theorem run_observe (x : Act α) :
    (observe x).run m = match x.run m with
      | .ok a m => .ok (.ok a) m
      | .error e m => .ok (.error e) m := rfl

theorem bind_ok {x : Act α} {f : α → Act β} {m m' : Machine} {a : α} (hx : x.run m = .ok a m') :
    (x >>= f).run m = (f a).run m' := by
  rw [run_bind, hx]

theorem bind_error {x : Act α} {f : α → Act β} {m m' : Machine} {e : Failure} (hx : x.run m = .error e m') :
    (x >>= f).run m = .error e m' := by
  rw [run_bind, hx]

theorem run_observe_ok {x : Act α} {m m' : Machine} {a : α} (hx : x.run m = .ok a m') :
    (observe x).run m = .ok (.ok a) m' := by
  rw [run_observe, hx]

theorem run_observe_error {x : Act α} {m m' : Machine} {e : Failure} (hx : x.run m = .error e m') :
    (observe x).run m = .ok (.error e) m' := by
  rw [run_observe, hx]

theorem run_attempt_ok {x : Act α} {m m' : Machine} {a : α} (hx : x.run m = .ok a m') :
    (attempt x).run m = .ok (.ok a) m' :=
  bind_ok (run_observe_ok hx)

theorem run_attempt_raised {x : Act α} {m m' : Machine} {c : Cause} (hx : x.run m = .error (.raised c) m') :
    (attempt x).run m = .ok (.error c) m' :=
  bind_ok (run_observe_error hx)

/-- an attempt takes no failure but an ordinary error -/
theorem run_attempt_error {x : Act α} {m m' : Machine} {e : Failure} (he : ∀ c, e ≠ .raised c) (hx : x.run m = .error e m') :
    (attempt x).run m = .error e m' := by
  unfold attempt
  rw [bind_ok (run_observe_error hx)]
  cases e with
  | raised c => exact absurd rfl (he c)
  | fault f => rfl
  | outOfFuel => rfl

/-- sequences may be grouped in any way -/
theorem run_bind_assoc {γ : Type} {x : Act α} (m : Machine) (f : α → Act β) (g : β → Act γ) :
    ((x >>= f) >>= g).run m = (x >>= fun a => f a >>= g).run m := by
  rw [run_bind, run_bind, run_bind]
  cases x.run m <;> rfl

end LispMachine.Act
