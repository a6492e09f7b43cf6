/-
Actions that fail with ordinary errors only.

A fault unwinds everything, and whoever lays the arguments of a call on the stack does not take them back then. No fault comes of that
but for two: the heap may be full, and an object that is asked for may have been released. All other failures are ordinary errors.
-/
import LispMachine.Machine.Params
import LispMachine.Proofs.Actions
import Mathlib.Data.List.Induction

namespace LispMachine.Act

variable {α β : Type} {th : ThreadId}

/-- ordinary errors, and the two faults that have to do with the heap -/
def IsMild (e : Failure) : Prop := (∃ c, e = .raised c) ∨ e = .fault .exhausted ∨ ∃ h k, e = .fault (.freed h k)

/-- an action that comes upon no other failures -/
class Mild (x : Act α) : Prop where
  error : ∀ m e m', x.run m = .error e m' → IsMild e

namespace Mild

variable {x : Act α} {f : α → Act β}

theorem of_ok (h : ∀ m, ∃ a m', x.run m = .ok a m') : Mild x where
  error m e m' hx := by
    obtain ⟨a, m₁, ha⟩ := h m
    rw [ha] at hx
    cases hx

instance pure (a : α) : Mild (pure a : Act α) := .of_ok fun m => ⟨a, m, rfl⟩

instance get : Mild (get : Act Machine) := .of_ok fun m => ⟨m, m, rfl⟩

instance modify (f : Machine → Machine) : Mild (modify f : Act PUnit) := .of_ok fun _ => ⟨_, _, rfl⟩

instance modifyGet (f : Machine → α × Machine) : Mild (modifyGet f : Act α) := .of_ok fun _ => ⟨_, _, rfl⟩

instance note (e : Event) : Mild (note e) := .of_ok fun _ => ⟨_, _, rfl⟩

instance raise (c : Cause) : Mild (raise c : Act α) where
  error _ _ _ hx := by cases hx; exact .inl ⟨c, rfl⟩

instance bind [hx : Mild x] [hf : ∀ a, Mild (f a)] : Mild (x >>= f) where
  error m e m' h := by
    rw [run_bind] at h
    cases hr : x.run m with
    | ok a m₁ => rw [hr] at h; exact (hf a).error m₁ e m' h
    | error e₁ m₁ => rw [hr] at h; cases h; exact hx.error m _ _ hr

/-- an action is followed by one that depends on its result -/
theorem next [Mild x] (hf : ∀ a, Mild (f a)) : Mild (x >>= f) := inferInstance

instance ite {c : Prop} [Decidable c] {y : Act α} [Mild x] [Mild y] : Mild (if c then x else y) := by
  split <;> infer_instance

end Mild

/-! ## Objects and errors -/

instance : Mild (fault .exhausted : Act α) := ⟨fun _ _ _ h => by cases h; exact .inr (.inl rfl)⟩

instance (h : Handle) (k : Kind) : Mild (fault (.freed h k) : Act α) := ⟨fun _ _ _ hx => by cases hx; exact .inr (.inr ⟨h, k, rfl⟩)⟩

instance (c : Cell) (text : Bool) : Mild (allocate c text) := by
  unfold allocate
  infer_instance

instance (v : Value) : Mild (pin th v) := by
  unfold pin
  infer_instance

instance (name : String) : Mild (intern name) := by
  unfold intern
  exact .next fun m => by split <;> infer_instance

instance (text : Bool) (a d : Value) : Mild (newPair th text a d) := by
  unfold newPair allocatePinned
  infer_instance

instance (text : Bool) (vs : List Value) (tail : Value) : Mild (consAll th text vs tail) := by
  induction vs generalizing tail <;> unfold consAll <;> infer_instance

instance (text : Bool) (items : List Value) : Mild (newListOf th text items) := by
  unfold newListOf
  infer_instance

instance (kind : ErrorKind) (a b : Value) : Mild (newError th kind a b) := by
  unfold newError newErrorObject
  infer_instance

instance (kind : ErrorKind) (a b : Value) : Mild (raiseError th kind a b : Act α) := by
  unfold raiseError
  infer_instance

instance (wanted : String) (got : Value) : Mild (raiseType th wanted got : Act α) := by
  unfold raiseType newTypeError symbol
  infer_instance

instance (v : Value) : Mild (resolve v) := by
  unfold resolve
  split
  · infer_instance
  · exact .next fun m => by split <;> infer_instance

instance (v : Value) : Mild (asSymbol v) := by
  unfold asSymbol
  split
  · exact .next fun s => by split <;> infer_instance
  · infer_instance

/-! ## Arguments -/

instance (v : Value) : Mild (push_ th v) := by
  unfold push_ push
  infer_instance

instance (ps : List Handle) (vs : List Value) : Mild (pushRequired th ps vs) := by
  induction ps generalizing vs <;> cases vs <;> unfold pushRequired <;> infer_instance

instance (ps : List Handle) (vs : List Value) : Mild (pushOptional th ps vs) := by
  induction ps generalizing vs <;> cases vs <;> unfold pushOptional <;> infer_instance

instance (args : List Value) (given : List (Handle × Value)) : Mild (keyedArgs th args given) := by
  induction args using List.twoStepInduction generalizing given with
  | nil => unfold keyedArgs; infer_instance
  | singleton k => unfold keyedArgs; exact .next fun o => by cases o <;> infer_instance
  | cons_cons k v rest ih => unfold keyedArgs; exact .next fun o => by cases o <;> infer_instance

instance (sym : Handle) : Mild (keyOf sym) := by
  unfold keyOf
  infer_instance

instance (given : List (Handle × Value)) (ks : List Handle) : Mild (pushKeys th given ks) := by
  induction ks <;> unfold pushKeys <;> infer_instance

/-- the arguments of a call are laid on the stack, or there is an ordinary error -/
instance (text : Bool) (p : Params) (args : List Value) : Mild (pushArgs th text p args) := by
  unfold pushArgs
  dsimp only
  split
  · exact .next fun _ => .next fun _ => .next fun _ => inferInstance
  · exact .next fun _ => .next fun _ => inferInstance

end LispMachine.Act
