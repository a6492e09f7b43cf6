/-
Simulation: two machines run in step.

A situation is a pair of machines with all that is known of them: which handles stand for each other, and which of these
pairs are kept, that is, go on standing for each other whatever is run next. `Sim σ x y Q` says that two actions run in step
from the situation `σ`: both succeed with results that `Q` relates, or both fail alike, in a situation in which all that was
kept still is. Nothing is promised once an event that spoils the comparison is in a journal; as journals only grow, this has to
be said of the final journals alone.

The rules of this module are for sequences, failures and their handlers. What the single operations do is proved for each
kind of situation; what is built from them is proved once, for all kinds.
-/
import Mathlib.Tactic
import LispMachine.Eval.Primitives
import LispMachine.Proofs.Actions
import LispMachine.Proofs.Likeness
import LispMachine.Proofs.References

namespace LispMachine

/-! ## Program text -/

/-- the atoms of program text: numbers, immediates and symbols -/
def Value.IsAtom : Value → Prop
  | .float _ | .nil | .t | .unset | .int _ | .symbol _ => True
  | _ => False

/-- the primitives that get their arguments unevaluated -/
def Primitive.isForm : Primitive → Bool
  | .quote | .cond | .ifElse | .whenTrue | .unlessTrue | .letIn | .lambda | .defun | .defvar | .boundp | .setf
  | .catchError | .makeScope | .nref | .withScope => true
  | _ => false

/-- a primitive of the language, installed as what it is -/
def Primitive.Suits (p : Primitive) (special : Bool) : Prop := special = p.isForm ∧ ∀ a, p ≠ .host a

/-- what stays of an object whatever is stored in it -/
def Slot.label (s : Slot) : Nat × Bool × Kind := (s.serial, s.text, s.cell.kind)

/-! ## Situations -/

/-- a kind of situations of two machines -/
class Simulation (S : Type) where
  left : S → Machine
  right : S → Machine
  /-- the events on the left after which nothing is promised -/
  spoils : Event → Prop
  /-- the same for the right -/
  spoils' : Event → Prop
  /-- what two runs that have ended, each with what it had entered left again, may have led to -/
  Balanced : S → S → Prop
  /-- what two runs that have lost nothing at all may have led to -/
  Quiet : S → S → Prop
  /-- two handles stand for each other, as names of objects of one kind -/
  Obj : S → Kind → Handle → Handle → Prop
  /-- and will do so whatever is run next -/
  Kept : S → Kind → Handle → Handle → Prop
  /-- two references lead to places that stand for each other -/
  Spot : S → Value → Value → Prop
  /-- and will do so whatever is run next -/
  Placed : S → Value → Value → Prop
  /-- a value on the left may be evaluated -/
  Runnable : S → Value → Prop
  /-- a fault that may come upon both sides -/
  Common : Fault → Prop
  balanced_refl (σ : S) : Balanced σ σ
  balanced_trans {σ τ υ : S} : Balanced σ τ → Balanced τ υ → Balanced σ υ
  quiet_refl (σ : S) : Quiet σ σ
  quiet_trans {σ τ υ : S} : Quiet σ τ → Quiet τ υ → Quiet σ υ
  balanced_of_quiet {σ τ : S} : Quiet σ τ → Balanced σ τ
  obj_of_kept {σ : S} {k : Kind} {h h' : Handle} : Kept σ k h h' → Obj σ k h h'
  spot_of_placed {σ : S} {r r' : Value} : Placed σ r r' → Spot σ r r'
  obj_quiet {σ τ : S} {k : Kind} {h h' : Handle} : Quiet σ τ → Obj σ k h h' → Obj τ k h h'
  kept_balanced {σ τ : S} {k : Kind} {h h' : Handle} : Balanced σ τ → Kept σ k h h' → Kept τ k h h'
  placed_balanced {σ τ : S} {r r' : Value} : Balanced σ τ → Placed σ r r' → Placed τ r r'
  /-- a handle that is kept goes on naming the same object -/
  label_balanced {σ τ : S} {k : Kind} {h h' : Handle} : Balanced σ τ → Kept σ k h h' →
    ((left τ).heap.slot? h).map Slot.label = ((left σ).heap.slot? h).map Slot.label ∧
    ((right τ).heap.slot? h').map Slot.label = ((right σ).heap.slot? h').map Slot.label
  runnable_balanced {σ τ : S} {v v' : Value} : Balanced σ τ → v.Like (Kept σ) v' → Runnable σ v → Runnable τ v
  runnable_atom {σ : S} {v : Value} : v.IsAtom → Runnable σ v
  common {f : Fault} : (∀ h k, f ≠ .freed h k) → f ≠ .exhausted → Common f
  isReference_of_spot {σ : S} {r r' : Value} : Spot σ r r' → r.isReference = true ∧ r'.isReference = true
  obj_unique {σ : S} {k l : Kind} {h h' g g' : Handle} : Obj σ k h h' → Obj σ l g g' → (h = g ↔ h' = g')
  /-- objects that stand for each other are alike -/
  view {σ : S} {k : Kind} {h h' : Handle} : Obj σ k h h' → ∃ s s', (left σ).heap.slot? h = some s ∧
    (right σ).heap.slot? h' = some s' ∧ s.cell.Like (Obj σ) s'.cell ∧ s.text = s'.text ∧ s.cell.kind = k
  kept_error {σ : S} {h h' : Handle} {e e' : ErrorObject} : Kept σ .error h h' → (left σ).cell? h = some (.error e) →
    (right σ).cell? h' = some (.error e') → e.Like (Kept σ) e'
  kept_function {σ : S} {h h' : Handle} {f f' : Function} : Kept σ .function h h' → (left σ).cell? h = some (.function f) →
    (right σ).cell? h' = some (.function f') → f.Like (Kept σ) f' ∧
    (∀ list outer, f.body = .forms list outer → Runnable σ list) ∧
    ∀ p special, f.body = .primitive p special → p.Suits special
  kept_text {σ : S} {h h' : Handle} {s s' : Slot} {a a' d d' : Value} : Kept σ .cons h h' → Runnable σ (.cons h) →
    (left σ).heap.slot? h = some s → s.cell = .cons a d → (right σ).heap.slot? h' = some s' → s'.cell = .cons a' d' →
    (a.Like (Kept σ) a' ∧ Runnable σ a) ∧ d.Like (Kept σ) d' ∧ Runnable σ d

namespace Simulation

variable {S : Type} [Simulation S]

/-- values that stand for each other now -/
def Live (σ : S) (v v' : Value) : Prop := v.Like (Obj σ) v'

/-- values that stand for each other for good -/
def Val (σ : S) (v v' : Value) : Prop := v.Like (Kept σ) v'

/-- forms that stand for each other for good -/
def Code (σ : S) (v v' : Value) : Prop := Val σ v v' ∧ Runnable σ v

/-- a result: values, or references to places -/
def Result (σ : S) (v v' : Value) : Prop := Val σ v v' ∨ Placed σ v v'

/-- errors that stand for each other for good -/
structure Err (σ : S) (e e' : HeldError) : Prop where
  kept : Kept σ .error e.handle e'.handle
  kind : e.kind = e'.kind
  object : ∃ text, ((left σ).heap.slot? e.handle).map Slot.label = some (e.serial, text, .error)
  object' : ∃ text, ((right σ).heap.slot? e'.handle).map Slot.label = some (e'.serial, text, .error)

/-- an error that carries neither an object nor a value -/
structure Bare (c : Cause) : Prop where
  object : ∀ e, c ≠ .object e
  list : ∀ list, c ≠ .improperList list
  lost : c ≠ .lostError

inductive Cause.Like (σ : S) : Cause → Cause → Prop where
  | object {e e' : HeldError} : Err σ e e' → Like σ (.object e) (.object e')
  | bare {c : Cause} : Bare c → Like σ c c

inductive Failure.Like (σ : S) : Failure → Failure → Prop where
  | raised {c c' : Cause} : Cause.Like σ c c' → Like σ (.raised c) (.raised c')
  | fault {f : Fault} : Common S f → Like σ (.fault f) (.fault f)
  | outOfFuel : Like σ .outOfFuel .outOfFuel

/-- alike failures, or lists that are improper on both sides; such a failure carries its list only until it is made into an
error object -/
inductive Failure.Loose (σ : S) : Failure → Failure → Prop where
  | like {e e' : Failure} : Failure.Like σ e e' → Loose σ e e'
  | improperList {list list' : Value} :
      Val σ list list' → Loose σ (.raised (.improperList list)) (.raised (.improperList list'))

/-! ## What stays -/

/-- what is kept in the first situation is kept in the second -/
structure Later (σ τ : S) : Prop where
  kept {k : Kind} {h h' : Handle} : Kept σ k h h' → Kept τ k h h'
  placed {r r' : Value} : Placed σ r r' → Placed τ r r'
  runnable {v v' : Value} : v.Like (Kept σ) v' → Runnable σ v → Runnable τ v
  label {k : Kind} {h h' : Handle} : Kept σ k h h' →
    ((left τ).heap.slot? h).map Slot.label = ((left σ).heap.slot? h).map Slot.label ∧
    ((right τ).heap.slot? h').map Slot.label = ((right σ).heap.slot? h').map Slot.label

namespace Later

variable {σ τ υ : S}

theorem refl (σ : S) : Later σ σ := ⟨id, id, fun _ => id, fun _ => ⟨rfl, rfl⟩⟩

theorem trans (h₁ : Later σ τ) (h₂ : Later τ υ) : Later σ υ where
  kept hk := h₂.kept (h₁.kept hk)
  placed hp := h₂.placed (h₁.placed hp)
  runnable hv hr := h₂.runnable (hv.mono fun _ _ _ => h₁.kept) (h₁.runnable hv hr)
  label hk :=
    ⟨(h₂.label (h₁.kept hk)).1.trans (h₁.label hk).1, (h₂.label (h₁.kept hk)).2.trans (h₁.label hk).2⟩

theorem of_balanced (h : Balanced σ τ) : Later σ τ := 
  ⟨kept_balanced h, placed_balanced h, runnable_balanced h, label_balanced h⟩

theorem of_quiet (h : Quiet σ τ) : Later σ τ := of_balanced (balanced_of_quiet h)

end Later

section

variable {σ τ : S} (hle : Later σ τ)
include hle

theorem Val.later {v v' : Value} (hv : Val σ v v') : Val τ v v' := hv.mono fun _ _ _ => hle.kept

theorem Code.later {v v' : Value} (hv : Code σ v v') : Code τ v v' := ⟨hv.1.later hle, hle.runnable hv.1 hv.2⟩

theorem Result.later {v v' : Value} (hv : Result σ v v') : Result τ v v' := hv.imp (Val.later hle) hle.placed

theorem Err.later {e e' : HeldError} (he : Err σ e e') : Err τ e e' where
  kept := hle.kept he.kept
  kind := he.kind
  object := by rw [(hle.label he.kept).1]; exact he.object
  object' := by rw [(hle.label he.kept).2]; exact he.object'

theorem Cause.Like.later {c c' : Cause} (hc : Cause.Like σ c c') : Cause.Like τ c c' := by
  cases hc with
  | object he => exact .object (he.later hle)
  | bare hc => exact .bare hc

theorem Failure.Like.later {e e' : Failure} (he : Failure.Like σ e e') : Failure.Like τ e e' := by
  cases he with
  | raised hc => exact .raised (hc.later hle)
  | fault hf => exact .fault hf
  | outOfFuel => exact .outOfFuel

end

theorem Val.live {σ : S} {v v' : Value} (hv : Val σ v v') : Live σ v v' := hv.mono fun _ _ _ => obj_of_kept

theorem Live.quiet {σ τ : S} {v v' : Value} (hq : Quiet σ τ) (hv : Live σ v v') : Live τ v v' :=
  hv.mono fun _ _ _ => obj_quiet hq

/-! ## Running in step -/

/-- an event after which nothing is promised is in a journal -/
def Spoilt (S : Type) [Simulation S] (m m' : Machine) : Prop :=
  (∃ e ∈ m.journal, spoils (S := S) e) ∨ ∃ e ∈ m'.journal, spoils' (S := S) e

/-- two runs end in the machines of a situation, with results that `Q` relates or failures that `F` relates -/
inductive Ends {α β : Type} (F : S → Failure → Failure → Prop) (τ : S) (Q : S → α → β → Prop) :
    Outcome α → Outcome β → Prop where
  | ok {a : α} {b : β} : Q τ a b → Ends F τ Q (.ok a (left τ)) (.ok b (right τ))
  | error {e e' : Failure} : F τ e e' → Ends F τ Q (.error e (left τ)) (.error e' (right τ))

/-- two actions run in step to a situation that `R` allows -/
def InStep {α β : Type} (R : S → S → Prop) (F : S → Failure → Failure → Prop) (σ : S) (x : Act α) (y : Act β)
    (Q : S → α → β → Prop) : Prop :=
  Spoilt S (Outcome.machine (x.run (left σ))) (Outcome.machine (y.run (right σ))) ∨
    ∃ τ, R σ τ ∧ Ends F τ Q (x.run (left σ)) (y.run (right σ))

/-- two actions run in step and leave what they have entered -/
abbrev Sim {α β : Type} (σ : S) (x : Act α) (y : Act β) (Q : S → α → β → Prop) : Prop :=
  InStep Balanced Failure.Like σ x y Q

/-- the same for actions that may come upon improper lists -/
abbrev LooseSim {α β : Type} (σ : S) (x : Act α) (y : Act β) (Q : S → α → β → Prop) : Prop :=
  InStep Balanced Failure.Loose σ x y Q

/-- two actions run in step and lose nothing -/
abbrev QuietSim {α β : Type} (σ : S) (x : Act α) (y : Act β) (Q : S → α → β → Prop) : Prop :=
  InStep Quiet Failure.Like σ x y Q

/-- journals only grow, so what is spoilt stays so -/
theorem Spoilt.grow {m₁ m₁' m₂ m₂' : Machine} (h : Spoilt S m₁ m₁') (hm : m₁.journal <:+ m₂.journal)
    (hm' : m₁'.journal <:+ m₂'.journal) : Spoilt S m₂ m₂' := by
  rcases h with ⟨e, he, hs⟩ | ⟨e, he, hs⟩
  · exact .inl ⟨e, hm.subset he, hs⟩
  · exact .inr ⟨e, hm'.subset he, hs⟩

/-- what a sequence leaves is at least what its first part leaves -/
theorem bind_grows {α β : Type} (x : Act α) (f : α → Act β) (m : Machine) :
    (Outcome.machine (x.run m)).journal <:+ (Outcome.machine ((x >>= f).run m)).journal := by
  rw [Act.run_bind]
  cases x.run m with
  | ok a m => exact (f a).grows m
  | error e m => exact List.suffix_rfl

/-- what is observed leaves what it leaves otherwise -/
theorem observe_grows {α : Type} (x : Act α) (m : Machine) :
    (Outcome.machine (x.run m)).journal <:+ (Outcome.machine ((Act.observe x).run m)).journal := by
  rw [Act.run_observe]
  cases x.run m <;> exact List.suffix_rfl

/-- a failure, or its absence, as a value -/
inductive Observed {α β : Type} (F : S → Failure → Failure → Prop) (Q : S → α → β → Prop) (τ : S) :
    Except Failure α → Except Failure β → Prop where
  | ok {a : α} {b : β} : Q τ a b → Observed F Q τ (.ok a) (.ok b)
  | error {e e' : Failure} : F τ e e' → Observed F Q τ (.error e) (.error e')

/-- an ordinary error, or its absence, as a value -/
inductive Attempted {α β : Type} (F : S → Failure → Failure → Prop) (Q : S → α → β → Prop) (τ : S) :
    Except Cause α → Except Cause β → Prop where
  | ok {a : α} {b : β} : Q τ a b → Attempted F Q τ (.ok a) (.ok b)
  | error {c c' : Cause} : F τ (.raised c) (.raised c') → Attempted F Q τ (.error c) (.error c')

namespace InStep

variable {α β γ δ : Type} {R : S → S → Prop} {F : S → Failure → Failure → Prop} {σ : S} {Q : S → α → β → Prop}

theorem pure (hR : R σ σ) {a : α} {b : β} (h : Q σ a b) : InStep R F σ (pure a) (pure b) Q := .inr ⟨σ, hR, .ok h⟩

theorem throw (hR : R σ σ) {e e' : Failure} (h : F σ e e') : InStep R F σ (throw e) (throw e') Q :=
  .inr ⟨σ, hR, .error h⟩

theorem mono {R' : S → S → Prop} {F' : S → Failure → Failure → Prop} {Q' : S → α → β → Prop} {x : Act α} {y : Act β}
    (h : InStep R F σ x y Q) (hR : ∀ τ, R σ τ → R' σ τ) (hF : ∀ τ e e', R σ τ → F τ e e' → F' τ e e')
    (hQ : ∀ τ a b, R σ τ → Q τ a b → Q' τ a b) : InStep R' F' σ x y Q' := by
  rcases h with hs | ⟨τ, hτ, hend⟩
  · exact .inl hs
  · refine .inr ⟨τ, hR τ hτ, ?_⟩
    generalize x.run (left σ) = r, y.run (right σ) = r' at hend ⊢
    cases hend with
    | ok h => exact .ok (hQ τ _ _ hτ h)
    | error h => exact .error (hF τ _ _ hτ h)

/-- a sequence; what its second part leads to is compared with the start of the first -/
theorem bind {R' : S → S → Prop} {x : Act α} {y : Act β} {f : α → Act γ} {g : β → Act δ} {Q' : S → γ → δ → Prop}
    (h : InStep R F σ x y Q) (hR : ∀ τ, R σ τ → R' σ τ)
    (hf : ∀ τ a b, R σ τ → Q τ a b → InStep (fun _ υ => R' σ υ) F τ (f a) (g b) Q') :
    InStep R' F σ (x >>= f) (y >>= g) Q' := by
  rcases h with hs | ⟨τ, hτ, hend⟩
  · exact .inl (hs.grow (bind_grows x f _) (bind_grows y g _))
  · unfold InStep
    rw [Act.run_bind, Act.run_bind]
    generalize x.run (left σ) = r, y.run (right σ) = r' at hend
    cases hend with
    | ok h =>
      rcases hf τ _ _ hτ h with hs | ⟨υ, hυ, hend⟩
      · exact .inl hs
      · exact .inr ⟨υ, hυ, hend⟩
    | error h => exact .inr ⟨τ, hR τ hτ, .error h⟩

/-- a sequence whose first part does not fail -/
theorem bindSure {R' : S → S → Prop} {x : Act α} {y : Act β} {f : α → Act γ} {g : β → Act δ} {Q' : S → γ → δ → Prop}
    (h : InStep R (fun _ _ _ => False) σ x y Q)
    (hf : ∀ τ a b, R σ τ → Q τ a b → InStep (fun _ υ => R' σ υ) F τ (f a) (g b) Q') :
    InStep R' F σ (x >>= f) (y >>= g) Q' := by
  rcases h with hs | ⟨τ, hτ, hend⟩
  · exact .inl (hs.grow (bind_grows x f _) (bind_grows y g _))
  · unfold InStep
    rw [Act.run_bind, Act.run_bind]
    generalize x.run (left σ) = r, y.run (right σ) = r' at hend
    cases hend with
    | ok h => exact hf τ _ _ hτ h
    | error h => exact h.elim

/-- an observed action does not fail -/
theorem observe {G : S → Failure → Failure → Prop} {x : Act α} {y : Act β} (h : InStep R F σ x y Q) :
    InStep R G σ (Act.observe x) (Act.observe y) (Observed F Q) := by
  rcases h with hs | ⟨τ, hτ, hend⟩
  · exact .inl (hs.grow (observe_grows x _) (observe_grows y _))
  · unfold InStep
    rw [Act.run_observe, Act.run_observe]
    generalize x.run (left σ) = r, y.run (right σ) = r' at hend
    cases hend with
    | ok h => exact .inr ⟨τ, hτ, .ok (.ok h)⟩
    | error h => exact .inr ⟨τ, hτ, .ok (.error h)⟩

/-- two sequences of which the first parts are known to succeed -/
theorem after {τ : S} {x : Act α} {y : Act β} {a : α} {b : β} (hx : x.run (left σ) = .ok a (left τ))
    (hy : y.run (right σ) = .ok b (right τ)) {f : α → Act γ} {g : β → Act δ} {Q' : S → γ → δ → Prop}
    (h : InStep (fun _ υ => R σ υ) F τ (f a) (g b) Q') : InStep R F σ (x >>= f) (y >>= g) Q' := by
  unfold InStep
  rw [Act.bind_ok hx, Act.bind_ok hy]
  exact h

/-- two sequences that go on whatever comes of their first parts -/
theorem observing {R' : S → S → Prop} {G : S → Failure → Failure → Prop} {x : Act α} {y : Act β}
    {f : Except Failure α → Act γ} {g : Except Failure β → Act δ} {Q' : S → γ → δ → Prop} (h : InStep R F σ x y Q)
    (hf : ∀ τ r r', R σ τ → Observed F Q τ r r' → InStep (fun _ υ => R' σ υ) G τ (f r) (g r') Q') :
    InStep R' G σ (Act.observe x >>= f) (Act.observe y >>= g) Q' := by
  rcases observe (G := G) h with hs | ⟨τ, hτ, hend⟩
  · exact .inl (hs.grow (bind_grows _ f _) (bind_grows _ g _))
  · rw [Act.run_observe, Act.run_observe] at hend
    unfold InStep
    rw [Act.run_bind, Act.run_bind, Act.run_observe, Act.run_observe]
    generalize x.run (left σ) = r, y.run (right σ) = r' at hend
    cases r <;> cases r' <;> cases hend <;> exact hf τ _ _ hτ ‹_›

/-- after an attempt only faults and the end of the fuel go on -/
theorem attempted (hF : ∀ τ e e', F τ e e' → Failure.Loose τ e e') {x : Act α} {y : Act β} (h : InStep R F σ x y Q) :
    InStep R Failure.Like σ (Act.attempt x) (Act.attempt y) (Attempted F Q) := by
  unfold Act.attempt
  refine bind (observe h) (fun _ => id) fun τ r r' hτ hr => ?_
  cases hr with
  | ok h => exact pure hτ (.ok h)
  | error h =>
    cases hF _ _ _ h with
    | improperList _ => exact pure hτ (.error h)
    | like hl =>
      cases hl with
      | raised _ => exact pure hτ (.error h)
      | fault hf => exact throw hτ (.fault hf)
      | outOfFuel => exact throw hτ .outOfFuel

/-- an attempt at what fails with ordinary errors only does not fail -/
theorem attemptedSure {G : S → Failure → Failure → Prop} (hF : ∀ τ e e', F τ e e' → ∃ c c', e = .raised c ∧ e' = .raised c')
    {x : Act α} {y : Act β} (h : InStep R F σ x y Q) : InStep R G σ (Act.attempt x) (Act.attempt y) (Attempted F Q) := by
  unfold Act.attempt
  refine bindSure (observe h) fun τ r r' hτ hr => ?_
  cases hr with
  | ok h => exact pure hτ (.ok h)
  | error h =>
    obtain ⟨c, c', rfl, rfl⟩ := hF _ _ _ h
    exact pure hτ (.error h)

theorem settle (hR : R σ σ) {r : Except Failure α} {r' : Except Failure β} (h : Observed F Q σ r r') :
    InStep R F σ (Act.settle r) (Act.settle r') Q := by
  cases h with
  | ok h => exact pure hR h
  | error h => exact throw hR h

end InStep

/-- both actions succeed -/
theorem done {α β : Type} {R : S → S → Prop} {F : S → Failure → Failure → Prop} {σ : S} {Q : S → α → β → Prop} (τ : S)
    (hR : R σ τ) {x : Act α} {y : Act β} {a : α} {b : β} (hx : x.run (left σ) = .ok a (left τ))
    (hy : y.run (right σ) = .ok b (right τ)) (hQ : Q τ a b) : InStep R F σ x y Q :=
  .inr ⟨τ, hR, by rw [hx, hy]; exact .ok hQ⟩

/-- both actions fail -/
theorem failed {α β : Type} {R : S → S → Prop} {F : S → Failure → Failure → Prop} {σ : S} {Q : S → α → β → Prop} (τ : S)
    (hR : R σ τ) {x : Act α} {y : Act β} {e e' : Failure} (hx : x.run (left σ) = .error e (left τ))
    (hy : y.run (right σ) = .error e' (right τ)) (hF : F τ e e') : InStep R F σ x y Q :=
  .inr ⟨τ, hR, by rw [hx, hy]; exact .error hF⟩

/-! ## Running in step and leaving what was entered -/

section

variable {α β γ δ : Type} {F : S → Failure → Failure → Prop} {σ : S} {Q : S → α → β → Prop}

namespace InStep

/-- two sequences of balanced actions -/
theorem andBind {x : Act α} {y : Act β} {f : α → Act γ} {g : β → Act δ} {Q' : S → γ → δ → Prop}
    (h : InStep Balanced F σ x y Q)
    (hf : ∀ τ a b, Later σ τ → Q τ a b → InStep Balanced F τ (f a) (g b) Q') :
    InStep Balanced F σ (x >>= f) (y >>= g) Q' :=
  bind h (fun _ => id) fun τ a b hτ hQ =>
    mono (hf τ a b (.of_balanced hτ) hQ) (fun _ => balanced_trans hτ) (fun _ _ _ _ => id) fun _ _ _ _ => id

/-- both actions only look -/
theorem read {x : Act α} {y : Act β} {a : α} {b : β} (hx : x.run (left σ) = .ok a (left σ))
    (hy : y.run (right σ) = .ok b (right σ)) (h : Q σ a b) : InStep Balanced F σ x y Q := by
  refine .inr ⟨σ, balanced_refl σ, ?_⟩
  rw [hx, hy]
  exact .ok h

/-- both machines are looked at -/
theorem get {R : S → S → Prop} {f : Machine → Act α} {g : Machine → Act β}
    (h : InStep R F σ (f (left σ)) (g (right σ)) Q) :
    InStep R F σ (MonadState.get >>= f) (MonadState.get >>= g) Q := h

end InStep

namespace Sim

theorem pure {a : α} {b : β} (h : Q σ a b) : Sim σ (pure a) (pure b) Q := InStep.pure (balanced_refl σ) h

theorem throw {e e' : Failure} (h : Failure.Like σ e e') : Sim σ (throw e) (throw e') Q :=
  InStep.throw (balanced_refl σ) h

theorem raise {c c' : Cause} (h : Cause.Like σ c c') : Sim σ (Act.raise c) (Act.raise c') Q := throw (.raised h)

theorem fault {f : Fault} (h : ∀ h k, f ≠ .freed h k) (he : f ≠ .exhausted) : Sim σ (Act.fault f) (Act.fault f) Q :=
  throw (.fault (common h he))

theorem mono {Q' : S → α → β → Prop} {x : Act α} {y : Act β} (h : Sim σ x y Q)
    (hQ : ∀ τ a b, Later σ τ → Q τ a b → Q' τ a b) : Sim σ x y Q' :=
  InStep.mono h (fun _ => id) (fun _ _ _ _ => id) fun τ a b hτ => hQ τ a b (.of_balanced hτ)

theorem of_quiet {x : Act α} {y : Act β} (h : QuietSim σ x y Q) : Sim σ x y fun τ a b => Quiet σ τ ∧ Q τ a b :=
  InStep.mono h (fun _ => balanced_of_quiet) (fun _ _ _ _ => id) fun _ _ _ => And.intro

theorem bind {x : Act α} {y : Act β} {f : α → Act γ} {g : β → Act δ} {Q' : S → γ → δ → Prop} (h : Sim σ x y Q)
    (hf : ∀ τ a b, Later σ τ → Q τ a b → Sim τ (f a) (g b) Q') : Sim σ (x >>= f) (y >>= g) Q' := InStep.andBind h hf

/-- both machines are looked at -/
theorem get {f : Machine → Act α} {g : Machine → Act β} (h : Sim σ (f (left σ)) (g (right σ)) Q) :
    Sim σ (MonadState.get >>= f) (MonadState.get >>= g) Q := h

/-- both actions only look -/
theorem read {x : Act α} {y : Act β} {a : α} {b : β} (hx : x.run (left σ) = .ok a (left σ))
    (hy : y.run (right σ) = .ok b (right σ)) (h : Q σ a b) : Sim σ x y Q := InStep.read hx hy h

theorem observe {x : Act α} {y : Act β} (h : Sim σ x y Q) :
    Sim σ (Act.observe x) (Act.observe y) (Observed Failure.Like Q) := InStep.observe h

theorem settle {r : Except Failure α} {r' : Except Failure β} (h : Observed Failure.Like Q σ r r') :
    Sim σ (Act.settle r) (Act.settle r') Q := InStep.settle (balanced_refl σ) h

theorem attempted (hF : ∀ τ e e', F τ e e' → Failure.Loose τ e e') {x : Act α} {y : Act β}
    (h : InStep Balanced F σ x y Q) : Sim σ (Act.attempt x) (Act.attempt y) (Attempted F Q) := InStep.attempted hF h

theorem attempt {x : Act α} {y : Act β} (h : Sim σ x y Q) :
    Sim σ (Act.attempt x) (Act.attempt y) (Attempted Failure.Like Q) := attempted (fun _ _ _ => .like) h

/-- an action and another after it, whose run leaves what is known of the result -/
theorem andThen {x : Act α} {y : Act β} {after after' : Act Unit} (h : Sim σ x y Q)
    (hafter : ∀ τ, Later σ τ → Sim τ after after' fun _ _ _ => True)
    (hQ : ∀ τ υ a b, Later τ υ → Q τ a b → Q υ a b) : Sim σ (Act.andThen x after) (Act.andThen y after') Q := by
  unfold Act.andThen
  refine (observe h).bind fun τ r r' hτ hr => (hafter τ hτ).bind fun υ _ _ hυ _ => settle ?_
  cases hr with
  | ok h => exact .ok (hQ τ υ _ _ hυ h)
  | error h => exact .error (h.later hυ)

end Sim

/-! ## Running in step and losing nothing -/

namespace QuietSim

theorem pure {a : α} {b : β} (h : Q σ a b) : QuietSim σ (pure a) (pure b) Q := InStep.pure (quiet_refl σ) h

theorem throw {e e' : Failure} (h : Failure.Like σ e e') : QuietSim σ (throw e) (throw e') Q :=
  InStep.throw (quiet_refl σ) h

theorem fault {f : Fault} (h : ∀ h k, f ≠ .freed h k) (he : f ≠ .exhausted) : QuietSim σ (Act.fault f) (Act.fault f) Q :=
  throw (.fault (common h he))

theorem get {f : Machine → Act α} {g : Machine → Act β} (h : QuietSim σ (f (left σ)) (g (right σ)) Q) :
    QuietSim σ (MonadState.get >>= f) (MonadState.get >>= g) Q := h

theorem sim {x : Act α} {y : Act β} (h : QuietSim σ x y Q) : Sim σ x y Q :=
  InStep.mono h (fun _ => balanced_of_quiet) (fun _ _ _ _ => id) fun _ _ _ _ => id

theorem bind {x : Act α} {y : Act β} {f : α → Act γ} {g : β → Act δ} {Q' : S → γ → δ → Prop} (h : QuietSim σ x y Q)
    (hf : ∀ τ a b, Quiet σ τ → Q τ a b → QuietSim τ (f a) (g b) Q') : QuietSim σ (x >>= f) (y >>= g) Q' :=
  InStep.bind h (fun _ => id) fun τ a b hτ hQ =>
    InStep.mono (hf τ a b hτ hQ) (fun _ => quiet_trans hτ) (fun _ _ _ _ => id) fun _ _ _ _ => id

end QuietSim

/-! ## Improper lists -/

namespace LooseSim

theorem of_sim {x : Act α} {y : Act β} (h : Sim σ x y Q) : LooseSim σ x y Q :=
  InStep.mono h (fun _ => id) (fun _ _ _ _ => .like) fun _ _ _ _ => id

theorem bind {x : Act α} {y : Act β} {f : α → Act γ} {g : β → Act δ} {Q' : S → γ → δ → Prop} (h : LooseSim σ x y Q)
    (hf : ∀ τ a b, Later σ τ → Q τ a b → LooseSim τ (f a) (g b) Q') : LooseSim σ (x >>= f) (y >>= g) Q' :=
  InStep.andBind h hf

theorem pure {a : α} {b : β} (h : Q σ a b) : LooseSim σ (pure a) (pure b) Q := of_sim (.pure h)

theorem raise {c c' : Cause} (h : Cause.Like σ c c') : LooseSim σ (Act.raise c) (Act.raise c') Q := of_sim (.raise h)

end LooseSim

end

end Simulation

end LispMachine
