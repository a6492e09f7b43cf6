/-
Actions with two evaluators.

The primitives and the forms of a body use an evaluator for the forms inside them. What relates two evaluators often relates
the actions that use them: `Lifts` asks of a relation that it goes through sequences, handlers and clearing up, and `Tracks`
says of two actions that they are related on every machine on which the second, which is orderly, can run. Where nothing is
related, `Tracks` only says that the action is orderly.
-/
import LispMachine.Proofs.Orderly.Scopes

namespace LispMachine.Act

/-- a collection point between an action and what becomes of its result -/
def collecting (x : Act Value) (f : Value → Act Value) : Act Value := do
  let r ← attempt x
  let _ ← maybeCollect
  match r with
  | .error c => raise c
  | .ok v => f v

/-- a relation of actions on a machine that goes from two evaluators to the actions that use them -/
structure Lifts (th : ThreadId) (R : (α : Type) → Act α → Act α → Machine → Prop) (ev' ev : Evaluator) : Prop where
  refl {α : Type} (x : Act α) (m : Machine) : R α x x m
  bind {α β : Type} {x y : Act α} {f g : α → Act β} {m : Machine} :
    R α x y m → (∀ a m', y.run m = .ok a m' → R β (f a) (g a) m') → R β (x >>= f) (y >>= g) m
  withErrorObjects {α : Type} {x y : Act α} {m : Machine} :
    R α x y m → R α (withErrorObjects th x) (withErrorObjects th y) m
  andThen {α : Type} {x y : Act α} {after : Act Unit} {m : Machine} : R α x y m →
    (∀ e m', y.run m = .error e m' → after.Ends m' (fun _ m'' => Machine.Beside th m' m'') fun _ _ => False) →
    R α (andThen x after) (andThen y after) m
  eval (v : Value) (mode : Mode) (m : Machine) : R Value (ev'.eval v mode) (ev.eval v mode) m
  collecting {x y : Act Value} {f : Value → Act Value} {m : Machine} : R Value x y m →
    (∀ c m', y.run m = .error (.raised c) m' → ∃ b k, m'.Sane th b k) → R Value (collecting x f) (collecting y f) m
  catching (name : Handle) (form : Value) {body : Value} {m : Machine} : body.IsPlain →
    (∀ c m', (attempt (ev.eval form .value)).run m = .ok (.error c) m' →
      R Value (handle ev' th name body c) (handle ev th name body c) m') →
    R Value (catching ev' th name form body) (catching ev th name form body) m
  steps : ev'.steps = ev.steps

/-- where nothing is related -/
theorem Lifts.unrelated (th : ThreadId) (ev : Evaluator) : Lifts th (fun _ _ _ _ => True) ev ev where
  refl _ _ := trivial
  bind _ _ := trivial
  withErrorObjects _ := trivial
  andThen _ _ := trivial
  eval _ _ _ := trivial
  collecting _ _ := trivial
  catching _ _ _ _ _ _ := trivial
  steps := rfl

/-! ## From one machine -/

/-- the second action ends as is told, and is related to the first -/
def Abreast (R : (α : Type) → Act α → Act α → Machine → Prop) {α : Type} (x y : Act α) (m : Machine)
    (Q : α → Machine → Prop) (E : Failure → Machine → Prop) : Prop := y.Ends m Q E ∧ R α x y m

namespace Abreast

variable {R : (α : Type) → Act α → Act α → Machine → Prop} {th : ThreadId} {ev' ev : Evaluator} {α β : Type} {x y : Act α}
  {f g : α → Act β} {m : Machine} {P P' : α → Machine → Prop} {Q : β → Machine → Prop} {E E' : Failure → Machine → Prop}

theorem mono (hx : Abreast R x y m P E) (hP : ∀ a m', P a m' → P' a m') (hE : ∀ e m', E e m' → E' e m') :
    Abreast R x y m P' E' := ⟨hx.1.mono hP hE, hx.2⟩

variable (hR : Lifts th R ev' ev)
include hR

/-- an action without an evaluator -/
theorem of_ends (hx : x.Ends m P E) : Abreast R x x m P E := ⟨hx, hR.refl x m⟩

theorem bind (hx : Abreast R x y m P E) (hf : ∀ a m', P a m' → Abreast R (f a) (g a) m' Q E) :
    Abreast R (x >>= f) (y >>= g) m Q E :=
  ⟨Ends.bind hx.1 fun a m' h => (hf a m' h).1, hR.bind hx.2 fun a m' hr => (hf a m' (hx.1.ok hr)).2⟩

/-- an action without an evaluator comes first -/
theorem after (hx : x.Ends m P E) (hf : ∀ a m', P a m' → Abreast R (f a) (g a) m' Q E) :
    Abreast R (x >>= f) (x >>= g) m Q E := (of_ends hR hx).bind hR hf

end Abreast

/-! ## From every machine -/

/-- the second action is orderly, and related to the first on every machine on which it can run -/
def Tracks (R : (α : Type) → Act α → Act α → Machine → Prop) (th : ThreadId) (b : Nat) (C : Cause → Prop) {α : Type}
    (x y : Act α) (Q : α → Prop) : Prop :=
  Runs th b b C y Q ∧ ∀ m, m.Sane th b b → R α x y m

namespace Tracks

variable {R : (α : Type) → Act α → Act α → Machine → Prop} {th : ThreadId} {ev' ev : Evaluator} {b : Nat}
  {C C' : Cause → Prop} {α β : Type} {x y : Act α} {f g : α → Act β} {P P' : α → Prop} {Q : β → Prop} {m : Machine}

theorem mono (hx : Tracks R th b C x y P) (hP : ∀ a, P a → P' a) (hC : ∀ c, C c → C' c) : Tracks R th b C' x y P' :=
  ⟨hx.1.mono hP hC, hx.2⟩

theorem weaken (hx : Tracks R th b C x y P) (hP : ∀ a, P a → P' a) : Tracks R th b C x y P' := hx.mono hP fun _ => id

theorem fine (hx : Tracks R th b Cause.IsObject x y P) : Tracks R th b Cause.IsFine x y P := ⟨hx.1.fine, hx.2⟩

theorem thrown (hx : Tracks R th b Cause.IsObject x y P) : Tracks R th b Cause.IsThrown x y P := ⟨hx.1.thrown, hx.2⟩

/-- on one machine -/
theorem abreast (hx : Tracks R th b C x y P) (hm : m.Sane th b b) : Abreast R x y m
    (fun a m' => Machine.Even th b b m m' ∧ P a) (Machine.Failed th b b C m) := ⟨hx.1 m hm, hx.2 m hm⟩

theorem of_abreast (hx : ∀ m, m.Sane th b b → Abreast R x y m (fun a m' => Machine.Even th b b m m' ∧ P a)
    (Machine.Failed th b b C m)) : Tracks R th b C x y P := ⟨fun m hm => (hx m hm).1, fun m hm => (hx m hm).2⟩

variable (hR : Lifts th R ev' ev)
include hR

/-- an action without an evaluator -/
theorem of_runs (hx : Runs th b b C x P) : Tracks R th b C x x P := ⟨hx, fun m _ => hR.refl x m⟩

theorem pure {a : α} (ha : P a) : Tracks R th b C (Pure.pure a) (Pure.pure a) P := of_runs hR (.pure ha)

theorem bind (hx : Tracks R th b C x y P) (hf : ∀ a, P a → Tracks R th b C (f a) (g a) Q) :
    Tracks R th b C (x >>= f) (y >>= g) Q :=
  ⟨hx.1.bind fun a ha => (hf a ha).1, fun m hm => hR.bind (hx.2 m hm) fun a m' hr =>
    have h := (hx.1 m hm).ok hr
    (hf a h.2).2 m' (h.1.sane hm)⟩

/-- an action without an evaluator comes first -/
theorem after (hx : Runs th b b C x P) (hf : ∀ a, P a → Tracks R th b C (f a) (g a) Q) :
    Tracks R th b C (x >>= f) (x >>= g) Q := (of_runs hR hx).bind hR hf

theorem withErrorObjects (hx : Tracks R th b Cause.IsFine x y P) :
    Tracks R th b Cause.IsObject (withErrorObjects th x) (withErrorObjects th y) P :=
  ⟨runs_withErrorObjects hx.1, fun m hm => hR.withErrorObjects (hx.2 m hm)⟩

theorem inScope (hx : Tracks R th b C x y P) (h : Handle) : Tracks R th b C (inScope th h x) (inScope th h y) P :=
  ⟨runs_inScope hx.1 h, fun m hm => hR.bind (hR.refl _ m) fun _ m₁ hr => by
    obtain ⟨hw, _, hbeside⟩ := (ends_enterScope (E := fun _ _ => False) hm h).ok hr
    have hm₁ := hw.sane (.of_eq hbeside.pins) hm (by simp)
    exact hR.andThen (hx.2 m₁ hm₁) fun e m₂ he =>
      (ends_leaveScope hm (hw.trans ((hx.1 m₁ hm₁).error he).onward)).mono (fun _ _ h => h.2.2) fun _ _ h => h⟩

theorem withGlobal (hx : Tracks R th b C x y P) (h : Handle) : Tracks R th b C (withGlobal th h x) (withGlobal th h y) P :=
  ⟨runs_withGlobal hx.1 h, fun m hm => hR.bind (hR.refl _ m) fun old m₁ hr => by
    obtain ⟨⟨hw, _, hbeside⟩, hold⟩ := (ends_enterGlobal (E := fun _ _ => False) hm h).ok hr
    have hsize : 0 < ((m.thread th).scopes.setIfInBounds 0 h).size := by
      rw [Array.size_setIfInBounds]; exact hm.inside th hm.isOpen
    have hm₁ := hw.sane (.of_eq hbeside.pins) hm hsize
    exact hR.andThen (hx.2 m₁ hm₁) fun e m₂ he =>
      (ends_leaveGlobal hm hold (hw.trans ((hx.1 m₁ hm₁).error he).onward)).mono (fun _ _ h => h.2.2) fun _ _ h => h⟩

theorem withBindings (hx : Tracks R th b Cause.IsObject x y P) (syms : List Handle) {vals : List Value}
    (hvals : ∀ v ∈ vals, v.IsPlain) :
    Tracks R th b Cause.IsObject (withBindings th syms vals x) (withBindings th syms vals y) P :=
  ⟨runs_withBindings hx.1 syms hvals, fun m hm => hR.bind (hR.refl _ m) fun h m₁ hr => by
    obtain ⟨hw, hq, hheight⟩ := (ends_enterBindings hm syms hvals).ok hr
    have hm₁ := hw.sane hq hm (by simp)
    exact hR.andThen (hx.2 m₁ hm₁) fun e m₂ he => by
      have hon := ((hx.1 m₁ hm₁).error he).onward
      have := hon.height
      exact (ends_leaveBindings hm (hw.trans hon) (by omega)).mono (fun _ _ h => h.2.2) fun _ _ h => h⟩

end Tracks

end LispMachine.Act
