/-
Actions that build.

Whatever else an action does, most of what it is made of looks at objects, makes new ones that are no scopes, pins them and notes
what has happened. `Act.Obeys` says of an action that it leads only where a relation on machines allows, from wherever it starts
and however it ends. An action that does nothing but build obeys every relation that allows building (`Machine.AllowsBuilding`).

Here are the actions that build: those that look at objects, walk lists, print, make errors and take lists of parameters and
arguments apart. Each is shown to obey from the actions that it is made of; that is left to instances, and only choices are taken
apart by hand.
-/
import LispMachine.Eval.Core
import LispMachine.Proofs.Bookkeeping
import LispMachine.Proofs.Nesting

namespace LispMachine

namespace Machine

/-- a relation that holds between what is before and after a run that does nothing but build -/
class AllowsBuilding (R : Machine → Machine → Prop) : Prop where
  refl (m : Machine) : R m m
  trans {m m' m'' : Machine} : R m m' → R m' m'' → R m m''
  noted (m : Machine) (e : Event) : R m { m with journal := e :: m.journal }
  pinned (m : Machine) (th : ThreadId) (f : Array Value → Array Value) : R m (m.onThread th fun t => { t with pins := f t.pins })
  allocate (m : Machine) (c : Cell) (text : Bool) : c.kind ≠ .symbol → c.kind ≠ .scope → m.heap.isFull = false →
    R m { m with heap := m.heap.insert c m.collector.epoch text }
  intern (m : Machine) (name : String) : m.symbols.lookup name = none → m.heap.isFull = false →
    R m { m with heap := m.heap.insert (.symbol name) m.collector.epoch false,
                 symbols := (name, m.heap.nextHandle) :: m.symbols }

instance : AllowsBuilding fun _ _ => True := by constructor <;> intros <;> trivial

end Machine

namespace Act

open Machine

variable {R : Machine → Machine → Prop} {α β : Type} {th : ThreadId}

/-- an action that leads only where a relation allows, wherever it starts and however it ends -/
class Obeys (R : Machine → Machine → Prop) (x : Act α) : Prop where
  leads (m : Machine) : R m (Outcome.machine (x.run m))

variable [hR : AllowsBuilding R]

namespace Obeys

variable {x : Act α} {f : α → Act β}

instance pure (a : α) : Obeys R (pure a : Act α) := ⟨hR.refl⟩

instance get : Obeys R (get : Act Machine) := ⟨hR.refl⟩

instance throw (e : Failure) : Obeys R (throw e : Act α) := ⟨hR.refl⟩

instance raise (c : Cause) : Obeys R (raise c : Act α) := ⟨hR.refl⟩

instance fault (f : Fault) : Obeys R (fault f : Act α) := ⟨hR.refl⟩

instance note (e : Event) : Obeys R (note e) := ⟨fun m => hR.noted m e⟩

instance bind [hx : Obeys R x] [hf : ∀ a, Obeys R (f a)] : Obeys R (x >>= f) where
  leads m := by
    have h := hx.leads m
    rw [run_bind]
    cases hr : x.run m with
    | ok a m' => rw [hr] at h; exact hR.trans h ((hf a).leads m')
    | error e m' => rw [hr] at h; exact h

/-- an action is followed by one that depends on its result -/
theorem next [Obeys R x] (hf : ∀ a, Obeys R (f a)) : Obeys R (x >>= f) := inferInstance

instance ite {c : Prop} [Decidable c] {y : Act α} [Obeys R x] [Obeys R y] : Obeys R (if c then x else y) := by
  split <;> infer_instance

instance observe [hx : Obeys R x] : Obeys R (observe x) where
  leads m := by
    have h := hx.leads m
    rw [run_observe]
    cases hr : x.run m <;> rw [hr] at h <;> exact h

instance settle (r : Except Failure α) : Obeys R (settle r) := by
  cases r <;> unfold Act.settle <;> infer_instance

instance andThen {after : Act Unit} [Obeys R x] [Obeys R after] : Obeys R (andThen x after) := by
  unfold Act.andThen
  infer_instance

instance onFailure {after : Act Unit} [Obeys R x] [Obeys R after] : Obeys R (onFailure x after) := by
  unfold Act.onFailure
  exact next fun r => by cases r <;> infer_instance

instance attempt [Obeys R x] : Obeys R (attempt x) := by
  unfold Act.attempt
  exact next fun r => by split <;> infer_instance

end Obeys

/-! ## Objects -/

/-- a symbol is made under its name, and a scope is not made without a use for it -/
theorem Obeys.allocate {c : Cell} (hsymbol : c.kind ≠ .symbol) (hscope : c.kind ≠ .scope) (text : Bool) :
    Obeys R (allocate c text) where
  leads m := by
    rw [run_allocate]
    cases hfull : m.heap.isFull with
    | true => exact hR.noted m _
    | false => exact hR.allocate m c text hsymbol hscope hfull

instance (a d : Value) (text : Bool) : Obeys R (allocate (.cons a d) text) := .allocate (by simp [Cell.kind]) (by simp [Cell.kind]) text

instance (v : Value) : Obeys R (allocate (.box v)) := .allocate (by simp [Cell.kind]) (by simp [Cell.kind]) false

instance (f : Function) : Obeys R (allocate (.function f)) := .allocate (by simp [Cell.kind]) (by simp [Cell.kind]) false

instance (e : ErrorObject) : Obeys R (allocate (.error e)) := .allocate (by simp [Cell.kind]) (by simp [Cell.kind]) false

instance (name : String) : Obeys R (intern name) where
  leads m := by
    cases hs : m.symbols.lookup name with
    | some h => rw [run_intern_known hs]; exact hR.refl m
    | none =>
      rw [run_intern_new hs]
      cases hfull : m.heap.isFull with
      | true => exact hR.noted m _
      | false => exact hR.intern m name hs hfull

instance (name : String) : Obeys R (symbol name) := by
  unfold symbol
  infer_instance

/-- pins come and go -/
theorem Obeys.pins (f : Array Value → Array Value) :
    Obeys R (modify fun m => m.onThread th fun t => { t with pins := f t.pins } : Act PUnit) := ⟨fun m => hR.pinned m th f⟩

instance (v : Value) : Obeys R (pin th v) := by
  have : Obeys R (modify fun m => m.onThread th fun t => { t with pins := t.pins.push v } : Act PUnit) := .pins (·.push v)
  unfold pin
  infer_instance

instance : Obeys R (pinCount th) := by
  unfold pinCount
  infer_instance

instance (mark : Nat) (keep : List Value) : Obeys R (unpinTo th mark keep) :=
  .pins fun pins => pins.shrink mark ++ (keep.filter Value.needsPin).toArray

instance (text : Bool) (a d : Value) : Obeys R (newPair th text a d) := by
  unfold newPair allocatePinned
  infer_instance

instance (a d : Value) : Obeys R (newCons th a d) := by
  unfold newCons
  infer_instance

instance (v : Value) : Obeys R (newBox th v) := by
  unfold newBox allocatePinned
  infer_instance

instance (text : Bool) (vs : List Value) (tail : Value) : Obeys R (consAll th text vs tail) := by
  induction vs generalizing tail <;> unfold consAll <;> infer_instance

instance (text : Bool) (items : List Value) : Obeys R (newListOf th text items) := by
  unfold newListOf
  infer_instance

instance (items : List Value) : Obeys R (newList th items) := by
  unfold newList
  infer_instance

/-! ## Looking at objects and storing into them -/

instance (v : Value) : Obeys R (resolve v) := by
  unfold resolve
  split
  · infer_instance
  · exact .next fun m => by split <;> infer_instance

instance (v : Value) : Obeys R (asCons v) := by
  unfold asCons
  split
  · exact .next fun s => by split <;> infer_instance
  · infer_instance

instance (v : Value) : Obeys R (asSymbol v) := by
  unfold asSymbol
  split
  · exact .next fun s => by split <;> infer_instance
  · infer_instance

instance (v : Value) : Obeys R (asScope v) := by
  unfold asScope
  split
  · exact .next fun s => by split <;> infer_instance
  · infer_instance

instance (v : Value) : Obeys R (asFunction v) := by
  unfold asFunction
  split
  · exact .next fun s => by split <;> infer_instance
  · infer_instance

instance (v : Value) : Obeys R (asBox v) := by
  unfold asBox
  split
  · exact .next fun s => by split <;> infer_instance
  · infer_instance

instance (v : Value) : Obeys R (asErrorObject v) := by
  unfold asErrorObject
  split
  · exact .next fun s => by split <;> infer_instance
  · infer_instance

instance (c : Held) : Obeys R (fieldsOf c) := by
  unfold fieldsOf
  infer_instance

instance (c : Held) : Obeys R (carOf c) := by
  unfold carOf
  infer_instance

instance (c : Held) : Obeys R (cdrOf c) := by
  unfold cdrOf
  infer_instance

instance (v : Value) : Obeys R (keep v) := by
  unfold keep
  infer_instance

instance (vs : List Value) : Obeys R (keepAll vs) := by
  induction vs <;> unfold keepAll <;> infer_instance

instance (k : Saved) : Obeys R (retrieve k) := by
  unfold retrieve
  infer_instance

instance (p : Place) : Obeys R (look p) := by
  unfold look
  infer_instance

instance (v : Value) : Obeys R (deref v) := by
  unfold deref
  split <;> infer_instance

instance (v : Value) : Obeys R (derefPinned th v) := by
  unfold derefPinned
  infer_instance

instance (n : Nat) (v : Value) : Obeys R (derefAllWithin n v) := by
  induction n generalizing v with
  | zero => exact .fault _
  | succ n ih =>
    unfold derefAllWithin
    split <;> infer_instance

instance (v : Value) : Obeys R (derefAll v) := by
  unfold derefAll
  infer_instance

instance (p : Place) : Obeys R (missing p) := by
  unfold missing
  infer_instance

instance (v : Value) : Obeys R (numberOf v) := by
  unfold numberOf
  split <;> infer_instance

/-! ## Lists -/

instance (f : α → Value → α) (n : Nat) (second : Bool) (slow cur : Value) (acc : α) : Obeys R (walkFrom f n second slow cur acc) := by
  induction n generalizing second slow cur acc with
  | zero => cases cur <;> simp only [walkFrom] <;> infer_instance
  | succ n ih =>
    cases cur with
    | nil => simp only [walkFrom]; infer_instance
    | _ =>
      simp only [walkFrom]
      refine .next fun c => ?_
      cases c with
      | none => infer_instance
      | some c =>
        refine .next fun m => ?_
        refine @Obeys.ite _ _ _ _ _ _ ?_ (ih ..)
        refine .next fun s => ?_
        cases s with
        | none => infer_instance
        | some s => exact .next fun m => @Obeys.ite _ _ _ _ _ _ inferInstance (ih ..)

instance (f : α → Value → α) (init : α) (list : Value) : Obeys R (walkList f init list) := by
  unfold walkList
  exact .next fun _ => .next fun r => by split <;> infer_instance

instance (list : Value) : Obeys R (listItems list) := by
  unfold listItems
  infer_instance

instance (list : Value) : Obeys R (listLength list) := by
  unfold listLength
  infer_instance

/-! ## Printing -/

instance (around : List Value) (v : Value) : Obeys R (Render.into around v) := by
  unfold Render.into
  infer_instance

instance (around : List Value) (v : Value) (h : Handle) (c : Cell) : Obeys R (Render.startObject m around v h c) := by
  unfold Render.startObject
  cases c <;> infer_instance

instance (around : List Value) (v : Value) : Obeys R (Render.start around v) := by
  unfold Render.start
  split
  · infer_instance
  · split
    · infer_instance
    · split
      · infer_instance
      · exact .next fun m => by split <;> infer_instance

instance (n : Nat) (job : Render.Job) (acc : List String) : Obeys R (Render.run n job acc) := by
  induction n generalizing job acc with
  | zero => exact .fault _
  | succ n ih =>
    unfold Render.run
    cases job with
    | value around v => exact .next fun r => by cases r <;> infer_instance
    | element around opened v =>
      simp only
      split
      · exact .next fun m => by split <;> infer_instance
      · infer_instance
    | list around opened h => simp only; infer_instance
    | chain around opened h =>
      refine .next fun m => ?_
      split
      · refine .next fun acc => ?_
        split
        · infer_instance
        · exact .next fun m => by split <;> infer_instance
        · infer_instance
      · infer_instance
    | parts around ps =>
      cases ps with
      | nil => exact .pure _
      | cons p ps =>
        cases p with
        | payload v => exact .next fun r => by split <;> infer_instance
        | _ => simp only; infer_instance

instance (j : Render.Job) : Obeys R (printJob j) := by
  rw [printJob_eq]
  infer_instance

instance (v : Value) : Obeys R (print v) := by
  unfold print
  infer_instance

instance (verb : String) (v : Value) : Obeys R (printIn verb v) := by
  unfold printIn
  exact .next fun r => by split <;> infer_instance

instance (e : HeldError) : Obeys R (errorMessage e) := by
  unfold errorMessage
  infer_instance

instance (c : Cause) : Obeys R (messageOf c) := by
  unfold messageOf
  split <;> infer_instance

instance (v : Value) : Obeys R (debugText v) := by
  unfold debugText
  infer_instance

/-! ## Errors -/

instance (x : ErrorObject) : Obeys R (newErrorObject th x) := by
  unfold newErrorObject
  infer_instance

instance (kind : ErrorKind) (first second : Value) : Obeys R (newError th kind first second) := by
  unfold newError
  infer_instance

instance (name : Handle) (body : Value) : Obeys R (newUserError th name body) := by
  unfold newUserError
  infer_instance

instance (wanted : String) (got : Value) : Obeys R (newTypeError th wanted got) := by
  unfold newTypeError
  infer_instance

instance (kind : ErrorKind) (first second : Value) : Obeys R (raiseError th kind first second : Act α) := by
  unfold raiseError
  infer_instance

instance (wanted : String) (got : Value) : Obeys R (raiseType th wanted got : Act α) := by
  unfold raiseType
  infer_instance

instance (c : Cause) : Obeys R (asError th c) := by
  unfold asError
  split <;> infer_instance

instance {x : Act α} [Obeys R x] : Obeys R (withErrorObjects th x) := by
  unfold withErrorObjects
  exact .next fun r => by cases r <;> infer_instance

/-! ## The scopes of a thread -/

instance : Obeys R (currentScope th) := by
  unfold currentScope
  exact .next fun m => by split <;> infer_instance

instance : Obeys R (globalScope th) := by
  unfold globalScope
  exact .next fun m => by split <;> infer_instance

/-! ## Parameters -/

instance (list : Value) (items : List Value) (p : Params) (s : Section) : Obeys R (parseItems list items p s) := by
  induction items generalizing p s with
  | nil => exact .pure _
  | cons item items ih =>
    unfold parseItems
    refine .next fun sym => ?_
    cases sym with
    | none => infer_instance
    | some sym => exact .next fun m => by split <;> infer_instance

instance (list : Value) : Obeys R (parseParams list) := by
  unfold parseParams
  infer_instance

/-! ## Arguments of forms -/

instance (v : Value) : Obeys R (symbolArg th v) := by
  unfold symbolArg
  exact .next fun r => by cases r <;> infer_instance

instance (v : Value) : Obeys R (numberArg th v) := by
  unfold numberArg
  exact .next fun r => by cases r <;> infer_instance

instance (v : Value) : Obeys R (scopeArg th v) := by
  unfold scopeArg
  exact .next fun r => by cases r <;> infer_instance

instance (v : Value) : Obeys R (listArg th v) := by
  unfold listArg
  infer_instance

instance (v : Value) : Obeys R (formsArg th v) := by
  unfold formsArg
  infer_instance

end Act

end LispMachine
