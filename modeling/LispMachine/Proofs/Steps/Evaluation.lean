/-
Evaluation by steps.

The primitives, the evaluator, reading and the loop go by the steps that the actions on objects go by, and so does every operation
of a host (`Command.walks`). So a settled machine is reached from the one at the start step after step (`Machine.Settled.steps`),
and the passes of such a run can be listed (`Machine.Settled.goes`).
-/
import LispMachine.Proofs.Reached
import LispMachine.Proofs.Steps

namespace LispMachine

/-- an evaluator that goes by steps -/
class Evaluator.Walks (ev : Evaluator) : Prop where
  eval (v : Value) (mode : Mode) : (ev.eval v mode).Walks

namespace Act

open Machine

variable {α β : Type} {m m' : Machine} {th : ThreadId}

/-! ## Forms and primitives -/

section Evaluating

variable {ev : Evaluator} [ev.Walks]

instance (v : Value) (mode : Mode) : Walks (ev.eval v mode) := Evaluator.Walks.eval v mode

instance (body : Value) (n : Nat) (cur res : Value) : Walks (evalBodyWithin ev th body n cur res) := by
  fun_induction evalBodyWithin ev th body n cur res with
  | case1 => infer_instance
  | case2 => infer_instance
  | case3 => exact .next fun c => by cases c <;> infer_instance

instance (body : Value) : Walks (evalBody ev th body) := by
  unfold evalBody
  infer_instance

instance (name : Option Handle) (params body : Value) (scope : Option Handle) :
    Walks (newFunction th name params body scope) := by
  unfold newFunction allocatePinned
  exact .next fun p => .next fun _ => by split <;> infer_instance

instance (name : Option Handle) (params : Value) (special : Bool) (p : Primitive) :
    Walks (newPrimitive th name params special p) := by
  unfold newPrimitive allocatePinned
  infer_instance

instance (c : Channel) (text : String) : Walks (write c text) := by
  have (f : Machine → Console) : Walks (modify fun m => { m with console := f m } : Act PUnit) :=
    .modify fun _ => ⟨rfl, rfl, le_rfl, rfl⟩
  unfold write
  exact .next fun m => by split <;> infer_instance

instance (clauses : List Saved) : Walks (condClauses ev th clauses) := by
  induction clauses with
  | nil => exact .pure _
  | cons clause clauses ih =>
    unfold condClauses
    exact .next fun v => .next fun c => by cases c <;> infer_instance

instance (args : List Value) : Walks (cond ev th args) := by
  unfold cond
  infer_instance

instance (args : List Value) : Walks (ifElse ev th args) := by
  unfold ifElse
  infer_instance

instance (args : List Value) : Walks (whenTrue ev th args) := by
  unfold whenTrue
  infer_instance

instance (args : List Value) : Walks (unlessTrue ev th args) := by
  unfold unlessTrue
  infer_instance

instance (bs : List Saved) (syms : List Handle) (vals : List Value) : Walks (letBindings ev th bs syms vals) := by
  induction bs generalizing syms vals with
  | nil => exact .pure _
  | cons b bs ih =>
    unfold letBindings
    exact .next fun v => .next fun items => by split <;> infer_instance

instance (args : List Value) : Walks (letIn ev th args) := by
  unfold letIn
  exact .next fun _ => .next fun (_, _) => inferInstance

instance (args : List Value) : Walks (lambda th args) := by
  unfold lambda
  infer_instance

instance (args : List Value) : Walks (defun th args) := by
  unfold defun
  infer_instance

instance (form : Value) : Walks (optionalValue ev form) := by
  unfold optionalValue
  infer_instance

instance (args : List Value) : Walks (defvar ev th args) := by
  unfold defvar
  infer_instance

instance (args : List Value) : Walks (boundp th args) := by
  unfold boundp
  infer_instance

instance (args : List Value) : Walks (setf ev th args) := by
  unfold setf
  refine .next fun r => .next fun v => .next fun sym => ?_
  cases sym <;> infer_instance

instance (args : List Value) : Walks (signal th args) := by
  unfold signal
  infer_instance

instance (args : List Value) : Walks (makeError th args) := by
  unfold makeError
  infer_instance

instance (args : List Value) : Walks (typeError th args) := by
  unfold typeError
  infer_instance

instance (kind : ErrorKind) : Walks (plainError th kind) := by
  unfold plainError
  infer_instance

instance (name : Handle) (body : Value) (c : Cause) : Walks (handle ev th name body c) := by
  unfold handle
  infer_instance

instance (name : Handle) (form body : Value) : Walks (catching ev th name form body) := by
  unfold catching
  exact .next fun r => by cases r <;> infer_instance

instance (args : List Value) : Walks (catchError ev th args) := by
  unfold catchError
  infer_instance

instance (vs : List Value) (ns : List Number) : Walks (numbersOf th vs ns) := by
  induction vs generalizing ns <;> unfold numbersOf <;> infer_instance

instance (list : Value) : Walks (numbers th list) := by
  unfold numbers
  infer_instance

instance (ok : Number → Number → Bool) (args : List Value) : Walks (compareAll th ok args) := by
  unfold compareAll
  infer_instance

instance (op : Number → Number → Number) (unit : Number) (args : List Value) : Walks (combineAll th op unit args) := by
  unfold combineAll
  infer_instance

instance (op : Number → Number → Number) (invert : Number → Number) (args : List Value) :
    Walks (combineFirst th op invert args) := by
  unfold combineFirst
  exact .next fun _ => .next fun ns => by split <;> infer_instance

instance (field : Handle → Place) (v : Value) : Walks (fieldOf th field v) := by
  unfold fieldOf
  split
  · infer_instance
  · exact .next fun r => by cases r <;> infer_instance

instance (v : Value) : Walks (debug v) := by
  unfold debug
  infer_instance

instance : Walks gc := by
  unfold gc
  infer_instance

instance (scope : Handle) (entries : List Saved) : Walks (fillScope ev th scope entries) := by
  induction entries with
  | nil => exact .pure _
  | cons entry entries ih =>
    unfold fillScope
    exact .next fun v => .next fun items => by split <;> infer_instance

instance (v : Value) : Walks (nameArg th v) := by
  unfold nameArg
  infer_instance

instance (g : Handle) (form : Value) : Walks (parentArg ev g form) := by
  unfold parentArg
  split
  · infer_instance
  · exact .next fun p => .next fun h => by cases h <;> infer_instance

instance (scope : Handle) (name : Option Handle) : Walks (publish th scope name) := by
  unfold publish
  split <;> infer_instance

instance (args : List Value) : Walks (makeScope ev th args) := by
  unfold makeScope
  exact .next fun _ => .next fun _ => inferInstance

instance (form : Value) : Walks (evalScope ev th form) := by
  unfold evalScope
  infer_instance

instance (args : List Value) : Walks (nref ev th args) := by
  unfold nref
  infer_instance

instance (args : List Value) : Walks (withScope ev th args) := by
  unfold withScope
  infer_instance

instance (args : List Value) (a : HostAction) : Walks (runHostAction ev th args a) := by
  unfold runHostAction
  split
  · infer_instance
  · infer_instance
  · exact .next fun r => by cases r <;> infer_instance
  all_goals infer_instance

instance (args : List Value) (p : Primitive) : Walks (runPrimitive ev th args p) := by
  cases p <;> unfold runPrimitive <;> infer_instance

/-! ## The evaluator -/

instance (base n : Nat) : Walks (frameValues th base n) := by
  unfold frameValues
  infer_instance

instance (v : Value) : Walks (unlessSignaling v) := by
  unfold unlessSignaling
  split
  · exact .next fun r => by cases r <;> infer_instance
  · infer_instance

instance (f : Function) (base : Nat) : Walks (runBody ev th f base) := by
  unfold runBody
  split <;> infer_instance

instance (f : Function) (args : List Value) : Walks (call ev th f args) := by
  unfold call
  exact .next fun _ => .next fun r => by cases r <;> infer_instance

instance (forms : List Saved) (vals : List Value) : Walks (evalArgs ev forms vals) := by
  induction forms generalizing vals <;> unfold evalArgs <;> infer_instance

instance (v : Value) (mode : Mode) : Walks (selfEvaluating th v mode) := by
  unfold selfEvaluating
  cases mode <;> infer_instance

instance (v : Value) : Walks (plainValue th v) := by
  unfold plainValue
  infer_instance

instance (c : Held) (mode : Mode) : Walks (apply ev th c mode) := by
  unfold apply
  refine .next fun _ => .next fun head => .next fun f => ?_
  cases f with
  | none => infer_instance
  | some f =>
    refine .next fun forms => ?_
    extract_lets rest
    have (args : List Value) : Walks (rest args) := .next fun _ => .next fun r => .next fun _ => by
      cases r with
      | error c => infer_instance
      | ok v => cases mode <;> infer_instance
    split <;> infer_instance

instance (v : Value) (mode : Mode) : Walks (dispatch ev th v mode) := by
  unfold dispatch
  split
  · infer_instance
  · cases mode <;> infer_instance
  · refine .next fun b => ?_
    rcases b with _ | ⟨h, x⟩
    · infer_instance
    · cases mode <;> infer_instance
  · refine .next fun sym => ?_
    cases sym with
    | none => infer_instance
    | some sym =>
      refine .next fun m => ?_
      split
      · infer_instance
      · exact .next fun r => by cases mode <;> infer_instance
  · exact .next fun c => by cases c <;> infer_instance
  · infer_instance

instance : Walks (nesting th) := by
  unfold nesting
  infer_instance

instance (d : Nat) : Walks (setDepth th d) := by
  unfold setDepth
  infer_instance

instance (v : Value) (mode : Mode) : Walks (evaluate ev th v mode) := by
  unfold evaluate
  exact .next fun g => .next fun (depth, limit) => inferInstance

end Evaluating

/-- the evaluator goes by steps, whatever its fuel -/
instance (n : Nat) (v : Value) (mode : Mode) : Walks (eval th n v mode) := by
  induction n generalizing v mode with
  | zero => exact .throw _
  | succ n ih =>
    have : Evaluator.Walks ⟨eval th n, n⟩ := ⟨ih⟩
    unfold eval
    infer_instance

instance (fuel : Nat) : Walks (evalFromStack fuel th) := by
  unfold evalFromStack
  refine .next fun r => ?_
  cases r with
  | error c => infer_instance
  | ok ref => exact .next fun form => .next fun r => by cases r <;> infer_instance

instance (fuel : Nat) (form : Value) : Walks (evalTopLevel fuel th form) := by
  unfold evalTopLevel
  refine @Walks.guarded _ _ (.next fun _ => .next fun _ => .next fun r => .next fun _ => ?_)
  cases r <;> infer_instance

/-! ## Reading and whole texts -/

instance (a : Source.Atom) : Walks (atomValue a) := by
  unfold atomValue
  cases a <;> infer_instance

mutual

theorem walks_buildForm : (f : Source.Form) → Walks (buildForm th f)
  | .atom text => by
    unfold buildForm
    infer_instance
  | .list items => by
    have := walks_buildForms items
    unfold buildForm
    infer_instance
  | .quoted f => by
    have := walks_buildForm f
    unfold buildForm
    infer_instance

theorem walks_buildForms : (fs : List Source.Form) → Walks (buildForms th fs)
  | [] => .pure _
  | f :: fs => by
    have := walks_buildForm f
    have := walks_buildForms fs
    unfold buildForms
    infer_instance

end

instance (f : Source.Form) : Walks (buildForm th f) := walks_buildForm f

instance (fs : List Source.Form) : Walks (buildForms th fs) := walks_buildForms fs

instance (r : Source.Reading) : Walks (buildReading th r) := by
  unfold buildReading
  split <;> infer_instance

instance (c : Source.Cursor) : Walks (readOne th c) := by
  unfold readOne
  exact .next fun v => by cases v <;> infer_instance

instance (s : String) : Walks (readString th s) := by
  unfold readString
  infer_instance

instance (b : Builtin) : Walks (define th b) := by
  unfold define
  infer_instance

instance : Walks installAll := by
  unfold installAll
  infer_instance

instance : Walks install := by
  have (r : Except Cause Unit) : Walks (modify fun m => { m with installed := some r } : Act PUnit) :=
    .modify fun _ => ⟨rfl, rfl, le_rfl, rfl⟩
  unfold install
  refine .next fun m => ?_
  split
  · infer_instance
  · infer_instance
  · exact .next fun _ => .next fun r => by cases r <;> infer_instance

instance (e : HeldError) : Walks (errorMessageIn e) := by
  unfold errorMessageIn
  exact .next fun r => by split <;> infer_instance

instance (r : Except Cause Value) : Walks (report r) := by
  unfold report
  split <;> infer_instance

instance (fuel : Nat) (form : Value) : Walks (evalPrint fuel th form) := by
  unfold evalPrint
  infer_instance

instance {take : Value → Act Unit} [∀ v, Walks (take v)] (r : Source.Reading) : Walks (onReading th take r) := by
  unfold onReading
  split <;> infer_instance

instance (fuel : Nat) (r : Source.Reading) : Walks (replStep fuel th r) := by
  unfold replStep
  infer_instance

instance (fuel : Nat) (showPrompt : Bool) (c : Source.Cursor) : Walks (replLoop fuel th showPrompt c) := by
  induction c using replLoop.induct fuel th showPrompt with
  | case1 c hprompt ih =>
    rw [replLoop, if_pos hprompt]
    refine .next fun _ => ?_
    dsimp only
    split
    · infer_instance
    · have := ih ‹_›
      infer_instance
  | case2 c hprompt ih =>
    rw [replLoop, if_neg hprompt]
    dsimp only
    split
    · infer_instance
    · have := ih ‹_›
      infer_instance

instance (fuel : Nat) (showPrompt : Bool) (c : Source.Cursor) : Walks (replRun fuel showPrompt c) := by
  unfold replRun
  infer_instance

end Act

/-- every operation of a host goes by steps -/
instance Command.walks (c : Command) : c.act.Walks := by
  cases c with
  | restrictHeap n =>
    have : (Act.restrictHeap n).Walks := .of_move fun m => .restrict m n
    unfold Command.act
    infer_instance
  | relaxHeap q => exact .of_move fun m => .relax m q
  | configure r => exact ⟨fun m => .head (.minimum m r.config.threshold) (.single (.beside rfl rfl le_rfl rfl))⟩
  | shutdown => exact .modify fun _ => ⟨rfl, rfl, le_rfl, rfl⟩
  | limitWrites n => exact .modify fun _ => ⟨rfl, rfl, le_rfl, rfl⟩
  | _ => unfold Command.act; infer_instance

/-- a command that leaves a machine has taken it there in a run -/
theorem Act.Leaves.goes {α : Type} {x : Act α} [hx : x.Walks] {m m' : Machine} (h : x.Leaves m m') : m.Goes m' := by
  have hgoes := hx.goes m
  rcases h with ⟨a, h⟩ | ⟨c, h⟩ <;> rw [h] at hgoes <;> exact hgoes

/-- a settled machine is reached from the start in a run -/
theorem Machine.Settled.goes {m : Machine} (hm : m.Settled) : Machine.initial.Goes m := by
  induction hm with
  | initial => exact .refl
  | step c _ _ hleaves ih => exact ih.trans hleaves.goes

/-- a settled machine is reached from the start step after step -/
theorem Machine.Settled.steps {m : Machine} (hm : m.Settled) : Machine.initial.Steps m := hm.goes.steps

end LispMachine
