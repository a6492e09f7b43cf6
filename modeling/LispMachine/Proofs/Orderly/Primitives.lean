/-
The primitives are orderly if the evaluator for the forms inside them is.

On plain arguments a primitive of the language returns a plain value or a reference to a place that is not below `b`, if it is
not the one that signals errors; every error it raises comes with its object.
-/
import LispMachine.Proofs.Orderly.Tracking

namespace LispMachine

/-- what a primitive may return: if it is a reference, then not to a slot below `b` -/
def Value.StaysAbove (b : Nat) (v : Value) : Prop := v.isReference = true → v.IsPlace b

theorem Value.IsPlain.staysAbove {b : Nat} {v : Value} (h : v.IsPlain) : v.StaysAbove b := fun hr => by rw [h.1] at hr; cases hr

theorem Value.IsPlace.staysAbove {b : Nat} {v : Value} (h : v.IsPlace b) : v.StaysAbove b := fun _ => h

/-- every reference stays above the bottom of the stack -/
theorem Value.staysAbove_zero (v : Value) : v.StaysAbove 0 := fun hr => by
  cases v with
  | ref p =>
    cases p with
    | stack id i => exact .stack (Nat.zero_le i)
    | box h => exact .box h
    | car h => exact .car h
    | cdr h => exact .cdr h
  | _ => cases hr

/-- an evaluator whose runs are orderly: values are plain and are kept alive, places are references, and every error comes
with its object -/
structure Evaluator.Orderly (th : ThreadId) (b : Nat) (ev : Evaluator) : Prop where
  value : ∀ v, Act.Runs th b b Cause.IsObject (ev.eval v .value) Value.IsPlain
  place : ∀ v, v.StaysAbove b → Act.Runs th b b Cause.IsObject (ev.eval v .place) (Value.IsPlace b)
  pinned : ∀ v (m : Machine), m.Sane th b b → (ev.eval v .value).Ends m
    (fun w m' => w.needsPin = true → w ∈ (m'.thread th).pins) fun _ _ => True

/-- what a call returns -/
def Value.IsResult (b : Nat) (v : Value) : Prop := v.StaysAbove b ∧ v.isSignaling = false

namespace Value

variable {b : Nat} {v : Value}

theorem IsResult.isPlain (h : v.IsResult b) (hr : v.isReference = false) : v.IsPlain := ⟨hr, h.2⟩

theorem IsPlain.isResult (h : v.IsPlain) : v.IsResult b := ⟨h.staysAbove, h.2⟩

theorem IsPlace.isResult (h : v.IsPlace b) : v.IsResult b := ⟨h.staysAbove, h.isSignaling⟩

end Value

namespace Act

variable {th : ThreadId} {b k : Nat} {C : Cause → Prop} {R : (α : Type) → Act α → Act α → Machine → Prop}
  {ev' ev : Evaluator} {args : List Value}

/-! ## Arguments and bodies -/

theorem isPlain_arg (hargs : ∀ v ∈ args, v.IsPlain) (i : Nat) : (arg args i).IsPlain := by
  unfold arg
  cases hi : args[i]? with
  | none => exact ⟨rfl, rfl⟩
  | some v => exact hargs v (List.mem_of_getElem? hi)

theorem runs_symbolArg {v : Value} (hv : v.IsPlain) : Runs th b k Cause.IsObject (symbolArg th v) fun _ => True := by
  unfold symbolArg
  refine (still_asSymbol v).runs.bind fun o _ => ?_
  split
  · exact .pure trivial
  · exact runs_raiseType "symbol" hv

theorem runs_numberArg {v : Value} (hv : v.IsPlain) : Runs th b k Cause.IsObject (numberArg th v) fun _ => True := by
  unfold numberArg
  refine (still_numberOf v).runs.bind fun o _ => ?_
  split
  · exact .pure trivial
  · exact runs_raiseType "number" hv

theorem runs_scopeArg {v : Value} (hv : v.IsPlain) : Runs th b k Cause.IsObject (scopeArg th v) fun _ => True := by
  unfold scopeArg
  refine (still_asScope v).runs.bind fun o _ => ?_
  split
  · exact .pure trivial
  · exact runs_raiseType "namespace" hv

theorem runs_listArg {v : Value} (hv : v.IsPlain) :
    Runs th b k Cause.IsObject (listArg th v) fun items => ∀ v ∈ items, v.IsPlain :=
  runs_withErrorObjects (still_listItems hv).runs

theorem runs_formsArg {v : Value} (hv : v.IsPlain) :
    Runs th b k Cause.IsObject (formsArg th v) fun ks => ∀ s ∈ ks, s.value.IsPlain :=
  (runs_listArg hv).bind fun _ hitems => (still_keepAll hitems).runs

section

variable (hR : Lifts th R ev' ev) (hev : ev.Orderly th b)
include hR hev

theorem tracks_value (v : Value) : Tracks R th b Cause.IsObject (ev'.eval v .value) (ev.eval v .value) Value.IsPlain :=
  ⟨hev.value v, fun m _ => hR.eval v .value m⟩

theorem tracks_place {v : Value} (hv : v.StaysAbove b) :
    Tracks R th b Cause.IsObject (ev'.eval v .place) (ev.eval v .place) (Value.IsPlace b) :=
  ⟨hev.place v hv, fun m _ => hR.eval v .place m⟩

theorem tracks_evalBody {body : Value} (hbody : body.IsPlain) :
    Tracks R th b Cause.IsObject (evalBody ev' th body) (evalBody ev th body) Value.IsPlain := by
  have hwithin (n : Nat) : ∀ {cur res : Value}, res.IsPlain → Tracks R th b Cause.IsObject
      (evalBodyWithin ev' th body n cur res) (evalBodyWithin ev th body n cur res) Value.IsPlain := by
    induction n with
    | zero =>
      intro cur res hres
      cases cur with
      | nil => exact .pure hR hres
      | _ => exact .of_runs hR .outOfFuel
    | succ n ih =>
      intro cur res hres
      cases cur with
      | nil => exact .pure hR hres
      | _ =>
        simp only [evalBodyWithin]
        refine .after hR (still_asCons _).runs fun o _ => ?_
        cases o with
        | none => exact .of_runs hR (runs_raiseError .improperList hbody ⟨rfl, rfl⟩)
        | some c =>
          exact .after hR (still_carOf c).runs fun _ _ => (tracks_value hR hev _).bind hR fun _ hres =>
            .after hR (still_cdrOf c).runs fun _ _ => ih hres
  unfold evalBody
  rw [hR.steps]
  exact hwithin ev.steps ⟨rfl, rfl⟩

/-! ## Control flow -/

theorem tracks_condClauses {clauses : List Saved} (hclauses : ∀ s ∈ clauses, s.value.IsPlain) :
    Tracks R th b Cause.IsObject (condClauses ev' th clauses) (condClauses ev th clauses) Value.IsPlain := by
  induction clauses with
  | nil => exact .pure hR ⟨rfl, rfl⟩
  | cons s clauses ih =>
    rw [List.forall_mem_cons] at hclauses
    unfold condClauses
    refine .after hR (still_retrieve hclauses.1).runs fun clause hclause => .after hR (still_asCons clause).runs fun o _ => ?_
    cases o with
    | none => exact .of_runs hR (runs_raiseError .improperList hclause ⟨rfl, rfl⟩)
    | some c =>
      refine .after hR (still_carOf _).runs fun _ _ => (tracks_value hR hev _).bind hR fun test htest => ?_
      split
      · refine .after hR (still_cdrOf _).runs fun body hbody => ?_
        split
        · exact .pure hR htest
        · exact tracks_evalBody hR hev hbody
      · exact ih hclauses.2

variable (hargs : ∀ v ∈ args, v.IsPlain)
include hargs

theorem tracks_cond : Tracks R th b Cause.IsObject (cond ev' th args) (cond ev th args) Value.IsPlain :=
  .after hR (runs_formsArg (isPlain_arg hargs 0)) fun _ hclauses => tracks_condClauses hR hev hclauses

theorem tracks_ifElse : Tracks R th b Cause.IsObject (ifElse ev' th args) (ifElse ev th args) Value.IsPlain := by
  refine (tracks_value hR hev _).bind hR fun test _ => ?_
  split
  · exact tracks_value hR hev _
  · exact tracks_evalBody hR hev (isPlain_arg hargs 2)

theorem tracks_whenTrue : Tracks R th b Cause.IsObject (whenTrue ev' th args) (whenTrue ev th args) Value.IsPlain := by
  refine (tracks_value hR hev _).bind hR fun test _ => ?_
  split
  · exact tracks_evalBody hR hev (isPlain_arg hargs 1)
  · exact .pure hR ⟨rfl, rfl⟩

theorem tracks_unlessTrue : Tracks R th b Cause.IsObject (unlessTrue ev' th args) (unlessTrue ev th args) Value.IsPlain := by
  refine (tracks_value hR hev _).bind hR fun test htest => ?_
  split
  · exact .pure hR htest
  · exact tracks_evalBody hR hev (isPlain_arg hargs 1)

/-! ## Binding and definition -/

omit hargs in
theorem tracks_letBindings {bindings : List Saved} (hbindings : ∀ s ∈ bindings, s.value.IsPlain) {syms : List Handle}
    {vals : List Value} (hvals : ∀ v ∈ vals, v.IsPlain) : Tracks R th b Cause.IsObject
      (letBindings ev' th bindings syms vals) (letBindings ev th bindings syms vals) fun p => ∀ v ∈ p.2, v.IsPlain := by
  induction bindings generalizing syms vals with
  | nil => exact .pure hR fun v hv => hvals v (List.mem_reverse.1 hv)
  | cons s bindings ih =>
    rw [List.forall_mem_cons] at hbindings
    unfold letBindings
    refine .after hR (still_retrieve hbindings.1).runs fun binding hbinding =>
      .after hR (runs_listArg hbinding) fun items hitems => ?_
    split
    · refine .after hR (runs_symbolArg (hitems _ (by simp))) fun _ _ => (tracks_value hR hev _).bind hR fun v hv => ?_
      exact ih hbindings.2 (List.forall_mem_cons.2 ⟨hv, hvals⟩)
    · exact .of_runs hR (runs_raiseError .improperList hbinding ⟨rfl, rfl⟩)

theorem tracks_letIn : Tracks R th b Cause.IsObject (letIn ev' th args) (letIn ev th args) Value.IsPlain :=
  .after hR (runs_formsArg (isPlain_arg hargs 0)) fun _ hbindings =>
    (tracks_letBindings hR hev hbindings (by simp)).bind hR fun _ hvals =>
      (tracks_evalBody hR hev (isPlain_arg hargs 1)).withBindings hR _ hvals

omit hargs in
theorem tracks_optionalValue (form : Value) :
    Tracks R th b Cause.IsObject (optionalValue ev' form) (optionalValue ev form) Value.IsPlain := by
  unfold optionalValue
  split
  · exact .pure hR ⟨rfl, rfl⟩
  · exact tracks_value hR hev form

theorem tracks_defvar : Tracks R th b Cause.IsObject (defvar ev' th args) (defvar ev th args) (Value.IsPlace b) := by
  unfold defvar
  refine .after hR (runs_symbolArg (isPlain_arg hargs 0)) fun name _ => .after hR still_globalScope.runs fun g _ =>
    .after hR (runs_withErrorObjects (runs_bindingIn g name)) fun r hr => .after hR (runs_deref r) fun x _ => ?_
  split
  · exact .pure hR hr
  · exact (tracks_optionalValue hR hev _).bind hR fun v hv =>
      .of_runs hR ((runs_withErrorObjects (runs_storeThrough hr hv)).bind fun _ _ => .pure hr)

theorem tracks_setf : Tracks R th b Cause.IsObject (setf ev' th args) (setf ev th args) Value.IsPlain := by
  have hplace := tracks_place hR hev (isPlain_arg hargs 0).staysAbove
  unfold setf
  refine hplace.bind hR fun r hr => (tracks_value hR hev _).bind hR fun v hv => .after hR (still_asSymbol _).runs fun o _ => ?_
  have hstore {r : Value} (hr : r.IsPlace b) : Runs th b b Cause.IsObject (do
      withErrorObjects th (storeThrough r v)
      return v : Act Value) Value.IsPlain :=
    (runs_withErrorObjects (runs_storeThrough hr hv)).bind fun _ _ => .pure hv
  cases o with
  | some _ => exact hplace.bind hR fun r hr => .of_runs hR (hstore hr)
  | none => exact .of_runs hR (Runs.bind (P := Value.IsPlace b) (.pure hr) fun r hr => hstore hr)

/-! ## Handling errors -/

omit hargs in
theorem tracks_caught (e : HeldError) (name : Handle) {body : Value} (hbody : body.IsPlain) : Tracks R th b Cause.IsObject
    (do note (.caught e name body)
        withBindings th [name] [e.value .quiet] (if body = .nil then pure (e.value .quiet) else evalBody ev' th body))
    (do note (.caught e name body)
        withBindings th [name] [e.value .quiet] (if body = .nil then pure (e.value .quiet) else evalBody ev th body))
    Value.IsPlain := by
  refine .after hR (Still.note _).runs fun _ _ =>
    Tracks.withBindings hR ?_ _ (by rintro v hv; cases List.mem_singleton.1 hv; exact ⟨rfl, rfl⟩)
  split
  · exact .pure hR ⟨rfl, rfl⟩
  · exact tracks_evalBody hR hev hbody

omit hargs in
/-- the handling of an error is as good as the forms that handle it -/
theorem abreast_handle {m : Machine} (hm : m.Sane th b b) {c : Cause} (hc : c.IsFine) (ho : ∀ o, c = .object o → m.Secure th o)
    (name : Handle) {body : Value} (hbody : body.IsPlain) :
    Abreast R (handle ev' th name body c) (handle ev th name body c) m (fun v m' => Machine.Even th b b m m' ∧ v.IsPlain)
      (Machine.Failed th b b Cause.IsObject m) := by
  unfold handle
  refine .after hR (ends_asError hm hc ho) fun e m₁ ⟨h₁, hsecure⟩ => ?_
  split
  · exact .of_ends hR (ends_raise h₁ hsecure ⟨e, rfl⟩)
  · exact ((tracks_caught hR hev e name hbody).abreast (h₁.sane hm)).mono (fun _ _ h => ⟨h₁.trans h.1, h.2⟩)
      fun _ _ h => h.after h₁

omit hargs in
theorem tracks_catching (name : Handle) (form : Value) {body : Value} (hbody : body.IsPlain) : Tracks R th b Cause.IsObject
    (catching ev' th name form body) (catching ev th name form body) Value.IsPlain := by
  have htry (m : Machine) (hm : m.Sane th b b) := (hev.value form).attempt (D := Cause.IsObject) m hm
  refine ⟨fun m hm => ?_, fun m hm => hR.catching name form hbody fun c m' hr => ?_⟩
  · unfold catching
    refine Ends.bind (htry m hm) fun r m₁ ⟨h₁, hr⟩ => ?_
    cases r with
    | ok v => exact ⟨h₁, hr⟩
    | error c =>
      exact (abreast_handle hR hev (h₁.sane hm) hr.1.isFine hr.2 name hbody).1.mono (fun _ _ h => ⟨h₁.trans h.1, h.2⟩)
        fun _ _ h => h.after h₁
  · obtain ⟨h₁, hc, ho⟩ := (htry m hm).ok hr
    exact (abreast_handle hR hev (h₁.sane hm) hc.isFine ho name hbody).2

theorem tracks_catchError : Tracks R th b Cause.IsObject (catchError ev' th args) (catchError ev th args) Value.IsPlain :=
  .after hR (runs_symbolArg (isPlain_arg hargs 1)) fun name _ => tracks_catching hR hev name _ (isPlain_arg hargs 2)

end

theorem runs_newFunction (name : Option Handle) {params body : Value} (hparams : params.IsPlain) (hbody : body.IsPlain)
    (scope : Option Handle) : Runs th b k Cause.IsFine (newFunction th name params body scope) Value.IsPlain := by
  unfold newFunction
  refine (still_parseParams hparams).runs.bind fun p hp => (still_listLength hbody).runs.bind fun _ _ => ?_
  have hmake : Runs th b k Cause.IsFine
      (allocatePinned th (.function ⟨name, p, .forms body (.ofOption scope)⟩) .function) Value.IsPlain :=
    runs_allocatePinned (.function hp (.forms _ hbody)) false fun _ => ⟨rfl, rfl⟩
  split
  · exact (runs_promote _).bind fun _ _ => hmake
  · exact hmake

section

variable (hargs : ∀ v ∈ args, v.IsPlain)
include hargs

theorem runs_lambda : Runs th b k Cause.IsObject (lambda th args) Value.IsPlain :=
  runs_scopeForFunction.bind fun _ _ =>
    runs_withErrorObjects (runs_newFunction none (isPlain_arg hargs 0) (isPlain_arg hargs 1) _)

theorem runs_defun : Runs th b k Cause.IsObject (defun th args) Value.IsPlain := by
  unfold defun
  refine (runs_symbolArg (isPlain_arg hargs 0)).bind fun name _ => runs_scopeForFunction.bind fun scope _ =>
    runs_withErrorObjects ?_
  exact (runs_newFunction (some name) (isPlain_arg hargs 1) (isPlain_arg hargs 2) _).bind fun f hf =>
    still_globalScope.runs.bind fun g _ => (runs_bind g name hf).bind fun _ _ => .pure hf

theorem runs_boundp : Runs th b k Cause.IsObject (boundp th args) Value.IsPlain :=
  (runs_symbolArg (isPlain_arg hargs 0)).bind fun _ _ => still_globalScope.runs.bind fun _ _ =>
    .read fun _ _ => .pure (Value.isPlain_ofBool _)

/-! ## Errors -/

theorem runs_makeError : Runs th b k Cause.IsObject (makeError th args) Value.IsPlain := by
  unfold makeError
  refine (runs_symbolArg (isPlain_arg hargs 0)).bind fun name _ => ?_
  have hbody : (if arg args 1 = .unset then Value.nil else arg args 1).IsPlain := by
    split
    · exact ⟨rfl, rfl⟩
    · exact isPlain_arg hargs 1
  exact (makes_newUserError name hbody).runs.bind fun e _ => .pure ⟨rfl, rfl⟩

theorem runs_typeError : Runs th b k Cause.IsObject (typeError th args) Value.IsPlain :=
  (runs_symbolArg (isPlain_arg hargs 0)).bind fun _ _ => (makes_newError .type ⟨rfl, rfl⟩ ⟨rfl, rfl⟩).runs.bind
    fun _ _ => .pure ⟨rfl, rfl⟩

omit hargs in
theorem runs_plainError (kind : ErrorKind) : Runs th b k C (plainError th kind) Value.IsPlain :=
  (makes_newError kind ⟨rfl, rfl⟩ ⟨rfl, rfl⟩).runs.bind fun _ _ => .pure ⟨rfl, rfl⟩

/-! ## Pairs, numbers and the machine -/

omit hargs in
theorem runs_fieldOf {field : Handle → Place} (hfield : ∀ h, (Value.ref (field h)).IsPlace b) {v : Value} (hv : v.IsPlain) :
    Runs th b k Cause.IsObject (fieldOf th field v) (Value.IsResult b) := by
  unfold fieldOf
  split
  · exact .pure (Value.IsPlain.isResult ⟨rfl, rfl⟩)
  · refine (still_asCons v).runs.bind fun o _ => ?_
    split
    · exact .pure (hfield _).isResult
    · exact runs_raiseType "list" hv

omit hargs in
theorem runs_debug {v : Value} (hv : v.IsPlain) : Runs th b k C (debug v) Value.IsPlain := by
  unfold debug
  refine (still_debugText v).runs.bind fun text _ => ?_
  have hwrite : Still b C (write .debug (text ++ "\n")) fun _ => True :=
    .read fun m hm => .modify fun m hm => ⟨hm, rfl, rfl, rfl⟩
  exact hwrite.runs.bind fun _ _ => .pure hv

omit hargs in
theorem runs_gc : Runs th b k C gc Value.IsPlain := (still_collect .explicit).runs.bind fun _ _ => .pure ⟨rfl, rfl⟩

omit hargs in
theorem runs_numbers {list : Value} (hlist : list.IsPlain) :
    Runs th b k Cause.IsObject (numbers th list) fun _ => True := by
  have hnumbers (vs : List Value) : ∀ ns, (∀ v ∈ vs, v.IsPlain) →
      Runs th b k Cause.IsObject (numbersOf th vs ns) fun _ => True := by
    induction vs with
    | nil => exact fun _ _ => .pure trivial
    | cons v vs ih =>
      intro ns hvs
      rw [List.forall_mem_cons] at hvs
      exact (runs_numberArg hvs.1).bind fun _ _ => ih _ hvs.2
  exact (runs_listArg hlist).bind fun items hitems => hnumbers items [] hitems

theorem runs_compareAll (ok : Number → Number → Bool) :
    Runs th b k Cause.IsObject (compareAll th ok args) Value.IsPlain :=
  (runs_numbers (isPlain_arg hargs 0)).bind fun _ _ => .pure (Value.isPlain_ofBool _)

theorem runs_combineAll (op : Number → Number → Number) (unit : Number) :
    Runs th b k Cause.IsObject (combineAll th op unit args) Value.IsPlain :=
  (runs_numbers (isPlain_arg hargs 0)).bind fun _ _ => .pure (Value.isPlain_ofNumber _)

theorem runs_combineFirst (op : Number → Number → Number) (invert : Number → Number) :
    Runs th b k Cause.IsObject (combineFirst th op invert args) Value.IsPlain := by
  unfold combineFirst
  refine (runs_numberArg (isPlain_arg hargs 0)).bind fun first _ =>
    (runs_numbers (isPlain_arg hargs 1)).bind fun others _ => ?_
  split
  · exact .pure (Value.isPlain_ofNumber _)
  · exact .pure (Value.isPlain_ofNumber _)

end

/-! ## Scopes as values -/

section

variable (hR : Lifts th R ev' ev) (hev : ev.Orderly th b)
include hR hev

theorem tracks_fillScope (scope : Handle) {entries : List Saved} (hentries : ∀ s ∈ entries, s.value.IsPlain) :
    Tracks R th b Cause.IsObject (fillScope ev' th scope entries) (fillScope ev th scope entries) fun _ => True := by
  induction entries with
  | nil => exact .pure hR trivial
  | cons s entries ih =>
    rw [List.forall_mem_cons] at hentries
    unfold fillScope
    refine .after hR (still_retrieve hentries.1).runs fun entry hentry => .after hR (runs_listArg hentry) fun items hitems => ?_
    split
    · exact .after hR (runs_symbolArg (hitems _ (by simp))) fun sym _ => (tracks_value hR hev _).bind hR fun v hv =>
        .after hR (runs_withErrorObjects (runs_bind scope sym hv)) fun _ _ => ih hentries.2
    · exact .of_runs hR (runs_raiseError .improperList hentry ⟨rfl, rfl⟩)

theorem tracks_parentArg (g : Handle) (form : Value) :
    Tracks R th b Cause.IsObject (parentArg ev' g form) (parentArg ev g form) fun _ => True := by
  unfold parentArg
  split
  · exact .pure hR trivial
  · refine (tracks_value hR hev form).bind hR fun p _ => .of_runs hR ((still_asScope p).runs.bind fun o _ => ?_)
    split <;> exact .pure trivial

theorem tracks_evalScope (form : Value) :
    Tracks R th b Cause.IsObject (evalScope ev' th form) (evalScope ev th form) fun _ => True :=
  (tracks_value hR hev form).bind hR fun _ hv => .of_runs hR (runs_scopeArg hv)

variable (hargs : ∀ v ∈ args, v.IsPlain)
include hargs

theorem tracks_makeScope : Tracks R th b Cause.IsObject (makeScope ev' th args) (makeScope ev th args) Value.IsPlain := by
  have hname : Runs th b b Cause.IsObject (nameArg th (arg args 0)) fun _ => True := by
    unfold nameArg
    split
    · exact .pure trivial
    · exact (runs_symbolArg (isPlain_arg hargs 0)).bind fun _ _ => .pure trivial
  unfold makeScope
  refine .after hR hname fun name _ => .after hR still_globalScope.runs fun g _ =>
    (tracks_parentArg hR hev g _).bind hR fun parent _ => .after hR (runs_newScope name parent) fun scope _ => ?_
  have hpublish : Runs th b b Cause.IsObject (do
      publish th scope name
      return .scope scope : Act Value) Value.IsPlain := by
    refine Runs.bind (P := fun _ => True) ?_ fun _ _ => .pure ⟨rfl, rfl⟩
    unfold publish
    split
    · exact runs_withErrorObjects (still_globalScope.runs.bind fun g _ => runs_bind g _ ⟨rfl, rfl⟩)
    · exact .pure trivial
  simp only
  split
  · exact .after hR (runs_formsArg (isPlain_arg hargs 1)) fun _ hentries =>
      (tracks_fillScope hR hev scope hentries).bind hR fun _ _ => .of_runs hR hpublish
  · exact .of_runs hR hpublish

theorem tracks_nref : Tracks R th b Cause.IsObject (nref ev' th args) (nref ev th args) (Value.IsPlace b) :=
  (tracks_evalScope hR hev _).bind hR fun scope _ => .of_runs hR ((runs_symbolArg (isPlain_arg hargs 1)).bind fun sym _ =>
    runs_withErrorObjects (runs_bindingFrom scope sym))

theorem tracks_withScope : Tracks R th b Cause.IsObject (withScope ev' th args) (withScope ev th args) Value.IsPlain :=
  (tracks_evalScope hR hev _).bind hR fun scope _ => (tracks_evalBody hR hev (isPlain_arg hargs 1)).withGlobal hR scope

/-! ## All of them -/

/-- a primitive of the language is orderly, if it is not the one that signals -/
theorem tracks_runPrimitive {p : Primitive} (hp : ∀ a, p ≠ .host a) (hsignal : p ≠ .signal) :
    Tracks R th b Cause.IsObject (runPrimitive ev' th args p) (runPrimitive ev th args p) (Value.IsResult b) := by
  have plain {x y : Act Value} (h : Tracks R th b Cause.IsObject x y Value.IsPlain) :
      Tracks R th b Cause.IsObject x y (Value.IsResult b) := h.weaken fun _ => Value.IsPlain.isResult
  have place {x y : Act Value} (h : Tracks R th b Cause.IsObject x y (Value.IsPlace b)) :
      Tracks R th b Cause.IsObject x y (Value.IsResult b) := h.weaken fun _ => Value.IsPlace.isResult
  have alone {x : Act Value} (h : Runs th b b Cause.IsObject x Value.IsPlain) :
      Tracks R th b Cause.IsObject x x (Value.IsResult b) := plain (.of_runs hR h)
  have h0 := isPlain_arg hargs 0
  cases p with
  | quote => exact alone (.pure h0)
  | cond => exact plain (tracks_cond hR hev hargs)
  | ifElse => exact plain (tracks_ifElse hR hev hargs)
  | whenTrue => exact plain (tracks_whenTrue hR hev hargs)
  | unlessTrue => exact plain (tracks_unlessTrue hR hev hargs)
  | letIn => exact plain (tracks_letIn hR hev hargs)
  | lambda => exact alone (runs_lambda hargs)
  | defun => exact alone (runs_defun hargs)
  | defvar => exact place (tracks_defvar hR hev hargs)
  | boundp => exact alone (runs_boundp hargs)
  | setf => exact plain (tracks_setf hR hev hargs)
  | cons => exact alone (runs_newPair false h0 (isPlain_arg hargs 1))
  | list => exact alone (.pure h0)
  | car => exact .of_runs hR (runs_fieldOf .car h0)
  | cdr => exact .of_runs hR (runs_fieldOf .cdr h0)
  | debug => exact alone (runs_debug h0)
  | gensym => exact alone (still_gensym.runs.bind fun _ _ => .pure ⟨rfl, rfl⟩)
  | gc => exact alone runs_gc
  | signal => exact absurd rfl hsignal
  | makeError => exact alone (runs_makeError hargs)
  | typeError => exact alone (runs_typeError hargs)
  | improperListError => exact alone (runs_plainError _)
  | notAReferenceError => exact alone (runs_plainError _)
  | catchError => exact plain (tracks_catchError hR hev hargs)
  | numEqual => exact alone (runs_compareAll hargs _)
  | numLess => exact alone (runs_compareAll hargs _)
  | numGreater => exact alone (runs_compareAll hargs _)
  | add => exact alone (runs_combineAll hargs _ _)
  | multiply => exact alone (runs_combineAll hargs _ _)
  | subtract => exact alone (runs_combineFirst hargs _ _)
  | divide => exact alone (runs_combineFirst hargs _ _)
  | makeScope => exact plain (tracks_makeScope hR hev hargs)
  | nref => exact place (tracks_nref hR hev hargs)
  | withScope => exact plain (tracks_withScope hR hev hargs)
  | host a => exact absurd rfl (hp a)

end

end Act

end LispMachine
