/-
The evaluator is orderly.

A call lays its frame above the slots in use, and drops it however its body ends. One evaluation, with an orderly evaluator
for the forms inside it, is orderly and pins nothing but its result or its error; by induction on the fuel, so is every
evaluation.
-/
import LispMachine.Proofs.Orderly.Primitives

namespace LispMachine

/-- what evaluation yields: plain values, or references to places -/
def Mode.Yields (b : Nat) : Mode → Value → Prop
  | .value, v => v.IsPlain
  | .place, v => v.IsPlace b

theorem Mode.Yields.isSignaling {b : Nat} {mode : Mode} {v : Value} (h : mode.Yields b v) : v.isSignaling = false := by
  cases mode with
  | value => exact h.2
  | place => exact Value.IsPlace.isSignaling h

/-- if it is an error, then it is one of those given -/
def Value.IsFrom (args : List Value) (v : Value) : Prop := v.isError = true → v ∈ args

theorem Value.isFrom_of_not_isError {args : List Value} {v : Value} (h : v.isError = false) : v.IsFrom args := fun herror => by
  rw [h] at herror; cases herror

namespace Act

variable {α : Type} {th : ThreadId} {b k n : Nat} {C : Cause → Prop} {ev' ev : Evaluator}
  {R : (α : Type) → Act α → Act α → Machine → Prop}

/-! ## The frame of a call -/

section Frame

variable {L : Value → Prop}

/-- an action that only fails may stand before anything -/
theorem Runs.never {β : Type} {x : Act α} {f : α → Act β} {Q : β → Prop} (hx : Runs th b k C x fun _ => False) :
    Piles th b k n L C (x >>= f) Q := fun m hm =>
  ((hx m hm).mono (fun _ _ h => h) fun _ _ h => h.toStrayed).bind fun _ _ h => h.2.elim

theorem piles_pushRequired {ps : List Handle} {args : List Value} (hlen : ps.length ≤ args.length)
    (hargs : ∀ v ∈ args, v.IsPlain ∧ L v) :
    Piles th b b ps.length L Cause.IsFine (pushRequired th ps args) fun vs => ∀ v ∈ vs, v.IsPlain ∧ L v := by
  induction ps generalizing args with
  | nil => unfold pushRequired; exact .pure hargs
  | cons p ps ih =>
    cases args with
    | nil => cases hlen
    | cons v vs =>
      rw [List.forall_mem_cons] at hargs
      unfold pushRequired
      exact ((piles_push_ hargs.1.1 hargs.1.2).bind fun _ _ => ih (Nat.le_of_succ_le_succ hlen) hargs.2).of_eq
        (Nat.add_comm ..)

theorem piles_pushOptional (hunset : L .unset) {ps : List Handle} {args : List Value} (hargs : ∀ v ∈ args, v.IsPlain ∧ L v) :
    Piles th b b ps.length L Cause.IsFine (pushOptional th ps args) fun vs => ∀ v ∈ vs, v.IsPlain ∧ L v := by
  induction ps generalizing args with
  | nil => unfold pushOptional; exact .pure hargs
  | cons p ps ih =>
    cases args with
    | nil =>
      unfold pushOptional
      exact ((piles_push_ ⟨rfl, rfl⟩ hunset).bind fun _ _ => ih (by simp)).of_eq (Nat.add_comm ..)
    | cons v vs =>
      rw [List.forall_mem_cons] at hargs
      unfold pushOptional
      exact ((piles_push_ hargs.1.1 hargs.1.2).bind fun _ _ => ih hargs.2).of_eq (Nat.add_comm ..)

theorem piles_keyedArgs {args : List Value} (hargs : ∀ v ∈ args, v.IsPlain ∧ L v) {given : List (Handle × Value)}
    (hgiven : ∀ p ∈ given, p.2.IsPlain ∧ L p.2) :
    Piles th b b 0 L Cause.IsFine (keyedArgs th args given) fun ps => ∀ p ∈ ps, p.2.IsPlain ∧ L p.2 := by
  induction args using List.twoStepInduction generalizing given with
  | nil => exact .pure hgiven
  | singleton key =>
    unfold keyedArgs
    refine Piles.bind (n := 0) (l := 0) (.of_still (still_asSymbol key)) fun o _ => ?_
    split
    · exact (runs_raiseType (Q := fun _ => False) "symbol" (hargs key (by simp)).1).fine.fails fun _ => id
    · exact (runs_raiseError (Q := fun _ => False) .unaccompaniedKey ⟨rfl, rfl⟩ ⟨rfl, rfl⟩).fine.fails fun _ => id
  | cons_cons key v rest ih _ =>
    unfold keyedArgs
    refine Piles.bind (n := 0) (l := 0) (.of_still (still_asSymbol key)) fun o _ => ?_
    split
    · exact (runs_raiseType (Q := fun _ => False) "symbol" (hargs key (by simp)).1).fine.fails fun _ => id
    · exact ih (fun w hw => hargs w (by simp [hw])) (List.forall_mem_cons.2 ⟨hargs v (by simp), hgiven⟩)

theorem piles_pushKeys (hunset : L .unset) {given : List (Handle × Value)} (hgiven : ∀ p ∈ given, p.2.IsPlain ∧ L p.2)
    (ks : List Handle) : Piles th b b ks.length L Cause.IsFine (pushKeys th given ks) fun _ => True := by
  induction ks with
  | nil => exact .pure trivial
  | cons key ks ih =>
    unfold pushKeys
    have hvalue (key : Handle) : ((given.lookup key).getD .unset).IsPlain ∧ L ((given.lookup key).getD .unset) := by
      cases hl : given.lookup key with
      | none => exact ⟨⟨rfl, rfl⟩, hunset⟩
      | some v =>
        obtain ⟨l₁, l₂, heq, -⟩ := List.lookup_eq_some_iff.1 hl
        exact hgiven (key, v) (by rw [heq]; simp)
    exact ((Piles.of_still (still_keyOf key)).bind fun key _ =>
      (piles_push_ (hvalue key).1 (hvalue key).2).bind fun _ _ => ih).of_eq (by rw [Nat.zero_add, Nat.add_comm]; rfl)

/-- making a list moves nothing on the stack -/
theorem piles_newListOf (text : Bool) {items : List Value} (hitems : ∀ v ∈ items, v.IsPlain) :
    Piles th b b 0 L C (newListOf th text items) fun v => v.IsPlain ∧ v.isError = false := by
  have hpin {v : Value} (hv : v.isSignaling = false) : Piles th b b 0 L C (pin th v) fun _ => True :=
    (runs_pin hv).piles fun m hm => (ends_pin hm.isOpen v).mono (fun _ _ hb => by rw [hb.own]) fun _ _ h => h
  have hpair {a d : Value} (ha : a.IsPlain) (hd : d.IsPlain) :
      Piles th b b 0 L C (newPair th text a d) fun v => v.IsPlain ∧ v.isError = false :=
    Piles.bind (n := 0) (l := 0) (.of_still (still_allocate (.cons ha hd) text)) fun h _ =>
      Piles.bind (n := 0) (l := 0) (hpin rfl) fun _ _ => .pure ⟨⟨rfl, rfl⟩, rfl⟩
  have hcons (vs : List Value) : ∀ tail : Value, (∀ v ∈ vs, v.IsPlain) → tail.IsPlain ∧ tail.isError = false →
      Piles th b b 0 L C (consAll th text vs tail) fun v => v.IsPlain ∧ v.isError = false := by
    induction vs with
    | nil => exact fun _ _ htail => .pure htail
    | cons v vs ih =>
      intro tail hvs htail
      rw [List.forall_mem_cons] at hvs
      exact Piles.bind (n := 0) (l := 0) (hpair hvs.1 htail.1) fun w hw => ih w hvs.2 hw
  exact hcons _ .nil (fun v hv => hitems v (List.mem_reverse.1 hv)) ⟨⟨rfl, rfl⟩, rfl⟩

/-- a frame takes as many slots as there are parameters, and the errors in it are among the arguments -/
theorem piles_pushArgs (text : Bool) {p : Params} (hp : p.source.IsPlain) {args : List Value}
    (hargs : ∀ v ∈ args, v.IsPlain) : Piles th b b p.size (Value.IsFrom args) Cause.IsFine (pushArgs th text p args)
      fun _ => True := by
  have hmiscounted {β : Type} : Runs th b b Cause.IsFine
      (raiseError th .argCount p.source (int32 args.length) : Act β) fun _ => False :=
    (runs_raiseError .argCount hp (isPlain_int32 _)).fine
  have hunset : Value.unset.IsFrom args := nofun
  have hkeys (vs : List Value) (hvs : ∀ v ∈ vs, v.IsPlain ∧ v.IsFrom args) :
      Piles th b b p.keys.length (Value.IsFrom args) Cause.IsFine (if p.keys.isEmpty then
        if p.rest.isNone && !vs.isEmpty then raiseError th .argCount p.source (int32 args.length) else pure ()
      else do pushKeys th (← keyedArgs th vs []) p.keys : Act Unit) fun _ => True := by
    split
    · rename_i hempty
      rw [List.isEmpty_iff.1 hempty]
      split
      · exact hmiscounted.fails fun _ => id
      · exact .pure trivial
    · exact ((piles_keyedArgs hvs (by simp)).bind fun given hgiven => piles_pushKeys hunset hgiven _).of_eq
        (Nat.zero_add _)
  have hsize : p.required.length + (p.optional.length + (p.rest.toList.length + p.keys.length)) = p.size := by
    simp [Params.size, Params.symbols]
  unfold pushArgs
  simp only
  split
  · exact hmiscounted.never
  · rename_i hlen
    refine ((piles_pushRequired (Nat.not_lt.1 hlen) fun v hv => ⟨hargs v hv, fun _ => hv⟩).bind fun vs hvs =>
      (piles_pushOptional hunset hvs).bind fun vs hvs => Piles.of_eq (n := p.rest.toList.length + p.keys.length) ?_ rfl).of_eq
        hsize
    cases hrest : p.rest with
    | none =>
      have h := hkeys vs hvs
      rw [hrest] at h
      exact h.of_eq (Nat.zero_add _).symm
    | some sym =>
      have h := hkeys vs hvs
      rw [hrest] at h
      exact ((piles_newListOf text fun v hv => (hvs v hv).1).bind fun list hlist =>
        (piles_push_ hlist.1 (Value.isFrom_of_not_isError hlist.2)).bind fun _ _ => h).of_eq (by rw [Nat.zero_add]; rfl)

end Frame

/-! ## Calls -/

/-- a value is passed on unless it is an error that is unwinding -/
theorem ends_unlessSignaling {m : Machine} (hm : m.heap.Clean b) (v : Value) : (unlessSignaling v).Ends m
    (fun w m' => m' = m ∧ w = v ∧ v.isSignaling = false)
    fun e m' => Machine.Steady b m m' ∧ e.IsKnown Cause.IsThrown ∧
      ∀ o, e = .raised (.object o) → m'.heap.HoldsError o ∧ ∃ mood, v = o.value mood := by
  unfold unlessSignaling
  split
  · refine Ends.bind ((ends_asErrorObject v m).mono (fun _ _ h => h) ?_) ?_
    · rintro _ _ ⟨rfl, h, k, rfl⟩
      exact ⟨⟨hm, rfl, rfl, rfl⟩, Failure.isKnown_fault nofun, nofun⟩
    · rintro o _ ⟨rfl, ho⟩
      split
      · rename_i e
        exact ⟨.refl hm, Failure.isKnown_raised (.inr ⟨e, rfl⟩), by rintro _ ⟨⟩; exact ho e rfl⟩
      · exact ⟨.refl hm, Failure.isKnown_raised (.inl rfl), nofun⟩
  · rename_i h
    exact ⟨rfl, rfl, by simpa using h⟩

theorem isPlace_slotRefs {id base : Nat} (hbase : b ≤ base) (n : Nat) : ∀ r ∈ slotRefs id base n, r.IsPlace b := by
  intro r hr
  obtain ⟨i, -, rfl⟩ := List.mem_map.1 hr
  exact .stack (hbase.trans (Nat.le_add_right ..))

theorem runs_frameValues (base n : Nat) : Runs th b k C (frameValues th base n) fun vs => ∀ v ∈ vs, v.IsPlain := by
  refine .read fun m hm => .pure fun v hv => ?_
  obtain ⟨i, -, rfl⟩ := List.mem_map.1 hv
  exact hm.get th _

theorem runs_plainValue {v : Value} (hv : v.isSignaling = false) : Runs th b k C (plainValue th v) Value.IsPlain := by
  unfold plainValue
  split
  · exact (runs_derefAll v hv).bind fun x hx => (runs_pin hx.2).bind fun _ _ => .pure hx
  · rename_i hr
    exact .pure ⟨by simpa using hr, hv⟩

section

variable {m : Machine}

/-- the errors in the slots from `base` on are kept alive -/
def PinsFrom (th : ThreadId) (base : Nat) (m : Machine) : Prop :=
  ∀ i v, base ≤ i → (m.thread th).stack.items[i]? = some v → v.isError = true → v ∈ (m.thread th).pins

/-- the error that is signaled comes from the frame, and so stays -/
theorem ends_signal (hm : m.Sane th b b) {base : Nat} (hpinned : PinsFrom th base m) (n : Nat) : (do
    let args ← frameValues th base n
    unlessSignaling (← withErrorObjects th (signal th args)) : Act Value).Ends m
      (fun v m' => Machine.Even th b b m m' ∧ v.IsResult b) (Machine.Failed th b b Cause.IsThrown m) := by
  refine Ends.bind (P := fun args m' => args = ((List.range n).map fun i => (m.thread th).stack.get (base + i)) ∧ m' = m)
    ⟨rfl, rfl⟩ ?_
  rintro args m₁ ⟨hargs, rfl⟩
  have hplain : ∀ v ∈ args, v.IsPlain := by
    rw [hargs]
    rintro v hv
    obtain ⟨i, -, rfl⟩ := List.mem_map.1 hv
    exact hm.get th _
  have hkept : (arg args 0).isError = true → arg args 0 ∈ (m₁.thread th).pins := by
    cases n with
    | zero => rw [hargs]; exact nofun
    | succ n =>
      have hfirst : arg args 0 = ((m₁.thread th).stack.items[base]?).getD .unset := by
        rw [hargs, arg, List.getElem?_map, List.getElem?_range (Nat.succ_pos n)]
        rfl
      rw [hfirst]
      cases hslot : (m₁.thread th).stack.items[base]? with
      | none => exact nofun
      | some v => exact hpinned base v le_rfl hslot
  by_cases herror : (arg args 0).isError = true
  · obtain ⟨h, mood, hv⟩ : ∃ h mood, arg args 0 = .error h mood := by
      cases hv : arg args 0 <;> rw [hv] at herror <;> first | exact ⟨_, _, rfl⟩ | cases herror
    have hrun : (withErrorObjects th (signal th args)).run m₁ = .ok (.error h .signaling) m₁ := by
      simp only [withErrorObjects, attempt, signal, run_bind, run_observe, hv]
      rfl
    unfold Ends
    rw [bind_ok hrun]
    refine (ends_unlessSignaling hm.heap (.error h .signaling)).mono (by rintro _ _ ⟨-, -, ⟨⟩⟩) fun e m₂ h₂ => ?_
    have heven : Machine.Even th b b m₁ m₂ := h₂.1.even hm.toClean
    refine ⟨⟨h₂.2.1, heven.toOnward, fun _ _ => heven.quietly, fun o ho => ⟨(h₂.2.2 o ho).1, .inr ⟨mood, ?_⟩⟩⟩,
      fun _ _ => heven.level⟩
    obtain ⟨_, hmood⟩ := (h₂.2.2 o ho).2
    have hkept := heven.pinned (hkept herror)
    rw [hv] at hkept
    cases hmood
    exact hkept
  · have hraise : Runs th b b Cause.IsThrown (withErrorObjects th (signal th args)) fun _ => False := by
      refine (runs_withErrorObjects ?_).thrown
      unfold signal
      simp only [if_neg herror]
      exact (runs_raiseType "error" (isPlain_arg hplain 0)).fine
    exact Ends.bind ((hraise m₁ hm).mono (fun _ _ h => h.2) fun _ _ h => h) fun _ _ h => h.elim

variable (hR : Lifts th R ev' ev) (hev : ev.Orderly th b)
include hR hev

theorem abreast_runBody {f : Function} (hf : (Cell.function f).IsClean b) (hm : m.Sane th b b) {base : Nat} (hbase : b ≤ base)
    (hpinned : f.isSpecial = false → PinsFrom th base m) : Abreast R (runBody ev' th f base) (runBody ev th f base) m
      (fun v m' => Machine.Even th b b m m' ∧ v.IsResult b) (Machine.Failed th b b Cause.IsThrown m) := by
  obtain ⟨name, params, body⟩ := f
  cases hf with
  | function hs hb =>
    cases hb with
    | @primitive p special hp hsignal =>
      by_cases hthrow : p = .signal
      · subst hthrow
        exact .of_ends hR (ends_signal hm (hpinned (Bool.eq_false_iff.2 fun h => hsignal h rfl)) _)
      · have hpassed {v : Value} (hv : v.isSignaling = false) : unlessSignaling v = pure v := by
          unfold unlessSignaling
          rw [hv]
          rfl
        exact (Tracks.after hR (runs_frameValues base _) fun args hargs =>
          ((tracks_runPrimitive hR hev hargs hp hthrow).fine.withErrorObjects hR).thrown.bind hR fun v hv => by
            rw [hpassed hv.2]; exact .pure hR hv).abreast hm
    | forms outer hl =>
      have hid : Runs th b b Cause.IsObject (stackId th) fun _ => True := .read fun _ _ => .pure trivial
      exact (Tracks.after hR hid fun id _ => Tracks.after hR (runs_newTransient outer _ (isPlace_slotRefs hbase _))
        fun env _ => ((tracks_evalBody hR hev hl).inScope hR env).weaken fun v hv => hv.isResult).thrown.abreast hm

/-- a call leaves none of its frame behind -/
theorem abreast_call {f : Function} (hf : (Cell.function f).IsClean b) (hm : m.Sane th b b) {args : List Value}
    (hargs : ∀ v ∈ args, v.IsPlain)
    (hpinned : f.isSpecial = false → ∀ v ∈ args, v.isError = true → v ∈ (m.thread th).pins) :
    Abreast R (call ev' th f args) (call ev th f args) m
      (fun v m' => Machine.Even th b b m m' ∧ v.IsResult b) (Machine.Failed th b b Cause.IsThrown m) := by
  have hsource : f.params.source.IsPlain := by cases hf; assumption
  unfold call
  refine .after hR (P := fun base m' => base = (m.thread th).height ∧ m' = m) ⟨hm.size, rfl⟩ ?_
  rintro base m' ⟨rfl, rfl⟩
  refine .after hR ((piles_pushArgs f.isSpecial hsource hargs).attempt m' hm) fun r m₁ hr => ?_
  cases r with
  | error c =>
    obtain ⟨hon, hq, hc, ho⟩ := hr
    refine .of_ends hR (Ends.bind ((ends_dropAbove hm hon).mono (fun _ _ h => h) fun _ _ h => h.elim) fun _ m₂ h₂ => ?_)
    have heven : Machine.Even th b b m' m₂ := ⟨h₂.1, hq.trans (.of_eq h₂.2.2.pins), h₂.2.1⟩
    exact (ends_raiseAsError (heven.sane hm) hc fun o h => (ho o h).beside h₂.2.2).mono (fun _ _ h => h) fun _ _ h =>
      (h.after heven).mono fun _ => Cause.IsObject.isThrown
  | ok _ =>
    have hgrown := hr.1.toGrown
    have htaller := hgrown.taller
    have hframe : f.isSpecial = false → PinsFrom th (m'.thread th).height m₁ := by
      obtain ⟨vs, hvs, hlaid⟩ := hr.1.laid
      intro hspecial i v hi hv herror
      rw [hvs, Array.getElem?_append_right hi] at hv
      exact hgrown.pinned (hpinned hspecial v (hlaid v (List.mem_toArray.1 (Array.mem_of_getElem? hv)) herror) herror)
    have hbody := abreast_runBody hR hev hf (hgrown.sane hm) hm.above hframe
    have hdrop {m₂ : Machine} (h : Machine.Onward th b b m₁ m₂) := ends_dropSlots hm (hgrown.toOnward.trans h)
      (n := f.params.size) (by have := h.height; omega)
    refine ⟨Ends.andThen hbody.1 (fun v m₂ h₂ => ?_) fun e m₂ h₂ => ?_, hR.andThen hbody.2 fun e m₂ he =>
      (hdrop (hbody.1.error he).onward).mono (fun _ _ h => h.2.2) fun _ _ h => h⟩
    · have hlevel := h₂.1.level
      refine (hdrop h₂.1.toOnward).mono
        (fun _ m₃ h₃ => ⟨⟨h₃.1, (hgrown.quietly.trans h₂.1.quietly).trans (.of_eq h₃.2.2.pins), ?_⟩, h₂.2⟩) fun _ _ h => h
      have := h₃.2.1
      omega
    · refine (hdrop h₂.onward).mono
        (fun _ m₃ h₃ => ⟨⟨h₂.toIsKnown, h₃.1, fun c hc => ?_, fun o ho => (h₂.secure o ho).beside h₃.2.2⟩, fun c hc => ?_⟩)
        fun _ _ h => h
      · exact (hgrown.quietly.trans (h₂.quietly c hc)).trans (.of_eq h₃.2.2.pins)
      · have := h₃.2.1
        have := h₂.level c hc
        omega

/-! ## Forms -/

/-- the arguments of a call are kept alive -/
theorem abreast_evalArgs {forms : List Saved} (hforms : ∀ s ∈ forms, s.value.IsPlain) {vals : List Value} (hm : m.Sane th b b)
    (hvals : ∀ v ∈ vals, v.IsPlain ∧ (v.isError = true → v ∈ (m.thread th).pins)) :
    Abreast R (evalArgs ev' forms vals) (evalArgs ev forms vals) m
      (fun vs m' => Machine.Even th b b m m' ∧ ∀ v ∈ vs, v.IsPlain ∧ (v.isError = true → v ∈ (m'.thread th).pins))
      (Machine.Failed th b b Cause.IsObject m) := by
  induction forms generalizing vals m with
  | nil => exact .of_ends hR ⟨.refl hm.toClean, fun v hv => hvals v (List.mem_reverse.1 hv)⟩
  | cons s forms ih =>
    rw [List.forall_mem_cons] at hforms
    unfold evalArgs
    refine .after hR ((still_retrieve hforms.1).runs m hm) fun form m₁ ⟨h₁, _⟩ => ?_
    have hm₁ := h₁.sane hm
    refine .bind hR ⟨((hev.value form m₁ hm₁).and (hev.pinned form m₁ hm₁)).mono (fun _ _ h => h)
      fun _ _ h => h.1.after h₁, hR.eval form .value m₁⟩ fun v m₂ ⟨⟨h₂, hv⟩, hpinned⟩ => ?_
    have heven := h₁.trans h₂
    refine (ih hforms.2 (h₂.sane hm₁) (List.forall_mem_cons.2 ⟨⟨hv, fun herror => hpinned ?_⟩, fun w hw =>
      ⟨(hvals w hw).1, fun herror => heven.pinned ((hvals w hw).2 herror)⟩⟩)).mono (fun _ _ h => ⟨heven.trans h.1, h.2⟩)
      fun _ _ h => h.after heven
    cases v <;> first | rfl | cases herror

omit hR hev in
theorem runs_selfEvaluating {v : Value} (hv : v.IsPlain) (mode : Mode) :
    Runs th b k Cause.IsThrown (selfEvaluating th v mode) (mode.Yields b) := by
  cases mode with
  | value => exact .pure hv
  | place => exact (runs_raiseError .notAReference hv ⟨rfl, rfl⟩).thrown

/-- what becomes of the result of a call -/
def delivered (th : ThreadId) (mode : Mode) (result : Value) : Act Value :=
  match mode with
  | .place => if result.isReference then return result else raiseError th .notAReference result .nil
  | .value => plainValue th result

omit hR hev in
theorem runs_delivered {result : Value} (hresult : result.IsResult b) (mode : Mode) :
    Runs th b b Cause.IsThrown (delivered th mode result) (mode.Yields b) := by
  unfold delivered
  cases mode with
  | value => exact runs_plainValue hresult.2
  | place =>
    simp only
    split
    · exact .pure (hresult.1 ‹_›)
    · rename_i hne
      exact (runs_raiseError .notAReference (hresult.isPlain (by simpa using hne)) ⟨rfl, rfl⟩).thrown

/-- the call of a function that has been found -/
def applied (ev : Evaluator) (th : ThreadId) (head : Value) (f : Function) (args : List Value) (mode : Mode) : Act Value := do
  let f := (← asFunction head).getD f
  collecting (call ev th f args) (delivered th mode)

/-- the call of a function that has been found; its arguments are kept alive, or it is special and nothing has happened -/
theorem abreast_applied {head : Value} {f : Function} (hf : (Cell.function f).IsClean b) (mode : Mode) (hm : m.Sane th b b)
    {args : List Value} (hargs : ∀ v ∈ args, v.IsPlain)
    (hpinned : (∀ v ∈ args, v.isError = true → v ∈ (m.thread th).pins) ∨
      f.isSpecial = true ∧ (asFunction head).run m = .ok (some f) m) :
    Abreast R (applied ev' th head f args mode) (applied ev th head f args mode) m
      (fun v m' => Machine.Even th b b m m' ∧ mode.Yields b v) (Machine.Failed th b b Cause.IsThrown m) := by
  unfold applied
  refine .after hR (P := fun o m₁ => Machine.Even th b b m m₁ ∧ (Cell.function (o.getD f)).IsClean b ∧
    ((o.getD f).isSpecial = false → ∀ v ∈ args, v.isError = true → v ∈ (m₁.thread th).pins)) ?_
    fun o m₁ ⟨h₁, hf₁, hpinned₁⟩ => ?_
  · rcases hpinned with hpinned | ⟨hspecial, hrun⟩
    · refine ((still_asFunction head).runs m hm).mono (fun o m₁ h => ⟨h.1, ?_, fun _ v hv herror =>
        h.1.pinned (hpinned v hv herror)⟩) fun _ _ h => h
      cases o with
      | none => exact hf
      | some f' => exact h.2 f' rfl
    · unfold Ends
      rw [hrun]
      refine ⟨.refl hm.toClean, hf, fun h => ?_⟩
      rw [show (some f).getD f = f from rfl, hspecial] at h
      cases h
  · have hm₁ := h₁.sane hm
    have hcall := abreast_call hR hev hf₁ hm₁ hargs hpinned₁
    refine ⟨?_, hR.collecting hcall.2 fun c m₂ hr =>
      ⟨b, b, (hcall.1.error hr).onward.sane ((hcall.1.error hr).quietly c rfl) hm₁⟩⟩
    -- whatever comes of the call, what follows it starts from where the pass has left the machine
    have hcollect {f : Bool → Act Value} {m₂ : Machine} (h₂ : Machine.Even th b b m₁ m₂)
        (hf : ∀ a m₃, Machine.Even th b b m m₃ → (∀ o, m₂.Secure th o → m₃.Secure th o) → (f a).Ends m₃
          (fun v m' => Machine.Even th b b m m' ∧ mode.Yields b v) (Machine.Failed th b b Cause.IsThrown m)) :
        (maybeCollect >>= f).Ends m₂ (fun v m' => Machine.Even th b b m m' ∧ mode.Yields b v)
          (Machine.Failed th b b Cause.IsThrown m) := by
      have h₁₂ := h₁.trans h₂
      have hm₂ := h₁₂.sane hm
      refine Ends.bind ((ends_maybeCollect (C := Cause.IsThrown) hm₂.heap hm₂.isOpen).mono (fun _ _ h => h) fun e m₃ h => ?_)
        fun a m₃ ⟨h₃, hsecure⟩ => hf a m₃ (h₁₂.trans (h₃.even hm₂.toClean)) hsecure
      have heven := h₁₂.trans (h.1.even hm₂.toClean)
      exact ⟨⟨h.2.toIsKnown, heven.toOnward, fun _ _ => heven.quietly, fun o ho => absurd ho (h.2.bare o)⟩, fun _ _ => heven.level⟩
    unfold collecting
    refine hcall.1.attempting (fun result m₂ ⟨h₂, hresult⟩ => hcollect h₂ fun _ m₃ heven _ => ?_) (fun c m₂ h => ?_)
      fun e m₂ he h => (h.toStrayed.unraised he).after h₁
    · exact ((runs_delivered hresult mode) m₃ (heven.sane hm)).mono (fun _ _ h => ⟨heven.trans h.1, h.2⟩) fun _ _ h =>
        h.after heven
    · refine hcollect ⟨h.onward, h.quietly c rfl, h.level c rfl⟩ fun _ m₃ heven hsecure => ?_
      exact ⟨⟨Failure.isKnown_raised (h.cause c rfl), heven.toOnward, fun _ _ => heven.quietly, fun o ho =>
        hsecure o (h.secure o (by cases ho; rfl))⟩, fun _ _ => heven.level⟩

theorem tracks_apply (c : Held) (mode : Mode) :
    Tracks R th b Cause.IsThrown (apply ev' th c mode) (apply ev th c mode) (mode.Yields b) := by
  have hforms : Runs th b b Cause.IsObject (withErrorObjects th (do listItems (← cdrOf c))) fun items =>
      ∀ v ∈ items, v.IsPlain :=
    runs_withErrorObjects ((still_cdrOf c).runs.bind fun list hlist => (still_listItems hlist).runs)
  have hsame (m : Machine) : (withErrorObjects th (do listItems (← cdrOf c))).Ends m (fun _ m' => m'.heap = m.heap)
      fun _ _ => True := by
    refine ends_withErrorObjects_ok (Ends.bind (P := fun _ m' => m'.heap = m.heap) ?_ fun list m' h =>
      (ends_listItems list m').mono (fun _ _ h' => h'.trans h) fun _ _ h => h)
    unfold cdrOf fieldsOf
    refine Ends.bind (P := fun _ m' => m'.heap = m.heap) (.read ?_) fun _ _ h => h
    split <;> exact rfl
  unfold apply
  refine .after hR (still_carOf c).runs fun form _ => (tracks_value hR hev form).thrown.bind hR fun head hhead =>
    .of_abreast fun m hm => ?_
  refine .after hR ((((still_asFunction head).runs m hm).and (ends_asFunction head m)).mono (fun _ _ h => h)
    fun _ _ h => h.1) fun o m₁ ⟨⟨h₁, ho⟩, hm₁, hagain⟩ => ?_
  subst hm₁
  cases o with
  | none => exact .of_ends hR ((runs_raiseType "function" hhead).thrown m₁ hm)
  | some f =>
    have hf := ho f rfl
    refine .after hR (((hforms m₁ hm).and (hsame m₁)).mono (fun _ _ h => h) fun _ _ h =>
      h.1.mono fun _ => Cause.IsObject.isThrown) fun forms m₂ ⟨⟨h₂, hforms⟩, hheap⟩ => ?_
    have hm₂ := h₂.sane hm
    simp only
    by_cases hspecial : f.isSpecial = true
    · rw [if_pos hspecial, if_pos hspecial]
      have hpure : (pure forms : Act (List Value)).Ends m₂ (fun args m₃ => args = forms ∧ m₃ = m₂)
          (Machine.Failed th b b Cause.IsThrown m₁) := ⟨rfl, rfl⟩
      refine .after hR hpure ?_
      rintro _ _ ⟨rfl, rfl⟩
      exact (abreast_applied hR hev hf mode hm₂ hforms (.inr ⟨hspecial, hagain f rfl _ hheap⟩)).mono
        (fun _ _ h => ⟨h₂.trans h.1, h.2⟩) fun _ _ h => h.after h₂
    · rw [if_neg hspecial, if_neg hspecial]
      refine .after hR (((still_keepAll hforms).runs m₂ hm₂).mono (fun _ _ h => h) fun _ _ h => h.after h₂)
        fun kept m₃ ⟨h₃, hkept⟩ => ?_
      have hm₃ := h₃.sane hm₂
      refine .bind hR ((abreast_evalArgs hR hev hkept hm₃ (by simp)).mono (fun _ _ h => h) fun _ _ h =>
        ((h.after h₃).after h₂).mono fun _ => Cause.IsObject.isThrown) fun args m₄ ⟨h₄, hargs⟩ => ?_
      exact (abreast_applied hR hev hf mode (h₄.sane hm₃) (fun v hv => (hargs v hv).1) (.inl fun v hv => (hargs v hv).2)).mono
        (fun _ _ h => ⟨((h₂.trans h₃).trans h₄).trans h.1, h.2⟩) fun _ _ h => h.after ((h₂.trans h₃).trans h₄)

omit hR hev in
theorem dispatch_of_isSignaling {v : Value} (hsignal : v.isSignaling = true) {mode : Mode} :
    dispatch ev th v mode = unlessSignaling v := by
  unfold dispatch
  split <;> first | rfl | (exfalso; revert hsignal; simp [Value.isSignaling])

theorem tracks_dispatch (v : Value) (mode : Mode) (hsignal : v.isSignaling = false) (hv : mode = .place → v.StaysAbove b) :
    Tracks R th b Cause.IsThrown (dispatch ev' th v mode) (dispatch ev th v mode) (mode.Yields b) := by
  unfold dispatch
  split
  · cases hsignal
  · cases mode with
    | place => exact .pure hR (hv rfl rfl)
    | value => exact .of_runs hR (runs_plainValue rfl)
  · refine .after hR (still_asBox _).runs fun o ho => ?_
    split
    · exact .of_runs hR (.fault (by simp))
    · rename_i h x
      cases mode with
      | place => exact .pure hR (.box h)
      | value => exact .after hR (runs_pin (ho _ rfl).2) fun _ _ => (tracks_value hR hev x).thrown
  · refine .after hR (still_asSymbol _).runs fun o _ => .of_runs hR ?_
    split
    · exact .fault (by simp)
    · refine .read fun m hm => ?_
      split
      · exact runs_selfEvaluating ⟨rfl, rfl⟩ mode
      · refine (runs_lookup _).thrown.bind fun r hr => ?_
        cases mode with
        | place => exact .pure hr
        | value => exact runs_plainValue hr.isSignaling
  · refine .after hR (still_asCons _).runs fun o _ => ?_
    split
    · exact .of_runs hR (.fault (by simp))
    · exact tracks_apply hR hev _ mode
  · rename_i href _ _ _
    exact .of_runs hR (runs_selfEvaluating ⟨by cases v <;> first | rfl | exact absurd rfl (href _), hsignal⟩ mode)

end

/-! ## Evaluation -/

section

variable {m m' : Machine} {Q : Value → Prop}

/-- a thread with a depth of its own, and with the old one again -/
theorem onward_setDepth (hm : m.Sane th b k) {d : Nat}
    (h : Machine.Onward th b k (m.onThread th fun t => { t with depth := d }) m') :
    Machine.Onward th b k m (m'.onThread th fun t => { t with depth := (m.thread th).depth }) ∧
      ((m'.onThread th fun t => { t with depth := (m.thread th).depth }).thread th).height = (m'.thread th).height := by
  have hown := h.own
  rw [(Machine.becomes_onThread hm.isOpen _).own] at hown
  have hb := Machine.becomes_onThread ((congrArg Thread.Shape.isOpen hown.shape).trans hm.isOpen) fun t =>
    { t with depth := (m.thread th).depth }
  have hsame (u : ThreadId) (hu : u ≠ th) :=
    (Machine.becomes_onThread hm.isOpen fun t => { t with depth := d }).others u hu
  refine ⟨⟨Machine.Moved.becomes ⟨h.clean, h.fixed, h.own, fun u hu => hsame u hu ▸ h.others u hu⟩ hb
    (h.clean.slots th) ⟨?_, hown.height, hown.low, hown.pins⟩, h.uses⟩, by rw [hb.own]; rfl⟩
  have hshape := hown.shape
  simp only [Thread.shape, Thread.Shape.mk.injEq] at hshape ⊢
  simp [hshape]

theorem sane_setDepth (hm : m.Sane th b k) (d : Nat) :
    (m.onThread th fun t => { t with depth := d }).Sane th b k := by
  have hb := Machine.becomes_onThread hm.isOpen fun t => { t with depth := d }
  exact ((Machine.Onward.refl hm.toClean).toMoved.becomes hb (hm.slots th) (.refl _)).sane (.of_eq (by rw [hb.own])) hm rfl
    rfl rfl (hm.inside th hm.isOpen) hm.above

variable (hev : ev.Orderly th b)
include hev

/-- a form is evaluated, unless evaluations nest too deep -/
theorem cameTo_dispatch (hm : m.Sane th b b) (v : Value) (mode : Mode) (hv : mode = .place → v.StaysAbove b)
    (depth limit : Nat) : (observe do
      if limit < depth + 1 then
        note .overflowed
        raiseError th .stackOverflow (int32 (depth + 1)) (int32 limit)
      else dispatch ev th v mode : Act _).Ends m (CameTo th b b Cause.IsThrown (mode.Yields b) m) fun _ _ => False := by
  split
  · have hoverflow : Runs th b b Cause.IsThrown (do
        note .overflowed
        raiseError th .stackOverflow (int32 (depth + 1)) (int32 limit) : Act Value) (mode.Yields b) :=
      (Still.note _).runs.bind fun _ _ => (runs_raiseError .stackOverflow (isPlain_int32 _) (isPlain_int32 _)).thrown
    exact (hoverflow m hm).cameTo
  · cases hsignal : v.isSignaling with
    | false => exact ((tracks_dispatch (.unrelated th ev) hev v mode hsignal hv).1 m hm).cameTo
    | true =>
      -- an error that is unwinding may have been pinned by no one: only its object is known to be there
      rw [dispatch_of_isSignaling hsignal]
      refine .observe ((ends_unlessSignaling hm.heap v).mono ?_ fun e m' h => ?_)
      · rintro _ _ ⟨-, -, hquiet⟩
        rw [hsignal] at hquiet
        cases hquiet
      · have heven : Machine.Even th b b m m' := h.1.even hm.toClean
        exact ⟨heven.toOnward, h.2.1, fun _ _ => heven.level, fun o ho => (h.2.2 o ho).1⟩

/-- one evaluation leaves everything as it was, and pins its result or its error; the outermost contains a full heap -/
theorem ends_evaluate (hm : m.Sane th b b) (v : Value) (mode : Mode) (hv : mode = .place → v.StaysAbove b) :
    (evaluate ev th v mode).Ends m
      (fun v m' => (Machine.Even th b b m m' ∧ mode.Yields b v) ∧ PinsKept th (.ok v) m m')
      fun e m' => Machine.Failed th b b Cause.IsObject m e m' ∧ (∀ c, e = .raised c → PinsKept th (.error e) m m') ∧
        ((m.thread th).depth = 0 → e ≠ .fault .exhausted) := by
  unfold evaluate openGuard nesting
  refine Ends.bind (P := fun g m' => g = ⟨(m.thread th).pins.size, (m.thread th).stack.size⟩ ∧ m' = m) ⟨rfl, rfl⟩ ?_
  rintro _ m' ⟨rfl, rfl⟩
  refine Ends.bind (P := fun p m₁ => p = ((m'.thread th).depth, (m'.thread th).stack.capacity * depthPerSlot) ∧ m₁ = m')
    ⟨rfl, rfl⟩ ?_
  rintro _ m₁ ⟨rfl, rfl⟩
  refine Ends.bind (P := fun _ m₂ => m₂ = m₁.onThread th fun t => { t with depth := (m₁.thread th).depth + 1 }) rfl ?_
  rintro _ m₂ rfl
  refine Ends.bind ((cameTo_dispatch hev (sane_setDepth hm _) v mode hv _ _).mono (fun _ _ h => h) fun _ _ h => h.elim) fun r m₃ hr => ?_
  refine Ends.bind (P := fun _ m₄ => CameTo th b b Cause.IsThrown (mode.Yields b) m₁ r m₄) ?_ fun _ m₄ hr => ?_
  · have hheight : ((m₁.onThread th fun t => { t with depth := (m₁.thread th).depth + 1 }).thread th).height =
        (m₁.thread th).height := by
      rw [(Machine.becomes_onThread hm.isOpen _).own]
      rfl
    have hback := onward_setDepth hm hr.1
    refine ⟨hback.1, ?_⟩
    cases r with
    | ok w => exact ⟨hr.2.1, (hback.2.trans hr.2.2).trans hheight⟩
    | error e => exact ⟨hr.2.1, fun c hc => (hback.2.trans (hr.2.2.1 c hc)).trans hheight, hr.2.2.2⟩
  have hconclude {r : Except Failure Value} {m₅ : Machine} (hr : CameTo th b b Cause.IsThrown (mode.Yields b) m₁ r m₅)
      (hfull : (m₁.thread th).depth = 0 → r ≠ .error (.fault .exhausted)) :
      (conclude th (m₁.thread th).pins.size r).Ends m₅
        (fun v m' => (Machine.Even th b b m₁ m' ∧ mode.Yields b v) ∧ PinsKept th (.ok v) m₁ m')
        fun e m' => Machine.Failed th b b Cause.IsObject m₁ e m' ∧ (∀ c, e = .raised c → PinsKept th (.error e) m₁ m') ∧
          ((m₁.thread th).depth = 0 → e ≠ .fault .exhausted) :=
    (ends_conclude hm (fun _ h => h.isSignaling) hr).mono (fun _ _ h => h) fun e m₆ h =>
      ⟨h.1.mono fun c hc => hc.1.resolve_left hc.2, h.2.1, fun hdepth he => hfull hdepth (h.2.2 he)⟩
  simp only
  split
  · exact Ends.bind ((ends_contain hm (.inr ⟨_, rfl⟩) hr).mono (fun _ _ h => h) fun _ _ h => h.elim) fun _ _ h =>
      hconclude h.1 fun _ => h.2
  · rename_i hdepth
    exact hconclude hr fun h => absurd h hdepth

end

/-- every evaluation is orderly -/
theorem orderly_eval (th : ThreadId) (b fuel steps : Nat) : Evaluator.Orderly th b ⟨eval th fuel, steps⟩ := by
  induction fuel generalizing steps with
  | zero => exact ⟨fun _ => .outOfFuel, fun _ _ => .outOfFuel, fun _ _ _ => trivial⟩
  | succ fuel ih =>
    have hrun (v : Value) (mode : Mode) (hv : mode = .place → v.StaysAbove b) :
        Runs th b b Cause.IsObject (evaluate ⟨eval th fuel, fuel⟩ th v mode) (mode.Yields b) := fun m hm =>
      (ends_evaluate (ih fuel) hm v mode hv).mono (fun _ _ h => h.1) fun _ _ h => h.1
    exact ⟨fun v => hrun v .value (by simp), fun v hv => hrun v .place fun _ => hv, fun v m hm =>
      (ends_evaluate (ih fuel) hm v .value (by simp)).mono (fun _ _ h => h.2.pinned) fun _ _ _ => trivial⟩

end Act

end LispMachine
