/-
Actions on a thread: pins, error objects, references, and the stack.

Pinning and storing change a thread without moving its frame, so they are orderly by themselves. Pushing is not; what the
parts of a frame leave on the stack is counted, so that dropping the frame brings the stack back to where it was.
-/
import LispMachine.Proofs.Orderly.Heap

namespace LispMachine

/-! ## Changing a thread -/

/-- a change of one thread that loses nothing -/
theorem Machine.Sane.onward_onThread {th : ThreadId} {b k : Nat} {m : Machine} (hm : m.Sane th b k) {f : Thread → Thread}
    (hslots : ∀ v ∈ (f (m.thread th)).stack.items, v.IsPlain) (hkeeps : (m.thread th).Keeps k (f (m.thread th))) :
    Onward th b k m (m.onThread th f) :=
  (Onward.refl hm.toClean).becomes (becomes_onThread hm.isOpen f) (fun _ => rfl) hslots hkeeps

namespace Act

variable {α : Type} {th : ThreadId} {b k n : Nat} {C : Cause → Prop}

namespace Runs

variable {x : Act α} {Q : α → Prop}

theorem fine (hx : Runs th b k Cause.IsObject x Q) : Runs th b k Cause.IsFine x Q := hx.mono (fun _ => id) fun _ h => h.isFine

theorem thrown (hx : Runs th b k Cause.IsObject x Q) : Runs th b k Cause.IsThrown x Q :=
  hx.mono (fun _ => id) fun _ h => h.isThrown

end Runs

/-! ## Pins and new objects -/

theorem even_pin {m : Machine} (hm : m.Sane th b k) {v : Value} (hv : v.isSignaling = false) :
    Machine.Even th b k m (m.onThread th fun t => { t with pins := t.pins.push v }) := by
  have hb := Machine.becomes_onThread hm.isOpen fun t => { t with pins := t.pins.push v }
  refine ⟨hm.onward_onThread (hm.slots th) ⟨rfl, le_rfl, fun _ _ => rfl, by simp⟩, fun w hw hs => ?_, by rw [hb.own]; rfl⟩
  rw [hb.own] at hw
  rcases Array.mem_push.1 hw with hw | rfl
  · exact hw
  · rw [hv] at hs; cases hs

theorem runs_pin {v : Value} (hv : v.isSignaling = false) : Runs th b k C (pin th v) fun _ => True := by
  unfold pin
  split
  · exact .modify fun m hm => even_pin hm hv
  · exact .pure trivial

/-- what pinning does to a thread -/
theorem ends_pin {m : Machine} (ho : (m.thread th).isOpen = true) (v : Value) {E : Failure → Machine → Prop} :
    (pin th v).Ends m (fun _ m' => Machine.Becomes th
      { m.thread th with pins := (m.thread th).pins ++ ([v].filter Value.needsPin).toArray } m m') E := by
  unfold pin
  split
  · rename_i hneeds
    have hb := Machine.becomes_onThread ho fun t => { t with pins := t.pins.push v }
    exact ⟨hb.heap, hb.fixed, hb.own.trans (by simp [hneeds]), hb.others⟩
  · rename_i hneeds
    exact ⟨rfl, rfl, by simp [hneeds], fun _ _ => rfl⟩

theorem runs_allocatePinned {c : Cell} {value : Handle → Value} (hc : c.IsClean b) (text : Bool)
    (hvalue : ∀ h, (value h).IsPlain) : Runs th b k C (allocatePinned th c value text) Value.IsPlain :=
  (still_allocate hc text).runs.bind fun h _ => (runs_pin (hvalue h).2).bind fun _ _ => .pure (hvalue h)

theorem runs_newPair {a d : Value} (text : Bool) (ha : a.IsPlain) (hd : d.IsPlain) :
    Runs th b k C (newPair th text a d) Value.IsPlain :=
  runs_allocatePinned (.cons ha hd) text fun _ => ⟨rfl, rfl⟩

theorem runs_consAll (text : Bool) {items : List Value} (hitems : ∀ v ∈ items, v.IsPlain) {tail : Value}
    (htail : tail.IsPlain) : Runs th b k C (consAll th text items tail) Value.IsPlain := by
  induction items generalizing tail with
  | nil => exact .pure htail
  | cons v vs ih =>
    rw [List.forall_mem_cons] at hitems
    exact (runs_newPair text hitems.1 htail).bind fun _ h => ih hitems.2 h

theorem runs_newListOf (text : Bool) {items : List Value} (hitems : ∀ v ∈ items, v.IsPlain) :
    Runs th b k C (newListOf th text items) Value.IsPlain :=
  runs_consAll text (fun v hv => hitems v (List.mem_reverse.1 hv)) ⟨rfl, rfl⟩

/-! ## Error objects -/

/-- an orderly action that makes an error: its object is there to stay -/
def Makes (th : ThreadId) (b k : Nat) (C : Cause → Prop) (x : Act HeldError) : Prop :=
  ∀ m, m.Sane th b k → x.Ends m (fun e m' => Machine.Even th b k m m' ∧ m'.Secure th e) (Machine.Failed th b k C m)

section Makes

variable {m m' : Machine}

/-- an error whose object is there to stay may be raised -/
theorem ends_raise {Q : α → Machine → Prop} (heven : Machine.Even th b k m m') {e : HeldError} (he : m'.Secure th e)
    (hC : C (.object e)) : (raise (.object e) : Act α).Ends m' Q (Machine.Failed th b k C m) :=
  ⟨⟨Failure.isKnown_raised hC, heven.toOnward, fun _ _ => heven.quietly, by rintro _ ⟨⟩; exact he⟩,
    fun _ _ => heven.level⟩

namespace Makes

variable {x : Act HeldError}

theorem runs (hx : Makes th b k C x) : Runs th b k C x fun _ => True := fun m hm =>
  (hx m hm).mono (fun _ _ h => ⟨h.1, trivial⟩) fun _ _ h => h

theorem after {y : Act α} {f : α → Act HeldError} {P : α → Prop} (hy : Runs th b k C y P)
    (hf : ∀ a, P a → Makes th b k C (f a)) : Makes th b k C (y >>= f) := fun m hm =>
  (hy m hm).bind fun a m' ⟨heven, ha⟩ => (hf a ha m' (heven.sane hm)).mono (fun _ _ h => ⟨heven.trans h.1, h.2⟩)
    fun _ _ h => h.after heven

theorem raise {Q : α → Prop} (hx : Makes th b k Cause.IsObject x) :
    Runs th b k Cause.IsObject (do Act.raise (.object (← x)) : Act α) Q := fun m hm =>
  (hx m hm).bind fun e _ h => ends_raise h.1 h.2 ⟨e, rfl⟩

end Makes

/-- a new error object is pinned -/
theorem makes_newErrorObject {x : ErrorObject} (hx : x.first.IsPlain ∧ x.second.IsPlain) :
    Makes th b k C (newErrorObject th x) := fun m hm => by
  unfold newErrorObject
  refine Ends.bind (P := fun y m' => y = m ∧ m' = m) ⟨rfl, rfl⟩ ?_
  rintro _ m₁ ⟨rfl, rfl⟩
  refine Ends.bind ((ends_allocate (.error x) false m₁).mono (fun _ _ h => h) ?_) ?_
  · rintro _ m₂ ⟨rfl, rfl⟩
    have hnoted : Machine.Steady b m₁ { m₁ with journal := .refused :: m₁.journal } := ⟨hm.heap, rfl, rfl, rfl⟩
    exact ⟨⟨Failure.isKnown_fault nofun, (hnoted.even hm.toClean).toOnward, nofun, nofun⟩, nofun⟩
  · rintro _ m₂ ⟨rfl, hm₂⟩
    have hsteady : Machine.Steady b m₁ m₂ := hm₂ ▸ ⟨hm.heap.insert (.error hx.1 hx.2) _ _, rfl, rfl, rfl⟩
    have heven : Machine.Even th b k m₁ m₂ := hsteady.even hm.toClean
    have hsane := heven.sane hm
    refine ⟨heven.trans (even_pin hsane rfl), ?_, .inr ⟨.quiet, ?_⟩⟩
    · show m₂.heap.HoldsError _
      rw [hm₂]
      exact .of_insert hm.heap.order x _ _
    · show _ ∈ ((m₂.onThread th _).thread th).pins
      rw [(Machine.becomes_onThread hsane.isOpen _).own]
      exact Array.mem_push_self

theorem makes_newError (kind : ErrorKind) {first second : Value} (hf : first.IsPlain) (hs : second.IsPlain) :
    Makes th b k C (newError th kind first second) := makes_newErrorObject ⟨hf, hs⟩

theorem makes_newUserError (name : Handle) {body : Value} (hbody : body.IsPlain) :
    Makes th b k C (newUserError th name body) := makes_newErrorObject ⟨hbody, rfl, rfl⟩

theorem makes_newTypeError (wanted : String) {got : Value} (hgot : got.IsPlain) :
    Makes th b k C (newTypeError th wanted got) := .after (still_symbol wanted).runs fun _ h => makes_newError .type h hgot

theorem runs_raiseError {Q : α → Prop} (kind : ErrorKind) {first second : Value} (hf : first.IsPlain)
    (hs : second.IsPlain) : Runs th b k Cause.IsObject (raiseError th kind first second : Act α) Q :=
  (makes_newError kind hf hs).raise

theorem runs_raiseType {Q : α → Prop} (wanted : String) {got : Value} (hgot : got.IsPlain) :
    Runs th b k Cause.IsObject (raiseType th wanted got : Act α) Q :=
  (makes_newTypeError wanted hgot).raise

theorem isPlain_int32 (n : Int) : (int32 n).IsPlain := ⟨rfl, rfl⟩

/-- an error becomes an error object, if it is not one already -/
theorem ends_asError (hm : m.Sane th b k) {c : Cause} (hc : c.IsFine) (ho : ∀ o, c = .object o → m.Secure th o) :
    (asError th c).Ends m (fun e m' => Machine.Even th b k m m' ∧ m'.Secure th e) (Machine.Failed th b k C m) := by
  have huser (text : String) : Makes th b k C (do
      let name ← intern "go-error"
      newUserError th name (← symbol text)) :=
    .after (still_intern _).runs fun name _ => .after (still_symbol _).runs fun _ h => makes_newUserError name h
  cases c with
  | object e => exact ⟨.refl hm.toClean, ho e rfl⟩
  | lostError => exact (Runs.fault (f := .mistyped) (Q := fun _ => False) nofun m hm).mono (fun _ _ h => h.2.elim) fun _ _ h => h
  | stackOverflow size capacity => exact makes_newError .stackOverflow (isPlain_int32 _) (isPlain_int32 _) m hm
  | stackUnderflow => exact makes_newError .stackUnderflow ⟨rfl, rfl⟩ ⟨rfl, rfl⟩ m hm
  | argIndex attempted length => exact makes_newError .argIndex (isPlain_int32 _) (isPlain_int32 _) m hm
  | wrongType wanted => exact makes_newTypeError wanted ⟨rfl, rfl⟩ m hm
  | improperList list => exact makes_newError .improperList (hc list rfl) ⟨rfl, rfl⟩ m hm
  | _ => exact huser _ m hm

/-- and is raised as such -/
theorem ends_raiseAsError {Q : α → Machine → Prop} (hm : m.Sane th b k) {c : Cause} (hc : c.IsFine)
    (ho : ∀ o, c = .object o → m.Secure th o) :
    (do raise (.object (← asError th c)) : Act α).Ends m Q (Machine.Failed th b k Cause.IsObject m) :=
  (ends_asError hm hc ho).bind fun e _ h => ends_raise h.1 h.2 ⟨e, rfl⟩

theorem runs_withErrorObjects {x : Act α} {Q : α → Prop} (hx : Runs th b k Cause.IsFine x Q) :
    Runs th b k Cause.IsObject (withErrorObjects th x) Q := fun m hm => by
  unfold withErrorObjects
  refine Ends.bind (hx.attempt m hm) fun r m₁ ⟨heven, hr⟩ => ?_
  cases r with
  | ok a => exact ⟨heven, hr⟩
  | error c => exact (ends_raiseAsError (heven.sane hm) hr.1 hr.2).mono (fun _ _ h => h) fun _ _ h => h.after heven

/-- the results are those that there are without error objects -/
theorem ends_withErrorObjects_ok {x : Act α} {Q : α → Machine → Prop} (hx : x.Ends m Q fun _ _ => True) :
    (withErrorObjects th x).Ends m Q fun _ _ => True := by
  unfold withErrorObjects
  refine Ends.bind (P := fun r m' => ∀ a, r = .ok a → Q a m') (.attempt (hx.mono (by rintro a m' h _ ⟨⟩; exact h) ?_))
    fun r m' hr => ?_
  · intro e m' _
    cases e <;> first | trivial | exact nofun
  · cases r with
    | ok a => exact hr a rfl
    | error c => exact Ends.bind .trivial fun _ _ _ => trivial

end Makes

/-! ## References -/

theorem runs_look (p : Place) : Runs th b k C (look p) Value.IsPlain :=
  .read fun _ hm => (Still.noteIf (C := C) (Q := fun v => v = Machine.load _ p) (.pure rfl)).runs.weaken
    fun _ h => h ▸ hm.load p

theorem runs_deref (v : Value) : Runs th b k C (deref v) Value.IsPlain := by
  unfold deref
  split
  · exact runs_look _
  · exact .fault (by simp)

theorem runs_derefAll (v : Value) (hv : v.isSignaling = false) : Runs th b k C (derefAll v) Value.IsPlain := by
  have hwithin (n : Nat) : ∀ v : Value, v.isSignaling = false → Runs th b k C (derefAllWithin n v) Value.IsPlain := by
    induction n with
    | zero => exact fun _ _ => .fault (by simp)
    | succ n ih =>
      intro v hv
      unfold derefAllWithin
      split
      · exact (runs_look _).bind fun x hx => ih x hx.2
      · rename_i hne
        refine .pure ⟨?_, hv⟩
        cases v <;> first | rfl | exact absurd rfl (hne _)
  exact .read fun m _ => hwithin m.extent v hv

/-- a pair or a box is written to -/
theorem ends_overwrite {m : Machine} (hm : m.heap.Clean b) {h : Handle} (hh : ∀ x, m.cell? h ≠ some (.error x)) (old : Value)
    {c : Cell} (hc : c.IsClean b) {E : Failure → Machine → Prop} :
    (overwrite h old c).Ends m (fun _ m' => Machine.Steady b m m') E := by
  have hwritten := hm.write hh hc
  unfold overwrite shade
  refine Ends.bind (P := fun _ m' => Machine.Steady b m m') ⟨hwritten, rfl, rfl, rfl⟩ fun _ m' h => h.trans ?_
  have hshade : Still b (fun _ => True) (shade old) fun _ => True := .modify fun m hm => by
    split
    · exact ⟨hm.mark _ _, rfl, rfl, rfl⟩
    · exact .refl hm
  exact (hshade m' h.heap).1

theorem still_missing {Q : Unit → Prop} (p : Place) : Still b Cause.IsFine (missing p) Q :=
  .read fun _ _ => .noteIf (.raise (by rintro _ ⟨⟩) (by simp))

/-- setting a slot that no frame below holds -/
theorem even_setSlot {m : Machine} (hm : m.Sane th b k) {i : Nat} (hi : b ≤ i) {v : Value} (hv : v.IsPlain)
    (t : ThreadId) : Machine.Even th b k m (m.onThread t fun x =>
      { x with stack := { x.stack with items := x.stack.items.setIfInBounds i v } }) := by
  by_cases hlt : t < m.threads.size
  · have hthread (u : ThreadId) := Machine.thread_onThread_of_lt hlt (fun x : Thread =>
      { x with stack := { x.stack with items := x.stack.items.setIfInBounds i v } }) u
    have hslots (u : ThreadId) : ∀ w ∈ (m.thread u).stack.items.setIfInBounds i v, w.IsPlain := by
      intro w hw
      rcases Array.mem_or_eq_of_mem_setIfInBounds hw with hw | rfl
      · exact hm.slots u w hw
      · exact hv
    have hself : ((m.thread t).stack.items.setIfInBounds i v).size = (m.thread t).stack.items.size := by simp
    refine ⟨⟨⟨⟨hm.heap, fun u => ?_⟩, rfl, ?_, fun u _ => ?_⟩, fun _ => rfl⟩, .of_eq ?_, ?_⟩
    · rw [hthread]; split
      · exact hslots t
      · exact hm.slots u
    · rw [hthread]; split
      · rename_i heq
        subst heq
        refine ⟨rfl, hself.ge, fun j hj => ?_, List.prefix_rfl⟩
        have hne : i ≠ j := by have := hm.floor; omega
        simp only [Array.getElem?_setIfInBounds, if_neg hne]
      · exact .refl _
    · rw [hthread]; split
      · rename_i heq; subst heq; exact ⟨rfl, hself, rfl⟩
      · exact ⟨rfl, rfl, rfl⟩
    · rw [hthread]; split
      · rename_i heq; subst heq; rfl
      · rfl
    · rw [hthread]; split
      · rename_i heq; subst heq; exact hself
      · rfl
  · rw [Machine.onThread_of_le (Nat.not_lt.1 hlt)]
    exact .refl hm.toClean

theorem runs_store {p : Place} (hp : (Value.ref p).IsPlace b) {v : Value} (hv : v.IsPlain) :
    Runs th b k Cause.IsFine (store p v) fun _ => True := by
  intro m hm
  have hmissing (p : Place) : (missing p).Ends m (fun _ m' => Machine.Even th b k m m' ∧ True)
      (Machine.Failed th b k Cause.IsFine m) := (still_missing p).runs m hm
  -- the object that is written to is a box or a pair, as it was when it was looked at
  have hwrite {h : Handle} {old : Value} {c : Cell} (hh : ∀ x, m.cell? h ≠ some (.error x)) (hc : c.IsClean b) :
      (overwrite h old c).Ends m (fun _ m' => Machine.Even th b k m m' ∧ True) (Machine.Failed th b k Cause.IsFine m) :=
    (ends_overwrite hm.heap hh old hc).mono (fun _ _ h => ⟨h.even hm.toClean, trivial⟩) fun _ _ h => h
  have hassign {h : Handle} {old : Value} {c : Cell} (text : Bool) (hh : ∀ x, m.cell? h ≠ some (.error x)) (hc : c.IsClean b) :
      (do note (.assigned text)
          overwrite h old c : Act Unit).Ends m (fun _ m' => Machine.Even th b k m m' ∧ True)
        (Machine.Failed th b k Cause.IsFine m) := by
    refine Ends.bind (P := fun _ m' => m' = { m with journal := .assigned text :: m.journal }) rfl ?_
    rintro _ _ rfl
    have hnoted : Machine.Steady b m { m with journal := .assigned text :: m.journal } := ⟨hm.heap, rfl, rfl, rfl⟩
    exact (ends_overwrite hnoted.heap hh old hc).mono (fun _ _ h => ⟨(hnoted.trans h).even hm.toClean, trivial⟩) fun _ _ h => h
  unfold store
  refine Ends.bind (P := fun x m' => x = m ∧ m' = m) ⟨rfl, rfl⟩ ?_
  rintro _ m' ⟨rfl, rfl⟩
  cases hp with
  | stack hi =>
    simp only
    split
    · exact Runs.raise (by rintro _ ⟨⟩) (by simp) m' hm
    · split
      · exact Runs.modify (fun _ hm => even_setSlot hm hi hv _) m' hm
      · exact Runs.fault (by simp) m' hm
      · exact Runs.raise (by rintro _ ⟨⟩) (by simp) m' hm
  | box h =>
    simp only
    split
    · rename_i hc
      exact hwrite (by rw [hc]; simp) (.box hv)
    · exact hmissing _
  | car h =>
    simp only
    split
    · rename_i hs
      cases hm.slot hs
      exact hassign _ (by rw [Machine.cell?, Heap.cell?_of_slot? hs]; simp) (.cons hv ‹_›)
    · exact hmissing _
  | cdr h =>
    simp only
    split
    · rename_i hs
      cases hm.slot hs
      exact hassign _ (by rw [Machine.cell?, Heap.cell?_of_slot? hs]; simp) (.cons ‹_› hv)
    · exact hmissing _

theorem runs_storeThrough {r : Value} (hr : r.IsPlace b) {v : Value} (hv : v.IsPlain) :
    Runs th b k Cause.IsFine (storeThrough r v) fun _ => True := by
  unfold storeThrough
  split
  · exact runs_store hr hv
  · exact .fault (by simp)

/-! ## Pushing -/

section Push

variable {L : Value → Prop}

/-- the slot that a push takes is none of those below `b` -/
theorem piles_push {v : Value} (hv : v.IsPlain) (hL : L v) :
    Piles th b b 1 L Cause.IsFine (push th v) (Value.IsPlace b) := by
  intro m hm
  unfold push
  refine Ends.bind (P := fun x m' => x = m ∧ m' = m) ⟨rfl, rfl⟩ ?_
  rintro x m' ⟨rfl, rfl⟩
  have hpiled : Machine.Piled th b b 1 L m'
      (m'.onThread th fun t => { t with stack := { t.stack with items := t.stack.items.push v } }) := by
    have hb := Machine.becomes_onThread hm.isOpen fun t =>
      { t with stack := { t.stack with items := t.stack.items.push v } }
    refine ⟨⟨hm.onward_onThread (fun w hw => ?_) ⟨rfl, by simp [Thread.height], fun i hi => ?_, List.prefix_rfl⟩,
      .of_eq (by rw [hb.own]), by rw [hb.own]; simp [Thread.height]⟩, [v], by rw [hb.own]; simp, by simpa using hL⟩
    · rcases Array.mem_push.1 hw with hw | rfl
      · exact hm.slots th w hw
      · exact hv
    · have hlt := lt_of_lt_of_le hi hm.above
      unfold Thread.height at hlt
      simp [Array.getElem?_push, ne_of_lt hlt]
  have hpush : (do
      modify fun m => m.onThread th fun t => { t with stack := { t.stack with items := t.stack.items.push v } }
      return .ref (.stack (m'.thread th).stack.id (m'.thread th).stack.size) : Act Value).Ends m'
      (fun r m'' => Machine.Piled th b b 1 L m' m'' ∧ r.IsPlace b) (Machine.Strayed th b b Cause.IsFine m') :=
    ⟨hpiled, .stack (hm.size ▸ hm.above)⟩
  simp only
  split
  · refine Ends.bind (P := fun _ m'' => Machine.Steady b m' m'') ⟨hm.heap, rfl, rfl, rfl⟩ fun _ m'' h => ?_
    have heven : Machine.Even th b b m' m'' := h.even hm.toClean
    exact Ends.bind (P := fun _ _ => False)
      ⟨Failure.isKnown_raised (by rintro _ ⟨⟩), heven.toOnward, fun _ _ => heven.quietly, nofun⟩ fun _ _ h => h.elim
  · exact hpush

theorem piles_push_ {v : Value} (hv : v.IsPlain) (hL : L v) : Piles th b b 1 L Cause.IsFine (push_ th v) fun _ => True :=
  (piles_push hv hL).bind fun _ _ => .pure trivial

theorem piles_pushAll {vs refs : List Value} (hvs : ∀ v ∈ vs, v.IsPlain) (hL : ∀ v ∈ vs, L v)
    (hrefs : ∀ r ∈ refs, r.IsPlace b) :
    Piles th b b vs.length L Cause.IsFine (pushAll th vs refs) fun rs => ∀ r ∈ rs, r.IsPlace b := by
  induction vs generalizing refs with
  | nil => exact .pure fun r hr => hrefs r (List.mem_reverse.1 hr)
  | cons v vs ih =>
    rw [List.forall_mem_cons] at hvs hL
    exact ((piles_push hvs.1 hL.1).bind fun r hr => ih hvs.2 hL.2 (List.forall_mem_cons.2 ⟨hr, hrefs⟩)).of_eq
      (by rw [List.length_cons, Nat.add_comm])

end Push

/-! ## Dropping -/

section Drop

variable {m m' : Machine}

theorem getElem?_shrink (xs : Array Value) (n i : Nat) : (xs.shrink n)[i]? = if i < n then xs[i]? else none := by
  rw [Array.shrink_eq_take]
  by_cases hsize : i < xs.size
  · simp [Array.take, Array.getElem?_extract, hsize]
  · simp [Array.take, hsize]

/-- what is above a slot of the stack is dropped, but nothing that was there before -/
theorem onward_shrink (hm : m.Sane th b k) (h : Machine.Onward th b k m m') {f : Thread → Thread} (size : Nat)
    (hf : f (m'.thread th) = { m'.thread th with
      stack := { (m'.thread th).stack with items := (m'.thread th).stack.items.shrink size } })
    (hsize : (m.thread th).height ≤ size) (hle : size ≤ (m'.thread th).height) :
    Machine.Onward th b k m (m'.onThread th f) ∧ ((m'.onThread th f).thread th).height = size ∧
      Machine.Beside th m' (m'.onThread th f) := by
  have hb := Machine.becomes_onThread (h.isOpen hm) f
  rw [hf] at hb
  have hheight : ((m'.thread th).stack.items.shrink size).size = size := by
    rw [Array.size_shrink]; exact Nat.min_eq_left hle
  refine ⟨h.becomes hb (fun _ => rfl) (fun v hv => ?_) ⟨h.own.shape, hsize.trans hheight.ge, fun i hi => ?_, h.own.pins⟩,
    by rw [hb.own]; exact hheight, ⟨rfl, rfl, rfl, rfl, by rw [hb.own]⟩⟩
  · obtain ⟨i, hi⟩ := Array.getElem?_of_mem hv
    rw [getElem?_shrink] at hi
    split at hi
    · exact h.clean.slots th v (Array.mem_of_getElem? hi)
    · cases hi
  · rw [← h.own.low i hi, getElem?_shrink, if_pos (lt_of_lt_of_le hi (hm.above.trans hsize))]

/-- dropping slots that were pushed -/
theorem ends_dropSlots (hm : m.Sane th b k) (h : Machine.Onward th b k m m')
    (hn : (m.thread th).height + n ≤ (m'.thread th).height) :
    (dropSlots th n).Ends m' (fun _ m'' => Machine.Onward th b k m m'' ∧
      (m''.thread th).height + n = (m'.thread th).height ∧ Machine.Beside th m' m'') fun _ _ => False := by
  have hsize := h.size hm
  unfold dropSlots stackBeyond
  refine Ends.bind (P := fun x m'' => x = 0 ∧ m'' = m') ⟨h.beyond hm, rfl⟩ ?_
  rintro x m'' ⟨rfl, rfl⟩
  have hshrink := onward_shrink hm h ((m''.thread th).height - n)
    (f := fun t => if t.stack.size < n then t
      else { t with stack := { t.stack with items := t.stack.items.shrink (t.stack.items.size - n) } })
    (by rw [if_neg (by omega)]; rfl) (by omega) (by omega)
  exact ⟨hshrink.1, (congrArg (· + n) hshrink.2.1).trans (by omega), hshrink.2.2⟩

/-- dropping everything that was pushed -/
theorem ends_dropAbove (hm : m.Sane th b k) (h : Machine.Onward th b k m m') :
    (dropAbove th (m.thread th).height).Ends m' (fun _ m'' => Machine.Onward th b k m m'' ∧
      (m''.thread th).height = (m.thread th).height ∧ Machine.Beside th m' m'') fun _ _ => False := by
  unfold dropAbove stackBeyond
  refine Ends.bind (P := fun x m'' => x = 0 ∧ m'' = m') ⟨h.beyond hm, rfl⟩ ?_
  rintro x m'' ⟨rfl, rfl⟩
  exact onward_shrink hm h (m.thread th).height
    (f := fun t => { t with stack := { t.stack with items := t.stack.items.shrink (m.thread th).height } })
    rfl le_rfl h.height

end Drop

/-! ## Guards -/

/-- the pins a thread has after a guarded operation that came out as told: those from before and what is kept of the
outcome -/
def PinsKept (th : ThreadId) (r : Except Failure Value) (m m' : Machine) : Prop :=
  (m'.thread th).pins = (m.thread th).pins ++ ((outcomeKept r).filter Value.needsPin).toArray

section Guards

variable {m m' : Machine} {Q : Value → Prop}

/-- what came of an operation inside a guard, with whatever it has pinned -/
def CameTo (th : ThreadId) (b k : Nat) (C : Cause → Prop) (Q : Value → Prop) (m : Machine) (r : Except Failure Value)
    (m' : Machine) : Prop :=
  Machine.Onward th b k m m' ∧ match r with
    | .ok v => Q v ∧ (m'.thread th).height = (m.thread th).height
    | .error e => e.IsKnown C ∧ (∀ c, e = .raised c → (m'.thread th).height = (m.thread th).height) ∧
      ∀ o, e = .raised (.object o) → m'.heap.HoldsError o

theorem shrink_prefix {xs ys : Array Value} (h : xs.toList <+: ys.toList) : ys.shrink xs.size = xs := by
  obtain ⟨zs, hzs⟩ := h
  refine Array.toList_inj.1 ?_
  rw [Array.shrink_eq_take]
  simp [Array.take, ← hzs]

/-- when pins are dropped, those that a thread had before stay -/
theorem onward_unpin (hm : m.Sane th b k) (h : Machine.Onward th b k m m') {kept : List Value} {m'' : Machine}
    (hunpin : m'' = m'.onThread th fun t =>
      { t with pins := t.pins.shrink (m.thread th).pins.size ++ (kept.filter Value.needsPin).toArray }) :
    Machine.Onward th b k m m'' ∧ (m''.thread th).height = (m'.thread th).height ∧ m''.heap = m'.heap ∧
      (m''.thread th).pins = (m.thread th).pins ++ (kept.filter Value.needsPin).toArray := by
  have hb := Machine.becomes_onThread (h.isOpen hm) fun t =>
    { t with pins := t.pins.shrink (m.thread th).pins.size ++ (kept.filter Value.needsPin).toArray }
  rw [← hunpin, shrink_prefix h.own.pins] at hb
  exact ⟨h.becomes hb (fun _ => by rw [hunpin]; rfl) (h.clean.slots th)
    ⟨h.own.shape, h.height, h.own.low, ⟨kept.filter Value.needsPin, by simp⟩⟩, by rw [hb.own]; rfl, hb.heap,
    by rw [hb.own]⟩

theorem PinsKept.quietly {r : Except Failure Value} (h : PinsKept th r m m')
    (hquiet : ∀ v ∈ outcomeKept r, v.isSignaling = false) : Machine.Quietly th m m' := fun v hv hs => by
  rw [h] at hv
  rcases Array.mem_append.1 hv with hv | hv
  · exact hv
  · have hfalse := hquiet v (List.mem_of_mem_filter (List.mem_toArray.1 hv))
    rw [hfalse] at hs
    cases hs

/-- the result that came out is pinned -/
theorem PinsKept.pinned {v : Value} (h : PinsKept th (.ok v) m m') (hv : v.needsPin = true) : v ∈ (m'.thread th).pins := by
  rw [h]
  exact Array.mem_append_right _ (List.mem_toArray.2 (List.mem_filter.2 ⟨by simp [outcomeKept], hv⟩))

/-- the error that came out is pinned -/
theorem PinsKept.secure {e : HeldError} (h : PinsKept th (.error (.raised (.object e))) m m') (he : m'.heap.HoldsError e) :
    m'.Secure th e := by
  refine ⟨he, .inr ⟨.quiet, ?_⟩⟩
  rw [h]
  exact Array.mem_append_right _ (List.mem_toArray.2 (List.mem_filter.2 ⟨by simp [outcomeKept], rfl⟩))

/-- a guard is left with the old pins and the result or the error -/
theorem ends_conclude (hm : m.Sane th b k) {r : Except Failure Value} (hQ : ∀ v, Q v → v.isSignaling = false)
    (h : CameTo th b k C Q m r m') :
    (conclude th (m.thread th).pins.size r).Ends m'
      (fun v m'' => (Machine.Even th b k m m'' ∧ Q v) ∧ PinsKept th (.ok v) m m'')
      fun e m'' => Machine.Failed th b k (fun c => C c ∧ c ≠ .lostError) m e m'' ∧
        (∀ c, e = .raised c → PinsKept th (.error e) m m'') ∧
        (e = .fault .exhausted → r = .error (.fault .exhausted)) := by
  unfold conclude
  split
  · exact ⟨⟨⟨Failure.isKnown_fault (by simp), h.1, by simp, by simp⟩, by simp⟩, by simp, by simp⟩
  · rename_i hne
    have hquiet : ∀ v ∈ outcomeKept r, v.isSignaling = false := by
      intro v hv
      unfold outcomeKept at hv
      split at hv
      · cases List.mem_singleton.1 hv; exact hQ _ h.2.1
      · cases List.mem_singleton.1 hv; rfl
      · cases hv
    refine Ends.bind (P := fun _ m'' => Machine.Onward th b k m m'' ∧
      (m''.thread th).height = (m'.thread th).height ∧ m''.heap = m'.heap ∧ PinsKept th r m m'') (onward_unpin hm h.1 rfl) ?_
    rintro _ m'' ⟨hon, hheight, hheap, hpins⟩
    have hquietly := hpins.quietly hquiet
    obtain ⟨-, h⟩ := h
    cases r with
    | ok w => exact ⟨⟨⟨hon, hquietly, hheight.trans h.2⟩, h.1⟩, hpins⟩
    | error e =>
      refine ⟨⟨⟨⟨fun c hc => ⟨h.1.cause c hc, ?_⟩, h.1.fault⟩, hon, fun _ _ => hquietly, ?_⟩,
        fun c hc => hheight.trans (h.2.1 c hc)⟩, fun _ _ => hpins, fun he => by rw [he]⟩
      · rintro rfl
        exact hne (by rw [hc])
      · rintro o rfl
        exact hpins.secure (hheap ▸ h.2.2 o rfl)

/-- a full heap inside a guard becomes an ordinary error, and slots left behind are removed -/
theorem ends_contain (hm : m.Sane th b k) (hC : C (.object Machine.exhaustedError)) {r : Except Failure Value}
    (h : CameTo th b k C Q m r m') :
    (contain th (m.thread th).stack.size r).Ends m'
      (fun r m'' => CameTo th b k C Q m r m'' ∧ r ≠ .error (.fault .exhausted)) fun _ _ => False := by
  unfold contain
  split
  · have hdrop := ends_dropAbove hm h.1
    rw [← hm.size] at hdrop
    refine Ends.bind (P := fun r m'' => r = .ok () ∧ Machine.Onward th b k m m'' ∧
      (m''.thread th).height = (m.thread th).height)
      (.observe (hdrop.mono (fun _ _ h => ⟨rfl, h.1, h.2.1.trans hm.size⟩) fun _ _ h => h.elim)) ?_
    rintro _ m'' ⟨rfl, hon, hheight⟩
    refine ⟨⟨hon, Failure.isKnown_raised hC, fun _ _ => hheight, ?_⟩, by simp⟩
    rintro _ ⟨⟩
    exact hon.clean.heap.spare
  · rename_i hne
    exact ⟨h, fun hr => hne hr⟩

/-- a guarded action ends evenly, in an ordinary error also if the heap is full -/
theorem ends_guarded {x : Act Value} (hm : m.Sane th b k) (hC : C (.object Machine.exhaustedError))
    (hQ : ∀ v, Q v → v.isSignaling = false) (hx : (observe x).Ends m (CameTo th b k C Q m) fun _ _ => False) :
    (guarded th x).Ends m (fun v m' => (Machine.Even th b k m m' ∧ Q v) ∧ PinsKept th (.ok v) m m')
      fun e m' => Machine.Failed th b k (fun c => C c ∧ c ≠ .lostError) m e m' ∧
        (∀ c, e = .raised c → PinsKept th (.error e) m m') ∧ e ≠ .fault .exhausted := by
  unfold guarded openGuard
  refine Ends.bind (P := fun g m' => g = ⟨(m.thread th).pins.size, (m.thread th).stack.size⟩ ∧ m' = m) ⟨rfl, rfl⟩ ?_
  rintro _ m' ⟨rfl, rfl⟩
  refine Ends.bind (hx.mono (fun _ _ h => h) fun _ _ h => h.elim) fun r m₁ h => ?_
  exact Ends.bind ((ends_contain hm hC h).mono (fun _ _ h => h) fun _ _ h => h.elim) fun r m₂ h =>
    (ends_conclude hm hQ h.1).mono (fun _ _ h => h) fun _ _ he => ⟨he.1, he.2.1, fun hex => h.2 (he.2.2 hex)⟩

theorem Ends.cameTo {x : Act Value}
    (hx : x.Ends m (fun v m' => Machine.Even th b k m m' ∧ Q v) (Machine.Failed th b k C m)) :
    (Act.observe x).Ends m (CameTo th b k C Q m) fun _ _ => False :=
  .observe (hx.mono (fun _ _ h => ⟨h.1.toOnward, h.2, h.1.level⟩) fun _ _ h =>
    ⟨h.onward, h.toIsKnown, h.level, fun o ho => (h.secure o ho).holds⟩)

theorem runs_guarded {x : Act Value} (hC : C (.object Machine.exhaustedError)) (hQ : ∀ v, Q v → v.isSignaling = false)
    (hx : Runs th b k C x Q) : Runs th b k C (guarded th x) Q := fun m hm =>
  (ends_guarded hm hC hQ (hx m hm).cameTo).mono (fun _ _ h => h.1)
    fun _ _ h => h.1.mono fun _ hc => hc.1

end Guards

end Act

end LispMachine
