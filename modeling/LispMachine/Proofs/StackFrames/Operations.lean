/-
The stack as a bounded list.

An operation on a stack does to the list of its values what `Stack.Does` says, or it is refused for a reason that
`Stack.Refuses` gives and changes no stack. Each is proved once, for one operation on any thread (`Act.performs`). A refusal is
reported, and what is reported of a top that is no count is its text: nothing that is printed changes a stack (`Act.Aside`).
-/
import LispMachine.Proofs.Laying
import LispMachine.Proofs.Tandem.Sessions

namespace LispMachine

/-! ## Operations and what they do to a list -/

namespace Stack

/-- a frame as it lies on a stack: its values and their count -/
def frame (vs : List Value) : List Value := vs ++ [.uint (UInt32.ofNat vs.length)]

/-- the operations on a stack; slots are written through references to them -/
inductive Op where
  | push (v : Value)
  | pop
  | makeFrame (vs : List Value)
  | closeFrame
  | closeFrameWith (v : Value)
  | argument (n : Int)
  | endFrame (n : Nat)
  | write (i : Nat) (v : Value)

/-- what an operation does to a list of at most `capacity` values, the top at the end: its result, the list after it, and the
lowest slot that it touches. References to the slots carry `id` -/
inductive Does (capacity id : Nat) : List Value → Op → Option Value → List Value → Nat → Prop where
  | push {l : List Value} {v : Value} : l.length < capacity →
      Does capacity id l (.push v) (some (.ref (.stack id l.length))) (l ++ [v]) l.length
  | pop {l : List Value} {v : Value} : Does capacity id (l ++ [v]) .pop (some v) l l.length
  | makeFrame {l vs : List Value} : (l ++ frame vs).length ≤ capacity →
      Does capacity id l (.makeFrame vs) none (l ++ frame vs) l.length
  | closeFrame {l vs : List Value} : Does capacity id (l ++ frame vs) .closeFrame none l l.length
  | closeFrameWith {l vs : List Value} {v : Value} :
      Does capacity id (l ++ frame vs) (.closeFrameWith v) none (l ++ [v]) l.length
  | argument {l vs : List Value} {i : Nat} : i < vs.length →
      Does capacity id (l ++ frame vs) (.argument i) (some (.ref (.stack id (l.length + i)))) (l ++ frame vs)
        (l ++ frame vs).length
  | endFrame {l vs : List Value} : Does capacity id (l ++ vs) (.endFrame vs.length) none l l.length
  | write {l : List Value} {i : Nat} {v : Value} : i < l.length → Does capacity id l (.write i v) none (l.set i v) i

/-- why there is no frame on top of a list: there is no value, or a count of more values than there are, or no count -/
inductive Frameless : List Value → StackError → Prop where
  | empty : Frameless [] .underflow
  | short {l : List Value} {n : UInt32} : l.length < n.toNat → Frameless (l ++ [.uint n]) .underflow
  | notMarker {l : List Value} {v : Value} : (∀ n, v ≠ .uint n) → Frameless (l ++ [v]) (.notMarker v)

/-- whether an operation is about the frame on top -/
def Op.onFrame : Op → Bool
  | .closeFrame | .closeFrameWith _ | .argument _ => true
  | _ => false

/-- why an operation on a list of at most `capacity` values is refused -/
inductive Refuses (capacity : Nat) : List Value → Op → StackError → Prop where
  | push {l : List Value} {v : Value} : capacity ≤ l.length → Refuses capacity l (.push v) (.overflow l.length capacity)
  | pop : Refuses capacity [] .pop .underflow
  | makeFrame {l vs : List Value} : capacity < (l ++ frame vs).length →
      Refuses capacity l (.makeFrame vs) (.overflow l.length capacity)
  | frameless {l : List Value} {op : Op} {e : StackError} : op.onFrame = true → Frameless l e → Refuses capacity l op e
  | argument {l vs : List Value} {n : Int} : n < 0 ∨ vs.length ≤ n →
      Refuses capacity (l ++ frame vs) (.argument n) (.argIndex n vs.length)
  | endFrame {l : List Value} {n : Nat} : l.length < n → Refuses capacity l (.endFrame n) .underflow
  | write {l : List Value} {i : Nat} {v : Value} : l.length ≤ i → Refuses capacity l (.write i v) (.popped i)

/-- the failure that a refusal becomes: an ordinary error, unless a top that is no count has no end when it is printed -/
inductive Reported (id : Nat) : StackError → Failure → Prop where
  | overflow {size capacity : Nat} : Reported id (.overflow size capacity) (.raised (.stackOverflow size capacity))
  | underflow : Reported id .underflow (.raised .stackUnderflow)
  | argIndex {n : Int} {count : Nat} : Reported id (.argIndex n count) (.raised (.argIndex n count))
  | popped {i : Nat} : Reported id (.popped i) (.raised (.poppedSlot i id))
  | notMarker {v : Value} {text : String} : Reported id (.notMarker v) (.raised (.notMarker id text))
  | endless {v : Value} : Reported id (.notMarker v) (.fault .endless)

section

variable {capacity id low : Nat} {l l' vs : List Value} {op : Op} {r : Option Value}

@[simp] theorem length_frame (vs : List Value) : (frame vs).length = vs.length + 1 := by simp [frame]

/-- below the lowest slot that is touched everything stays -/
theorem Does.below (h : Does capacity id l op r l' low) : low ≤ l.length ∧ low ≤ l'.length ∧ l'.take low = l.take low := by
  cases h with
  | write hi => exact ⟨hi.le, by simpa using hi.le, List.take_set_of_le le_rfl⟩
  | _ => simp

/-- the frame on top of a list is told by its count -/
theorem frame_inj {vs' : List Value} (h : l ++ frame vs = l' ++ frame vs') (hvs : vs.length < 2 ^ 32)
    (hvs' : vs'.length < 2 ^ 32) : l = l' ∧ vs = vs' := by
  rw [frame, frame, ← List.append_assoc, ← List.append_assoc] at h
  obtain ⟨hrest, htop⟩ := List.append_inj' h rfl
  have hcount : UInt32.ofNat vs.length = UInt32.ofNat vs'.length := by simpa using htop
  have hlen : vs.length = vs'.length := by
    rw [← UInt32.toNat_ofNat_of_lt' hvs, hcount, UInt32.toNat_ofNat_of_lt' hvs']
  exact List.append_inj' hrest hlen

theorem Frameless.inside {e : StackError} (he : Frameless l e) (i c : Nat) : e ≠ .outside i c := by cases he <;> simp

theorem Does.low_makeFrame (h : Does capacity id l (.makeFrame vs) r l' low) : low = l.length := by
  cases h
  rfl

/-- what is done leaves at most `capacity` values where there were no more -/
theorem Does.length_le (h : Does capacity id l op r l' low) (hl : l.length ≤ capacity) : l'.length ≤ capacity := by
  cases h <;> simp only [List.length_append, List.length_cons, List.length_nil, length_frame, List.length_set] at * <;> omega

/-- there is a frame on top of a list, or it is frameless -/
theorem frame_or (l : List Value) : (∃ below vs, l = below ++ frame vs) ∨ ∃ e, Frameless l e := by
  rcases l.eq_nil_or_concat with rfl | ⟨l, v, rfl⟩
  · exact .inr ⟨_, .empty⟩
  rw [List.concat_eq_append]
  by_cases hv : ∃ n, v = .uint n
  · obtain ⟨n, rfl⟩ := hv
    rcases Nat.lt_or_ge l.length n.toNat with hlt | hge
    · exact .inr ⟨_, .short hlt⟩
    · have hlen : (l.drop (l.length - n.toNat)).length = n.toNat := by rw [List.length_drop]; omega
      refine .inl ⟨l.take (l.length - n.toNat), l.drop (l.length - n.toNat), ?_⟩
      rw [frame, hlen, UInt32.ofNat_toNat, ← List.append_assoc, List.take_append_drop]
  · exact .inr ⟨_, .notMarker (not_exists.1 hv)⟩

end

/-! ## The operations on a stack whose slots all exist -/

section

variable {s : Stack} {l vs : List Value}

theorem frameCount_of_frame (hwhole : s.beyond = 0) (hitems : s.items.toList = l ++ frame vs) (hvs : vs.length < 2 ^ 32) :
    s.frameCount = .ok vs.length := by
  have hcount : (UInt32.ofNat vs.length).toNat = vs.length := UInt32.toNat_ofNat_of_lt' hvs
  have hsize : s.size = l.length + vs.length + 1 := by
    rw [size, hwhole, ← Array.length_toList, hitems, List.length_append, length_frame]
    rfl
  have htop : s.items.back? = some (.uint (UInt32.ofNat vs.length)) := by
    rw [← Array.getLast?_toList, hitems, frame, ← List.append_assoc, List.getLast?_concat]
  unfold frameCount
  rw [hwhole, if_neg (Nat.lt_irrefl 0), htop]
  simp only [hcount, hsize]
  rw [if_neg (by omega)]

theorem frameCount_of_frameless (hwhole : s.beyond = 0) {e : StackError} (he : Frameless s.items.toList e) :
    s.frameCount = .error e := by
  unfold frameCount
  rw [hwhole, if_neg (Nat.lt_irrefl 0), ← Array.getLast?_toList]
  have hsize : s.size = s.items.toList.length := by rw [size, hwhole]; simp
  rw [hsize]
  generalize s.items.toList = items at he
  cases he with
  | empty => rfl
  | short hlt =>
    rw [List.getLast?_concat]
    simp only [List.length_append, List.length_cons, List.length_nil]
    rw [if_pos (by omega)]
  | @notMarker l v hv =>
    rw [List.getLast?_concat]
    cases v with
    | uint n => exact absurd rfl (hv n)
    | _ => rfl

/-- a frame on top is dropped -/
theorem drop_frame (hitems : s.items.toList = l ++ frame vs) : s.drop (vs.length + 1) = { s with items := l.toArray } := by
  have hsize : s.items.size = l.length + (vs.length + 1) := by
    rw [← Array.length_toList, hitems, List.length_append, length_frame]
  have hrest : s.items.shrink (s.items.size - (vs.length + 1)) = l.toArray := by
    refine Array.toList_inj.1 ?_
    rw [hsize]
    simp [hitems]
  rw [drop, hrest]

end

/-- the operation on a thread's stack, with its result if it has one -/
def Op.act (th : ThreadId) : Op → Act (Option Value)
  | .push v => do return some (← Act.push th v)
  | .pop => do return some (← Act.popRaw th)
  | .makeFrame vs => do
    Act.onStack th (·.makeFrame vs)
    return none
  | .closeFrame => do
    Act.onStack th (·.closeFrame)
    return none
  | .closeFrameWith v => do
    Act.onStack th (·.closeFrameWith v)
    return none
  | .argument n => do return some (← Act.argReference th n)
  | .endFrame n => do
    Act.endFrame th n
    return none
  | .write i v => do
    Act.store (.stack (← Act.stackId th) i) v
    return none

end Stack

open Stack (Op Does Refuses Reported Frameless frame)

namespace Machine

/-- a thread that is open and has a stack of its own, all slots of which exist -/
structure StackReady (m : Machine) (th : ThreadId) : Prop where
  isOpen : (m.thread th).isOpen = true
  whole : (m.thread th).stack.beyond = 0
  fits : (m.thread th).stack.items.size ≤ (m.thread th).stack.capacity
  small : (m.thread th).stack.capacity < Act.capacityLimit
  owned : (m.stackOwners[(m.thread th).stack.id]?).join = some th

/-- the values on a thread's stack from the bottom up -/
def stacked (m : Machine) (th : ThreadId) : List Value := (m.thread th).stack.items.toList

/-- the machine with other values on a thread's stack -/
def restack (m : Machine) (th : ThreadId) (l : List Value) : Machine := m.onThread th (Thread.stacking fun _ => l.toArray)

/-- changing a thread to what it is changes nothing -/
theorem onThread_self {m : Machine} {th : ThreadId} {f : Thread → Thread} (h : f (m.thread th) = m.thread th) :
    m.onThread th f = m := by
  have hsame : m.threads.modify th f = m.threads := by
    refine Array.ext_getElem? fun i => ?_
    rw [Array.getElem?_modify]
    split
    · rename_i heq
      subst heq
      cases ht : m.threads[th]? with
      | none => rfl
      | some t =>
        rw [Machine.thread, ht] at h
        exact congrArg some h
    · rfl
  rw [onThread, hsame]

/-- no stack has been changed, nor whose it is -/
structure SameStacks (m m' : Machine) : Prop where
  threads : m'.threads = m.threads
  owners : m'.stackOwners = m.stackOwners

/-- a refusal has been reported: no stack has been changed, and nothing on the heap unless a top that is no count was printed -/
structure Refused (th : ThreadId) (e : StackError) (m : Machine) (f : Failure) (m' : Machine) : Prop where
  kept : m.SameStacks m'
  reported : Reported (m.thread th).stack.id e f
  heap : (∀ v, e ≠ .notMarker v) → m'.heap = m.heap ∧ m'.symbols = m.symbols

theorem SameStacks.trans {m m' m'' : Machine} (h₁ : m.SameStacks m') (h₂ : m'.SameStacks m'') : m.SameStacks m'' :=
  ⟨h₂.threads.trans h₁.threads, h₂.owners.trans h₁.owners⟩

theorem SameStacks.thread {m m' : Machine} (h : m.SameStacks m') (th : ThreadId) : m'.thread th = m.thread th := by
  rw [Machine.thread, h.threads, Machine.thread]

end Machine

namespace Act

open Machine

variable {α β : Type} {th : ThreadId} {m m' : Machine}

/-! ## A top that is no count is printed -/

/-- an action that leaves the stacks alone and fails with faults only -/
class Aside (x : Act α) : Prop where
  ends (m : Machine) : x.Ends m (fun _ => m.SameStacks) fun e m' => m.SameStacks m' ∧ ∃ f, e = .fault f

namespace Aside

variable {x : Act α} {f : α → Act β}

instance pure (a : α) : Aside (pure a : Act α) := ⟨fun _ => ⟨rfl, rfl⟩⟩

instance get : Aside (get : Act Machine) := ⟨fun _ => ⟨rfl, rfl⟩⟩

instance fault (f : Fault) : Aside (fault f : Act α) := ⟨fun _ => ⟨⟨rfl, rfl⟩, f, rfl⟩⟩

instance note (e : Event) : Aside (note e) := ⟨fun _ => ⟨rfl, rfl⟩⟩

instance bind [hx : Aside x] [hf : ∀ a, Aside (f a)] : Aside (x >>= f) where
  ends m := (hx.ends m).bind fun a m' hm => ((hf a).ends m').mono (fun _ _ h => hm.trans h) fun _ _ h => ⟨hm.trans h.1, h.2⟩

/-- an action is followed by one that depends on its result -/
theorem next [Aside x] (hf : ∀ a, Aside (f a)) : Aside (x >>= f) := inferInstance

/-- an action is followed by one that depends on its result or on the fault that took its place -/
theorem observed [hx : Aside x] {f : Except Failure α → Act β} (hok : ∀ a, Aside (f (.ok a)))
    (hfault : ∀ e, Aside (f (.error (.fault e)))) : Aside (Act.observe x >>= f) where
  ends m := by
    refine (hx.ends m).observing (fun a m' hm => ?_) ?_
    · exact ((hok a).ends m').mono (fun _ _ h => hm.trans h) fun _ _ h => ⟨hm.trans h.1, h.2⟩
    · rintro _ m' ⟨hm, e, rfl⟩
      exact ((hfault e).ends m').mono (fun _ _ h => hm.trans h) fun _ _ h => ⟨hm.trans h.1, h.2⟩

end Aside

instance (name : String) : Aside (intern name) where
  ends m := by
    cases hs : m.symbols.lookup name with
    | some h =>
      unfold Ends
      rw [Machine.run_intern_known hs]
      exact ⟨rfl, rfl⟩
    | none =>
      unfold Ends
      rw [Machine.run_intern_new hs]
      cases m.heap.isFull
      · exact ⟨rfl, rfl⟩
      · exact ⟨⟨rfl, rfl⟩, _, rfl⟩

instance (p : Place) : Aside (look p) := by
  unfold look
  exact .next fun m => by split <;> infer_instance

instance (around : List Value) (v : Value) : Aside (Render.into around v) := by
  unfold Render.into
  split <;> infer_instance

instance (around : List Value) (v : Value) (h : Handle) (c : Cell) : Aside (Render.startObject m around v h c) := by
  unfold Render.startObject
  cases c <;> infer_instance

instance (around : List Value) (v : Value) : Aside (Render.start around v) := by
  unfold Render.start
  split
  · infer_instance
  · split
    · infer_instance
    · split
      · infer_instance
      · exact .next fun m => by split <;> infer_instance

instance (n : Nat) (job : Render.Job) (acc : List String) : Aside (Render.run n job acc) := by
  induction n generalizing job acc with
  | zero => exact .fault _
  | succ n ih =>
    unfold Render.run
    cases job with
    | value around v => exact .next fun r => by cases r <;> infer_instance
    | element around opened v =>
      simp only
      split
      · exact .next fun m => by split <;> infer_instance
      · infer_instance
    | list around opened h => simp only; split <;> infer_instance
    | chain around opened h =>
      refine .next fun m => ?_
      split
      · refine .next fun acc => ?_
        split
        · infer_instance
        · refine .next fun m => ?_
          split
          · infer_instance
          · split <;> infer_instance
          · infer_instance
        · infer_instance
      · infer_instance
    | parts around ps =>
      cases ps with
      | nil => exact .pure _
      | cons p ps =>
        cases p with
        | payload v => exact .observed (fun _ => ih _ _) fun e => by cases e <;> infer_instance
        | _ => simp only; infer_instance

instance (v : Value) : Aside (print v) := by
  unfold print
  rw [printJob_eq]
  infer_instance

/-- the text of a value inside a message, if there is an end to it -/
theorem ends_printIn (verb : String) (v : Value) (m : Machine) : (printIn verb v).Ends m (fun _ => m.SameStacks) fun e m' =>
    m.SameStacks m' ∧ e = .fault .endless := by
  unfold printIn
  refine (Aside.ends (x := print v) m).observing (fun _ _ h => h) ?_
  rintro _ m' ⟨hm, f, rfl⟩
  cases f <;> first | exact hm | exact ⟨hm, rfl⟩

/-! ## Each operation -/

theorem ends_stackFailure {e : StackError} (he : ∀ i c, e ≠ .outside i c) (m : Machine) :
    (stackFailure (m.thread th).stack.id e).Ends m (m.Refused th e) (m.Refused th e) := by
  cases e with
  | overflow size capacity => exact ⟨⟨rfl, rfl⟩, .overflow, fun _ => ⟨rfl, rfl⟩⟩
  | underflow => exact ⟨⟨rfl, rfl⟩, .underflow, fun _ => ⟨rfl, rfl⟩⟩
  | argIndex attempted length => exact ⟨⟨rfl, rfl⟩, .argIndex, fun _ => ⟨rfl, rfl⟩⟩
  | popped i => exact ⟨⟨rfl, rfl⟩, .popped, fun _ => ⟨rfl, rfl⟩⟩
  | outside i c => exact absurd rfl (he i c)
  | notMarker v =>
    unfold stackFailure
    refine Ends.bind ((ends_printIn "s" v m).mono (fun _ _ h => h) ?_) fun text m' hm => ?_
    · rintro _ m' ⟨hm, rfl⟩
      exact ⟨hm, .endless, fun h => absurd rfl (h v)⟩
    · exact ⟨hm, .notMarker, fun h => absurd rfl (h v)⟩

/-- an action fails as a refusal is reported -/
def Reports (th : ThreadId) (m : Machine) (e : StackError) (x : Act α) : Prop := x.Ends m (fun _ _ => False) (m.Refused th e)

theorem Reports.bind {e : StackError} {x : Act α} (hx : Reports th m e x) (f : α → Act β) : Reports th m e (x >>= f) :=
  Ends.bind hx fun _ _ h => h.elim

theorem reports_throw {e : StackError} (he : ∀ i c, e ≠ .outside i c) :
    Reports th m e (do throw (← stackFailure (m.thread th).stack.id e) : Act α) :=
  Ends.bind (ends_stackFailure he m) fun _ _ h => h

theorem reports_readStack {f : Stack → Except StackError α} {e : StackError} (h : f (m.thread th).stack = .error e)
    (he : ∀ i c, e ≠ .outside i c) : Reports th m e (readStack th f) := by
  unfold Reports Ends
  rw [Tandem.run_readStack_error h]
  exact reports_throw he

theorem reports_onStack {f : Stack → Except StackError Stack} {e : StackError} (h : f (m.thread th).stack = .error e)
    (he : ∀ i c, e ≠ .outside i c) : Reports th m e (onStack th f) := (reports_readStack h he).bind _

/-- a refusal that leaves the stack as it was -/
theorem reports_throughStack {f : Stack → Except StackError α × Stack} {e : StackError}
    (h : f (m.thread th).stack = (.error e, (m.thread th).stack)) (he : ∀ i c, e ≠ .outside i c) :
    Reports th m e (throughStack th f) := by
  have hsame : m.onThread th (Thread.stacking fun _ => (m.thread th).stack.items) = m := Machine.onThread_self rfl
  have hset : (setStack th (m.thread th).stack).run m = .ok () m :=
    (Tandem.setStack_eq _).trans (congrArg (EStateM.Result.ok ()) hsame)
  have hstack : (stackOf th).run m = .ok (m.thread th).stack m := rfl
  unfold throughStack Reports Ends
  rw [bind_ok hstack]
  simp only [h]
  rw [bind_ok hset]
  exact reports_throw he

/-- what a stack operation makes of the values -/
theorem run_onStack_items {f : Stack → Except StackError Stack} {l : List Value}
    (h : f (m.thread th).stack = .ok { (m.thread th).stack with items := l.toArray }) :
    (onStack th f).run m = .ok () (m.restack th l) := by
  rw [run_onStack h]
  exact congrArg (EStateM.Result.ok ()) (Machine.onThread_congr rfl)

/-- an operation is done to the list of the values on the stack and changes nothing else, or it is refused and changes no stack -/
def Performs (th : ThreadId) (op : Op) (m : Machine) : Prop :=
  (op.act th).Ends m
    (fun r m' => ∃ l low, Does (m.thread th).stack.capacity (m.thread th).stack.id (m.stacked th) op r l low ∧
      m' = m.restack th l)
    fun f m' => ∃ e, Refuses (m.thread th).stack.capacity (m.stacked th) op e ∧ m.Refused th e f m'

theorem performs_of_run {op : Op} {r : Option Value} {l : List Value} {low : Nat}
    (hrun : (op.act th).run m = .ok r (m.restack th l))
    (hdoes : Does (m.thread th).stack.capacity (m.thread th).stack.id (m.stacked th) op r l low) : Performs th op m := by
  unfold Performs Ends
  rw [hrun]
  exact ⟨l, low, hdoes, rfl⟩

theorem performs_of_reports {op : Op} {e : StackError} (hreports : Reports th m e (op.act th))
    (he : Refuses (m.thread th).stack.capacity (m.stacked th) op e) : Performs th op m :=
  Ends.mono hreports (fun _ _ h => h.elim) fun _ _ h => ⟨e, he, h⟩

section

variable (hm : m.StackReady th)
include hm

theorem size_eq : (m.thread th).stack.size = (m.stacked th).length := by
  rw [Stack.size, hm.whole, Machine.stacked]
  simp

theorem performs_push (v : Value) : Performs th (.push v) m := by
  have hsize := size_eq hm
  have hsame : m.onThread th (fun t => { t with stack := { t.stack with items := t.stack.items.push v } }) =
      m.restack th (m.stacked th ++ [v]) := by
    have hitems : (m.thread th).stack.items.push v = (m.stacked th ++ [v]).toArray :=
      Array.toList_inj.1 (by simp [Machine.stacked])
    exact Machine.onThread_congr (by simp only [Thread.stacking, hitems])
  rcases Nat.lt_or_ge (m.stacked th).length (m.thread th).stack.capacity with hlt | hge
  · refine performs_of_run ?_ (.push hlt)
    have hroom : ¬ (m.thread th).stack.capacity ≤ (m.thread th).stack.size := by omega
    have hpush : (push th v).run m = .ok (.ref (.stack (m.thread th).stack.id (m.thread th).stack.size))
        (m.restack th (m.stacked th ++ [v])) := by
      unfold push
      simp only [run_bind, run_get, run_modify, run_pure, hroom, if_false]
      rw [← hsame]
      rfl
    rw [← hsize]
    exact bind_ok hpush
  · refine performs_of_reports (Reports.bind ?_ _) (.push hge)
    have hfull : (m.thread th).stack.capacity ≤ (m.thread th).stack.size := by omega
    unfold push Reports Ends
    simp only [run_bind, run_get, run_note, run_raise, hfull, if_true]
    rw [hsize]
    exact ⟨⟨rfl, rfl⟩, .overflow, fun _ => ⟨rfl, rfl⟩⟩

theorem performs_pop : Performs th .pop m := by
  rcases (m.stacked th).eq_nil_or_concat with hnil | ⟨l, v, hl⟩
  · have hpop : (m.thread th).stack.pop = (.error .underflow, (m.thread th).stack) := by
      unfold Stack.pop
      rw [← Array.getLast?_toList, show (m.thread th).stack.items.toList = [] from hnil]
      simp [hm.whole]
    refine performs_of_reports ((reports_throughStack hpop (by simp)).bind _) ?_
    rw [hnil]
    exact .pop
  · rw [List.concat_eq_append] at hl
    have hrest : (m.thread th).stack.items.pop = l.toArray := Array.toList_inj.1 (by
      rw [Array.toList_pop, show (m.thread th).stack.items.toList = l ++ [v] from hl]
      simp)
    have hpop := Tandem.run_popRaw hm.whole hl
    rw [hrest] at hpop
    have hdoes : Does (m.thread th).stack.capacity (m.thread th).stack.id (m.stacked th) .pop (some v) l l.length := by
      rw [hl]
      exact .pop
    exact performs_of_run (bind_ok hpop) hdoes

theorem makeFrame_eq {vs : List Value} (hfits : (m.stacked th ++ frame vs).length ≤ (m.thread th).stack.capacity) :
    (m.thread th).stack.makeFrame vs = .ok { (m.thread th).stack with items := (m.stacked th ++ frame vs).toArray } := by
  have hsize := size_eq hm
  have hitems : ((m.thread th).stack.items ++ vs.toArray).push (.uint (UInt32.ofNat vs.length)) =
      (m.stacked th ++ frame vs).toArray := Array.toList_inj.1 (by simp [Machine.stacked, frame])
  rw [List.length_append, Stack.length_frame] at hfits
  unfold Stack.makeFrame
  rw [if_neg (by omega), hitems]

theorem performs_makeFrame (vs : List Value) : Performs th (.makeFrame vs) m := by
  have hsize := size_eq hm
  rcases Nat.lt_or_ge (m.thread th).stack.capacity (m.stacked th ++ frame vs).length with hfull | hfits
  · have hframe : (m.thread th).stack.makeFrame vs = .error (m.thread th).stack.overflow := if_pos (by
      rw [List.length_append, Stack.length_frame] at hfull
      omega)
    rw [Stack.overflow, hsize] at hframe
    exact performs_of_reports ((reports_onStack hframe (by simp)).bind _) (.makeFrame hfull)
  · exact performs_of_run (bind_ok (run_onStack_items (makeFrame_eq hm hfits))) (.makeFrame hfits)

/-- there are fewer values in a frame than there may be on a stack -/
theorem length_lt_of_frame {l vs : List Value} (hl : m.stacked th = l ++ frame vs) : vs.length < 2 ^ 32 := by
  have hfits := hm.fits
  have hsmall := hm.small
  rw [← Array.length_toList, show (m.thread th).stack.items.toList = l ++ frame vs from hl, List.length_append,
    Stack.length_frame] at hfits
  unfold capacityLimit at hsmall
  omega

theorem frameCount_eq {l vs : List Value} (hl : m.stacked th = l ++ frame vs) :
    (m.thread th).stack.frameCount = .ok vs.length :=
  Stack.frameCount_of_frame hm.whole hl (length_lt_of_frame hm hl)

theorem closeFrame_eq {l vs : List Value} (hl : m.stacked th = l ++ frame vs) :
    (m.thread th).stack.closeFrame = .ok { (m.thread th).stack with items := l.toArray } := by
  unfold Stack.closeFrame
  rw [frameCount_eq hm hl]
  exact congrArg Except.ok (Stack.drop_frame hl)

/-- where a frame has been there is room for a value -/
theorem closeFrameWith_eq {l vs : List Value} (hl : m.stacked th = l ++ frame vs) (v : Value) :
    (m.thread th).stack.closeFrameWith v = .ok { (m.thread th).stack with items := (l ++ [v]).toArray } := by
  have hfits := hm.fits
  rw [← Array.length_toList, show (m.thread th).stack.items.toList = l ++ frame vs from hl, List.length_append,
    Stack.length_frame] at hfits
  have hroom : ¬ (m.thread th).stack.capacity ≤ l.toArray.size + (m.thread th).stack.beyond := by
    rw [hm.whole, List.size_toArray]
    omega
  have hpush : ({ (m.thread th).stack with items := l.toArray } : Stack).push v =
      .ok { (m.thread th).stack with items := (l ++ [v]).toArray } := by
    rw [← List.push_toArray]
    exact if_neg hroom
  unfold Stack.closeFrameWith
  rw [closeFrame_eq hm hl]
  exact hpush

theorem argSlot_eq {l vs : List Value} (hl : m.stacked th = l ++ frame vs) (n : Int) :
    (m.thread th).stack.argSlot n =
      if n < 0 ∨ vs.length ≤ n then .error (.argIndex n vs.length) else .ok (l.length + n.toNat) := by
  have hsize : (m.thread th).stack.size = l.length + (vs.length + 1) := by
    rw [size_eq hm, hl, List.length_append, Stack.length_frame]
  have hbase : (m.thread th).stack.size - 1 - vs.length = l.length := by omega
  unfold Stack.argSlot
  rw [frameCount_eq hm hl]
  simp only [hbase]

/-- an operation on the frame on top, when there is none -/
theorem performs_frameless {op : Op} {e : StackError} (hop : op.onFrame = true) (he : Frameless (m.stacked th) e)
    (hreports : (m.thread th).stack.frameCount = .error e → (∀ i c, e ≠ .outside i c) → Reports th m e (op.act th)) :
    Performs th op m :=
  performs_of_reports (hreports (Stack.frameCount_of_frameless hm.whole he) he.inside) (.frameless hop he)

theorem performs_closeFrame : Performs th .closeFrame m := by
  rcases Stack.frame_or (m.stacked th) with ⟨l, vs, hl⟩ | ⟨e, he⟩
  · have hdoes : Does (m.thread th).stack.capacity (m.thread th).stack.id (m.stacked th) .closeFrame none l l.length := by
      rw [hl]
      exact .closeFrame
    exact performs_of_run (bind_ok (run_onStack_items (closeFrame_eq hm hl))) hdoes
  · refine performs_frameless hm rfl he fun hcount hinside => Reports.bind (reports_onStack ?_ hinside) _
    rw [Stack.closeFrame, hcount]

theorem performs_closeFrameWith (v : Value) : Performs th (.closeFrameWith v) m := by
  rcases Stack.frame_or (m.stacked th) with ⟨l, vs, hl⟩ | ⟨e, he⟩
  · have hdoes : Does (m.thread th).stack.capacity (m.thread th).stack.id (m.stacked th) (.closeFrameWith v) none (l ++ [v])
        l.length := by
      rw [hl]
      exact .closeFrameWith
    exact performs_of_run (bind_ok (run_onStack_items (closeFrameWith_eq hm hl v))) hdoes
  · refine performs_frameless hm rfl he fun hcount hinside => Reports.bind (reports_onStack ?_ hinside) _
    rw [Stack.closeFrameWith, Stack.closeFrame, hcount]

/-- the reference to an argument of the frame on top, for an index that it has -/
theorem run_argReference_frame {l vs : List Value} (hl : m.stacked th = l ++ frame vs) {i : Nat} (hi : i < vs.length) :
    (argReference th i).run m = .ok (.ref (.stack (m.thread th).stack.id (l.length + i))) m := by
  have hslot := argSlot_eq hm hl i
  rw [if_neg (by omega)] at hslot
  unfold argReference
  rw [bind_ok (run_readStack hslot)]
  rfl

theorem reports_argReference {l vs : List Value} (hl : m.stacked th = l ++ frame vs) {n : Int} (hn : n < 0 ∨ vs.length ≤ n) :
    Reports th m (.argIndex n vs.length) (argReference th n) := by
  have hslot := argSlot_eq hm hl n
  rw [if_pos hn] at hslot
  exact (reports_readStack hslot (by simp)).bind _

theorem performs_argument (n : Int) : Performs th (.argument n) m := by
  rcases Stack.frame_or (m.stacked th) with ⟨l, vs, hl⟩ | ⟨e, he⟩
  · by_cases hn : n < 0 ∨ vs.length ≤ n
    · refine performs_of_reports ((reports_argReference hm hl hn).bind _) ?_
      rw [hl]
      exact .argument hn
    · obtain ⟨i, rfl⟩ : ∃ i : Nat, n = i := ⟨n.toNat, by omega⟩
      have hi : i < vs.length := by omega
      have hsame : m.restack th (m.stacked th) = m := Machine.onThread_self rfl
      have hdoes : Does (m.thread th).stack.capacity (m.thread th).stack.id (m.stacked th) (.argument i)
          (some (.ref (.stack (m.thread th).stack.id (l.length + i)))) (m.stacked th) (m.stacked th).length := by
        rw [hl]
        exact .argument hi
      refine performs_of_run ((bind_ok (run_argReference_frame hm hl hi)).trans ?_) hdoes
      rw [hsame]
      rfl
  · refine performs_frameless hm rfl he fun hcount hinside => Reports.bind (Reports.bind (reports_readStack ?_ hinside) _) _
    rw [Stack.argSlot, hcount]

theorem performs_endFrame (n : Nat) : Performs th (.endFrame n) m := by
  have hsize := size_eq hm
  rcases Nat.lt_or_ge (m.stacked th).length n with hlt | hge
  · have hend : (m.thread th).stack.endFrame n = (.error .underflow, (m.thread th).stack) := by
      unfold Stack.endFrame
      rw [if_neg (by omega)]
      simp only [Int.toNat_natCast]
      rw [if_pos (by omega)]
    exact performs_of_reports ((reports_throughStack hend (by simp)).bind _) (.endFrame hlt)
  · have hrest : (m.thread th).stack.items.shrink ((m.thread th).stack.items.size - n) =
        ((m.stacked th).take ((m.stacked th).length - n)).toArray := Array.toList_inj.1 (by simp [Machine.stacked])
    have hend : (m.thread th).stack.endFrame n = (.ok (), { (m.thread th).stack with
        items := ((m.stacked th).take ((m.stacked th).length - n)).toArray }) := by
      unfold Stack.endFrame
      rw [if_neg (by omega)]
      simp only [Int.toNat_natCast]
      rw [if_neg (by omega), if_pos (.inl hm.whole), Stack.drop, hrest]
    have hrun : (endFrame th n).run m = .ok () (m.restack th ((m.stacked th).take ((m.stacked th).length - n))) := by
      have hstack : (stackOf th).run m = .ok (m.thread th).stack m := rfl
      unfold endFrame throughStack
      rw [bind_ok hstack]
      simp only [hend]
      exact bind_ok (Tandem.setStack_eq _)
    have hdoes := @Does.endFrame (m.thread th).stack.capacity (m.thread th).stack.id
      ((m.stacked th).take ((m.stacked th).length - n)) ((m.stacked th).drop ((m.stacked th).length - n))
    rw [List.take_append_drop, List.length_drop, Nat.sub_sub_self hge] at hdoes
    exact performs_of_run (bind_ok hrun) hdoes

theorem performs_write (i : Nat) (v : Value) : Performs th (.write i v) m := by
  have hid : (stackId th).run m = .ok (m.thread th).stack.id m := rfl
  have hlength : (m.stacked th).length = (m.thread th).stack.items.size := Array.length_toList
  rcases Nat.lt_or_ge i (m.stacked th).length with hlt | hge
  · have hsame : m.onThread th (fun t => { t with stack := { t.stack with items := t.stack.items.setIfInBounds i v } }) =
        m.restack th ((m.stacked th).set i v) := by
      have hitems : (m.thread th).stack.items.setIfInBounds i v = ((m.stacked th).set i v).toArray :=
        Array.toList_inj.1 (by simp [Machine.stacked])
      exact Machine.onThread_congr (by simp only [Thread.stacking, hitems])
    have hset : ∃ s, (m.thread th).stack.set i v = .ok s := ⟨_, if_pos (hlength ▸ hlt)⟩
    obtain ⟨s, hset⟩ := hset
    have hstore : (store (.stack (m.thread th).stack.id i) v).run m = .ok () (m.restack th ((m.stacked th).set i v)) := by
      unfold store
      simp only [run_bind, run_get, hm.owned, hset, run_modify]
      rw [← hsame]
      rfl
    exact performs_of_run ((bind_ok hid).trans (bind_ok hstore)) (.write hlt)
  · have hset : (m.thread th).stack.set i v = .error (.popped i) := by
      unfold Stack.set
      rw [if_neg (by omega), if_neg (by rw [size_eq hm]; omega)]
    refine performs_of_reports ?_ (.write hge)
    unfold Reports Ends
    simp only [Op.act, run_bind, hid, store, run_get, hm.owned, hset, run_raise]
    exact ⟨⟨rfl, rfl⟩, .popped, fun _ => ⟨rfl, rfl⟩⟩

/-- every operation is done to the list of the values on the stack, or refused -/
theorem performs (op : Op) : Performs th op m := by
  cases op with
  | push v => exact performs_push hm v
  | pop => exact performs_pop hm
  | makeFrame vs => exact performs_makeFrame hm vs
  | closeFrame => exact performs_closeFrame hm
  | closeFrameWith v => exact performs_closeFrameWith hm v
  | argument n => exact performs_argument hm n
  | endFrame n => exact performs_endFrame hm n
  | write i v => exact performs_write hm i v

end

end Act

end LispMachine
