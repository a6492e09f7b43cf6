/-
Frames on a stack.

What a run of operations leaves below the slots it touches follows by induction from what one of them does
(`Machine.stacked_performAll`). A frame is found by the count on top of it, and that stays on top through every run that touches
no slot of the frame or under it and ends with the length it started with (`Machine.Excursion`). Such a run may open and close
frames of its own, to any depth.
-/
import LispMachine.Proofs.StackFrames.Operations

namespace LispMachine

open Stack (Op Does frame)

/-! ## Runs of operations -/

namespace Machine

/-- the machine after an operation on a thread's stack, whatever that ends with -/
def perform (m : Machine) (th : ThreadId) (op : Op) : Machine := Outcome.machine ((op.act th).run m)

def performAll (m : Machine) (th : ThreadId) (ops : List Op) : Machine := ops.foldl (fun m op => m.perform th op) m

/-- operations that, one after the other, touch no slot below `base` -/
def Above (th : ThreadId) (base : Nat) : List Op → Machine → Prop
  | [], _ => True
  | op :: ops, m =>
    (∀ r l low, Does (m.thread th).stack.capacity (m.thread th).stack.id (m.stacked th) op r l low → base ≤ low) ∧
      Above th base ops (m.perform th op)

/-- operations that touch no slot below the length they start with and end with that length -/
structure Excursion (th : ThreadId) (m : Machine) (ops : List Op) : Prop where
  above : Above th (m.stacked th).length ops m
  returns : ((m.performAll th ops).stacked th).length = (m.stacked th).length

/-- what operations leave of a thread's stack: it can be used as before, and is the same but for its values -/
structure Restacked (th : ThreadId) (m m' : Machine) : Prop where
  ready : m'.StackReady th
  stack : (m'.thread th).stack = { (m.thread th).stack with items := (m'.thread th).stack.items }

section

variable {th : ThreadId} {m m' m'' : Machine} {l : List Value} {op : Op} {ops : List Op} {base : Nat}

theorem Restacked.refl (hm : m.StackReady th) : m.Restacked th m := ⟨hm, rfl⟩

theorem Restacked.trans (h₁ : m.Restacked th m') (h₂ : m'.Restacked th m'') : m.Restacked th m'' :=
  ⟨h₂.ready, by rw [h₂.stack, h₁.stack]⟩

theorem Restacked.id (h : m.Restacked th m') : (m'.thread th).stack.id = (m.thread th).stack.id := by rw [h.stack]

theorem Restacked.capacity (h : m.Restacked th m') : (m'.thread th).stack.capacity = (m.thread th).stack.capacity := by
  rw [h.stack]

theorem thread_restack (hm : m.StackReady th) (l : List Value) :
    (m.restack th l).thread th = (m.thread th).stacking fun _ => l.toArray := by
  rw [restack, thread_onThread hm.isOpen, if_pos rfl]

theorem stacked_restack (hm : m.StackReady th) (l : List Value) : (m.restack th l).stacked th = l := by
  rw [stacked, thread_restack hm]
  rfl

theorem StackReady.length_le (hm : m.StackReady th) : (m.stacked th).length ≤ (m.thread th).stack.capacity := by
  rw [stacked, Array.length_toList]
  exact hm.fits

theorem restacked_restack (hm : m.StackReady th) (hl : l.length ≤ (m.thread th).stack.capacity) :
    m.Restacked th (m.restack th l) := by
  have hthread := thread_restack hm l
  refine ⟨⟨?_, ?_, ?_, ?_, ?_⟩, ?_⟩ <;> rw [hthread]
  · exact hm.isOpen
  · exact hm.whole
  · simpa [Thread.stacking] using hl
  · exact hm.small
  · exact hm.owned
  · rfl

theorem SameStacks.restacked (h : m.SameStacks m') (hm : m.StackReady th) : m.Restacked th m' := by
  have hthread := h.thread th
  refine ⟨⟨?_, ?_, ?_, ?_, ?_⟩, ?_⟩ <;> rw [hthread]
  · exact hm.isOpen
  · exact hm.whole
  · exact hm.fits
  · exact hm.small
  · rw [h.owners]
    exact hm.owned

/-- one operation: it is done to the values, or no stack changes -/
theorem perform_cases (hm : m.StackReady th) (op : Op) :
    (∃ r l low, Does (m.thread th).stack.capacity (m.thread th).stack.id (m.stacked th) op r l low ∧
      m.perform th op = m.restack th l) ∨ m.SameStacks (m.perform th op) := by
  have h := Act.performs hm op
  unfold Act.Performs Act.Ends at h
  unfold perform
  cases hr : (op.act th).run m with
  | ok r m' =>
    rw [hr] at h
    obtain ⟨l, low, hdoes, rfl⟩ := h
    exact .inl ⟨r, l, low, hdoes, rfl⟩
  | error f m' =>
    rw [hr] at h
    obtain ⟨e, -, hrefused⟩ := h
    exact .inr hrefused.kept

theorem restacked_perform (hm : m.StackReady th) (op : Op) : m.Restacked th (m.perform th op) := by
  rcases perform_cases hm op with ⟨r, l, low, hdoes, heq⟩ | hsame
  · rw [heq]
    exact restacked_restack hm (hdoes.length_le hm.length_le)
  · exact hsame.restacked hm

theorem restacked_performAll (hm : m.StackReady th) (ops : List Op) : m.Restacked th (m.performAll th ops) := by
  induction ops generalizing m with
  | nil => exact .refl hm
  | cons op ops ih =>
    have hstep := restacked_perform hm op
    exact hstep.trans (ih hstep.ready)

/-- an operation that touches no slot below `base` leaves the values there -/
theorem stacked_perform (hm : m.StackReady th) (hbase : base ≤ (m.stacked th).length)
    (habove : ∀ r l low, Does (m.thread th).stack.capacity (m.thread th).stack.id (m.stacked th) op r l low → base ≤ low) :
    base ≤ ((m.perform th op).stacked th).length ∧ ((m.perform th op).stacked th).take base = (m.stacked th).take base := by
  rcases perform_cases hm op with ⟨r, l, low, hdoes, heq⟩ | hsame
  · obtain ⟨-, hlow, htake⟩ := hdoes.below
    have hle := habove r l low hdoes
    rw [heq, stacked_restack hm]
    refine ⟨hle.trans hlow, ?_⟩
    have hshort := congrArg (List.take base) htake
    rwa [List.take_take, List.take_take, Nat.min_eq_left hle] at hshort
  · rw [stacked, hsame.thread, ← stacked]
    exact ⟨hbase, rfl⟩

/-- and so does a run of them -/
theorem stacked_performAll (hm : m.StackReady th) (hbase : base ≤ (m.stacked th).length) (habove : Above th base ops m) :
    base ≤ ((m.performAll th ops).stacked th).length ∧
      ((m.performAll th ops).stacked th).take base = (m.stacked th).take base := by
  induction ops generalizing m with
  | nil => exact ⟨hbase, rfl⟩
  | cons op ops ih =>
    obtain ⟨hlen, htake⟩ := stacked_perform hm hbase habove.1
    obtain ⟨hlen', htake'⟩ := ih (restacked_perform hm op).ready hlen habove.2
    exact ⟨hlen', htake'.trans htake⟩

theorem Excursion.nil : m.Excursion th [] := ⟨trivial, rfl⟩

/-- an excursion comes back to the values it started with -/
theorem Excursion.stacked (h : m.Excursion th ops) (hm : m.StackReady th) : (m.performAll th ops).stacked th = m.stacked th := by
  have htake := (stacked_performAll hm le_rfl h.above).2
  rw [List.take_length] at htake
  rw [← htake, ← h.returns, List.take_length]

theorem Above.append {ops' : List Op} (h : Above th base ops m) (h' : Above th base ops' (m.performAll th ops)) :
    Above th base (ops ++ ops') m := by
  induction ops generalizing m with
  | nil => exact h'
  | cons op ops ih => exact ⟨h.1, ih h.2 h'⟩

theorem Above.mono {low : Nat} (h : Above th base ops m) (hle : low ≤ base) : Above th low ops m := by
  induction ops generalizing m with
  | nil => trivial
  | cons op ops ih => exact ⟨fun r l k hdoes => hle.trans (h.1 r l k hdoes), ih h.2⟩

/-! ## Frames -/

/-- a frame of values that was made on the stack as it was in `m` is the frame on top in `m'`: there are references to its values,
and to nothing else, and closing it leaves the stack as it was in `m`, or that with a value on top -/
structure Framed (th : ThreadId) (m : Machine) (vs : List Value) (m' : Machine) : Prop where
  argument : ∀ (i : Nat) v, vs[i]? = some v → ∃ p, (Act.argReference th i).run m' = .ok (.ref p) m' ∧ m'.load p = v
  argIndex : ∀ n : Int, n < 0 ∨ vs.length ≤ n →
    (Act.argReference th n).run m' = .error (.raised (.argIndex n vs.length)) m'
  closeFrame : ∃ m'', (Act.onStack th (·.closeFrame)).run m' = .ok () m'' ∧ (m''.thread th).stack = (m.thread th).stack
  closeFrameWith : ∀ v, ∃ m'', (Act.onStack th (·.closeFrameWith v)).run m' = .ok () m'' ∧
    (m''.thread th).stack = (m.thread th).stack.lay [v]

/-- what is in a slot is what a reference to it reads -/
theorem load_stack (hm : m.StackReady th) (i : Nat) :
    m.load (.stack (m.thread th).stack.id i) = ((m.stacked th)[i]?).getD .unset := by
  simp only [load, stack?, hm.owned, Option.map_some, Stack.get, stacked, Array.getElem?_toList]

/-- a frame that fits is laid on top -/
theorem perform_makeFrame (hm : m.StackReady th) {vs : List Value}
    (hfits : (m.stacked th ++ frame vs).length ≤ (m.thread th).stack.capacity) :
    (m.perform th (.makeFrame vs)).stacked th = m.stacked th ++ frame vs := by
  have hrun : ((Op.makeFrame vs).act th).run m = .ok none (m.restack th (m.stacked th ++ frame vs)) :=
    Act.bind_ok (Act.run_onStack_items (Act.makeFrame_eq hm hfits))
  rw [perform, hrun]
  exact stacked_restack hm _

theorem perform_closeFrame (hm : m.StackReady th) {vs : List Value} (hl : m.stacked th = l ++ frame vs) :
    (m.perform th .closeFrame).stacked th = l := by
  have hrun : (Op.closeFrame.act th).run m = .ok none (m.restack th l) :=
    Act.bind_ok (Act.run_onStack_items (Act.closeFrame_eq hm hl))
  rw [perform, hrun]
  exact stacked_restack hm _

/-- closing the frame on top touches no slot under it -/
theorem above_closeFrame (hm : m.StackReady th) {vs : List Value} (hl : m.stacked th = l ++ frame vs) :
    Above th l.length [.closeFrame] m := by
  refine ⟨fun r l' low hdoes => ?_, trivial⟩
  generalize hitems : m.stacked th = items at hdoes
  cases hdoes with
  | @closeFrame vs' =>
    have heq := hl.symm.trans hitems
    obtain ⟨rfl, -⟩ := Stack.frame_inj heq (Act.length_lt_of_frame hm hl) (Act.length_lt_of_frame hm hitems)
    exact le_rfl

/-- an excursion inside a frame that is made before and closed after it is an excursion -/
theorem Excursion.framed (hm : m.StackReady th) {vs : List Value}
    (hfits : (m.stacked th ++ frame vs).length ≤ (m.thread th).stack.capacity)
    (h : (m.perform th (.makeFrame vs)).Excursion th ops) : m.Excursion th (.makeFrame vs :: (ops ++ [.closeFrame])) := by
  have hmade := perform_makeFrame hm hfits
  have hready := (restacked_perform hm (.makeFrame vs)).ready
  have hback := (h.stacked hready).trans hmade
  have hready' := (restacked_performAll hready ops).ready
  have hall : (m.performAll th (.makeFrame vs :: (ops ++ [.closeFrame]))).stacked th = m.stacked th := by
    rw [performAll, List.foldl_cons, List.foldl_append]
    exact perform_closeFrame hready' hback
  have habove : (m.stacked th).length ≤ ((m.perform th (.makeFrame vs)).stacked th).length := by
    rw [hmade, List.length_append]
    exact Nat.le_add_right _ _
  have hclosed := (h.above.mono habove).append (above_closeFrame hready' hback)
  exact ⟨⟨fun r l low hdoes => hdoes.low_makeFrame.ge, hclosed⟩, by rw [hall]⟩

/-- frames inside each other, with an excursion in the innermost -/
theorem Excursion.nested {vss : List (List Value)} (hm : m.StackReady th)
    (hfits : (m.stacked th ++ vss.flatMap frame).length ≤ (m.thread th).stack.capacity)
    (h : (m.performAll th (vss.map .makeFrame)).Excursion th ops) :
    m.Excursion th (vss.map .makeFrame ++ (ops ++ List.replicate vss.length .closeFrame)) := by
  induction vss generalizing m with
  | nil =>
    rw [List.map_nil, List.length_nil, List.replicate_zero, List.append_nil, List.nil_append]
    exact h
  | cons vs vss ih =>
    rw [List.flatMap_cons, ← List.append_assoc] at hfits
    have hfirst : (m.stacked th ++ frame vs).length ≤ (m.thread th).stack.capacity := by
      rw [List.length_append] at hfits
      omega
    have hstep := restacked_perform hm (.makeFrame vs)
    have hinner := ih hstep.ready (by rw [perform_makeFrame hm hfirst, hstep.capacity]; exact hfits) h
    have hall := Excursion.framed hm hfirst hinner
    simpa [List.replicate_succ', List.append_assoc] using hall

end

end Machine

end LispMachine
