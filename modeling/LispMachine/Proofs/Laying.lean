/-
Values on a thread's stack.

Between the start of an action and its end values have been laid on the stack and objects have been made, and nothing else has
happened (`Machine.Stacked`). `Act.Lays` says of an action which values it lays, and of its failures that they are new error
objects and may come when some values lie there already, unless the heap is full. What has been laid can be removed again,
and then the stack is as it was (`Act.run_dropAbove_laid`).
-/
import LispMachine.Proofs.Data
import LispMachine.Proofs.Lists
import LispMachine.Proofs.Threads

namespace LispMachine

/-! ## Values on the stack -/

namespace Stack

/-- the stack with values laid on top -/
def lay (s : Stack) (vs : List Value) : Stack := { s with items := s.items ++ vs.toArray }

theorem lay_nil (s : Stack) : s.lay [] = s := by simp [lay]

theorem lay_lay (s : Stack) (vs ws : List Value) : (s.lay vs).lay ws = s.lay (vs ++ ws) := by simp [lay]

end Stack

namespace Machine

/-- the thread is open, every slot of its stack exists, and there is room for `n` more -/
structure HasRoom (m : Machine) (th : ThreadId) (n : Nat) : Prop where
  isOpen : (m.thread th).isOpen = true
  whole : (m.thread th).stack.beyond = 0
  fits : (m.thread th).stack.items.size + n ≤ (m.thread th).stack.capacity

/-- values have been laid on a thread's stack, and at most `n` objects are new; nothing that was there is touched -/
structure Stacked (th : ThreadId) (n : Nat) (vs : List Value) (m m' : Machine) : Prop extends m.Enlarged n m' where
  isOpen : (m'.thread th).isOpen = (m.thread th).isOpen
  stack : (m'.thread th).stack = (m.thread th).stack.lay vs

section

variable {th : ThreadId} {n k : Nat} {vs ws : List Value} {m m' m'' : Machine}

theorem Stacked.refl (hm : m.heap.InOrder) : m.Stacked th 0 [] m where
  toEnlarged := .refl hm
  isOpen := rfl
  stack := (Stack.lay_nil _).symm

theorem Stacked.trans (h₁ : m.Stacked th n vs m') (h₂ : m'.Stacked th k ws m'') : m.Stacked th (n + k) (vs ++ ws) m'' where
  toEnlarged := h₁.toEnlarged.trans h₂.toEnlarged
  isOpen := h₂.isOpen.trans h₁.isOpen
  stack := by rw [h₂.stack, h₁.stack, Stack.lay_lay]

theorem Stacked.mono (h : m.Stacked th n vs m') (hn : n ≤ k) : m.Stacked th k vs m' :=
  { h with toEnlarged := h.toEnlarged.mono hn }

/-- a value on top -/
theorem stacked_push (hm : m.heap.InOrder) (ho : (m.thread th).isOpen = true) (v : Value) : m.Stacked th 0 [v]
    (m.onThread th fun t => { t with stack := { t.stack with items := t.stack.items.push v } }) := by
  have hthread := thread_onThread ho (fun t => { t with stack := { t.stack with items := t.stack.items.push v } }) th
  rw [if_pos rfl] at hthread
  exact ⟨⟨hm, fun _ _ h => h, fun _ _ h => h, rfl, le_rfl⟩, by rw [hthread], by rw [hthread, Stack.lay]; simp⟩

theorem Stacked.hasRoom (h : m.Stacked th n vs m') (hroom : m.HasRoom th (vs.length + k)) : m'.HasRoom th k where
  isOpen := h.isOpen.trans hroom.isOpen
  whole := by rw [h.stack]; exact hroom.whole
  fits := by
    have hfits := hroom.fits
    rw [h.stack]
    simp only [Stack.lay, Array.size_append, List.size_toArray]
    omega

/-- a symbol that has its name in the table -/
def Known (m : Machine) (sym : Handle) : Prop := ∃ name, m.cell? sym = some (.symbol name) ∧ m.symbols.lookup name = some sym

theorem Known.enlarged {sym : Handle} (h : m.Known sym) (hm : m.Enlarged n m') : m'.Known sym :=
  have ⟨name, hc, hs⟩ := h
  ⟨name, hm.cells _ _ hc, hm.symbols _ _ hs⟩

theorem Walks.enlarged {v : Value} (h : m.Walks v vs) (hm : m.Enlarged n m') : m'.Walks v vs := by
  induction h with
  | nil => exact .nil
  | cons hc _ ih => exact .cons (hm.cells _ _ hc) ih

end

end Machine

namespace Act

variable {α β : Type} {th : ThreadId} {n k : Nat} {m : Machine}

/-- an action that lays values on a thread's stack and makes at most `n` objects. It fails, some values laid, with a new error
object of which `E` holds, unless the heap lacks room -/
def Lays (th : ThreadId) (n : Nat) (m : Machine) (x : Act α) (Q : α → List Value → Machine → Prop)
    (E : ErrorObject → Machine → Prop) : Prop :=
  x.Ends m (fun a m' => ∃ vs, m.Stacked th n vs m' ∧ Q a vs m') fun e m' =>
    (∃ o vs, e = .raised (.object o) ∧ m.Stacked th n vs m' ∧ E (m'.errorObject o) m') ∨
      e = .fault .exhausted ∧ m.heap.Lacks n

section Lays

variable {x : Act α} {f : α → Act β} {P : α → List Value → Machine → Prop} {Q : β → List Value → Machine → Prop}
  {E E' : ErrorObject → Machine → Prop}

theorem Lays.pure (hm : m.heap.InOrder) {a : α} (ha : P a [] m) : Lays th 0 m (pure a) P E := ⟨[], .refl hm, ha⟩

theorem Lays.bind (hx : Lays th n m x P E)
    (hf : ∀ a vs m', m.Stacked th n vs m' → P a vs m' → Lays th k m' (f a) (fun b ws => Q b (vs ++ ws)) E) :
    Lays th (n + k) m (x >>= f) Q E := by
  refine Ends.bind (hx.mono (fun _ _ h => h) ?_) ?_
  · rintro e m' (⟨o, vs, rfl, hm, ho⟩ | ⟨rfl, hlacks⟩)
    · exact .inl ⟨o, vs, rfl, hm.mono (Nat.le_add_right n k), ho⟩
    · exact .inr ⟨rfl, hlacks.mono (Nat.le_add_right n k)⟩
  · rintro a m' ⟨vs, hm, ha⟩
    refine (hf a vs m' hm ha).mono ?_ ?_
    · rintro b m'' ⟨ws, hm', hb⟩
      exact ⟨vs ++ ws, hm.trans hm', hb⟩
    · rintro e m'' (⟨o, ws, rfl, hm', ho⟩ | ⟨rfl, hlacks⟩)
      · exact .inl ⟨o, vs ++ ws, rfl, hm.trans hm', ho⟩
      · exact .inr ⟨rfl, hm.lacks hlacks⟩

theorem Lays.grow (hx : Lays th n m x P E) (hn : n ≤ k) : Lays th k m x P E := by
  refine Ends.mono hx (fun a m' ⟨vs, hm, ha⟩ => ⟨vs, hm.mono hn, ha⟩) ?_
  rintro e m' (⟨o, vs, rfl, hm, ho⟩ | ⟨rfl, hlacks⟩)
  · exact .inl ⟨o, vs, rfl, hm.mono hn, ho⟩
  · exact .inr ⟨rfl, hlacks.mono hn⟩

theorem Lays.imp {Q : α → List Value → Machine → Prop} (hx : Lays th n m x P E)
    (hQ : ∀ a vs m', m.Stacked th n vs m' → P a vs m' → Q a vs m') : Lays th n m x Q E :=
  Ends.mono hx (fun a m' ⟨vs, hm, ha⟩ => ⟨vs, hm, hQ a vs m' hm ha⟩) fun _ _ h => h

theorem Lays.impError (hx : Lays th n m x P E) (hE : ∀ y m', E y m' → E' y m') : Lays th n m x P E' :=
  Ends.mono hx (fun _ _ h => h) fun _ m' h => h.imp_left fun ⟨o, vs, he, hm, ho⟩ => ⟨o, vs, he, hm, hE _ m' ho⟩

/-- an action that leaves the machine as it is comes first -/
theorem Lays.next {x : Act α} {f : α → Act β} {a : α} (hx : x.run m = .ok a m) (hf : Lays th n m (f a) Q E) :
    Lays th n m (x >>= f) Q E := by
  unfold Lays Ends at *
  rwa [bind_ok hx]

/-- an action that makes objects, and leaves the stack alone when it succeeds, lays nothing -/
theorem Builds.lays {P : α → Machine → Prop} (hx : Builds n m x P)
    (hstack : ∀ a m', x.run m = .ok a m' →
      (m'.thread th).isOpen = (m.thread th).isOpen ∧ (m'.thread th).stack = (m.thread th).stack) :
    Lays th n m x (fun a vs m' => vs = [] ∧ P a m') E := by
  unfold Builds Ends at hx
  unfold Lays Ends
  cases hr : x.run m with
  | ok a m' =>
    rw [hr] at hx
    obtain ⟨hopen, hsame⟩ := hstack a m' hr
    exact ⟨[], ⟨hx.1, hopen, by rw [hsame, Stack.lay_nil]⟩, rfl, hx.2⟩
  | error e m' =>
    rw [hr] at hx
    exact .inr hx

end Lays

/-! ## Making objects -/

section Making

variable {E : ErrorObject → Machine → Prop}

theorem lays_allocate (hm : m.heap.InOrder) (cell : Cell) (text : Bool) :
    Lays th 1 m (allocate cell text)
      (fun h vs m' => vs = [] ∧ m'.heap.slot? h = some ⟨cell, m.collector.epoch, m.heap.births, text⟩) E := by
  have hmade := builds_allocate hm cell text
  unfold Builds Ends at hmade
  unfold Lays Ends
  rw [Machine.run_allocate] at hmade ⊢
  cases hfull : m.heap.isFull with
  | true =>
    rw [hfull] at hmade
    exact .inr hmade
  | false =>
    rw [hfull] at hmade
    exact ⟨[], ⟨hmade.1, rfl, (Stack.lay_nil _).symm⟩, rfl, (hm.slot?_insert ..).trans (if_pos rfl)⟩

theorem lays_intern (hm : m.heap.InOrder) (name : String) :
    Lays th 1 m (intern name) (fun h vs m' => vs = [] ∧ m'.symbols.lookup name = some h) E := by
  refine (builds_intern hm name).lays fun h m' hr => ?_
  cases hs : m.symbols.lookup name with
  | some h =>
    rw [Machine.run_intern_known hs] at hr
    cases hr
    exact ⟨rfl, rfl⟩
  | none =>
    rw [Machine.run_intern_new hs] at hr
    split at hr
    · cases hr
    · cases hr
      exact ⟨rfl, rfl⟩

theorem lays_symbol (hm : m.heap.InOrder) (name : String) :
    Lays th 1 m (symbol name) (fun v vs m' => vs = [] ∧ ∃ s, v = .symbol s ∧ m'.symbols.lookup name = some s) E := by
  refine (lays_intern hm name).bind (k := 0) ?_
  rintro s _ m' hm' ⟨rfl, hs⟩
  exact .pure hm'.order ⟨rfl, s, rfl, hs⟩

theorem lays_pin (hm : m.heap.InOrder) (v : Value) : Lays th 0 m (pin th v) (fun _ vs m' => vs = [] ∧ m'.heap = m.heap) E := by
  have hpin : Builds 0 m (pin th v) fun _ m' => m'.heap = m.heap := by
    unfold pin
    split
    · exact ⟨⟨hm, fun _ _ h => h, fun _ _ h => h, rfl, le_rfl⟩, rfl⟩
    · exact .pure hm rfl
  refine hpin.lays fun _ m' hr => ?_
  unfold pin at hr
  split at hr
  · rw [run_modify] at hr
    cases hr
    change ((m.onThread th _).thread th).isOpen = _ ∧ ((m.onThread th _).thread th).stack = _
    rcases Nat.lt_or_ge th m.threads.size with hlt | hle
    · rw [Machine.thread_onThread_of_lt hlt, if_pos rfl]
      exact ⟨rfl, rfl⟩
    · rw [Machine.onThread_of_le hle]
      exact ⟨rfl, rfl⟩
  · cases hr
    exact ⟨rfl, rfl⟩

theorem lays_newPair (hm : m.heap.InOrder) (text : Bool) {a d : Value} {items : List Value} (hd : m.Walks d items) :
    Lays th 1 m (newPair th text a d) (fun v vs m' => vs = [] ∧ m'.Walks v (a :: items)) E := by
  unfold newPair allocatePinned
  refine (lays_allocate hm _ text).bind (k := 0) ?_
  rintro h _ m₁ hm₁ ⟨rfl, hs⟩
  refine (lays_pin hm₁.order (.cons h)).bind (k := 0) ?_
  rintro _ _ m₂ hm₂ ⟨rfl, -⟩
  have hd' := (hd.enlarged hm₁.toEnlarged).enlarged hm₂.toEnlarged
  exact .pure hm₂.order ⟨rfl, .cons (hm₂.cells h _ (Heap.cell?_of_slot? hs)) hd'⟩

/-- items that are given from last to first go in front -/
theorem lays_consAll (text : Bool) {vs : List Value} {m : Machine} (hm : m.heap.InOrder) {tail : Value} {items : List Value}
    (htail : m.Walks tail items) :
    Lays th vs.length m (consAll th text vs tail) (fun v ws m' => ws = [] ∧ m'.Walks v (vs.reverse ++ items)) E := by
  induction vs generalizing m tail items with
  | nil => exact .pure hm ⟨rfl, htail⟩
  | cons v vs ih =>
    rw [List.length_cons, Nat.add_comm, consAll]
    refine (lays_newPair hm text htail).bind ?_
    rintro p _ m' hm' ⟨rfl, hp⟩
    simpa using ih hm'.order hp

theorem lays_newListOf (text : Bool) (hm : m.heap.InOrder) (vs : List Value) :
    Lays th vs.length m (newListOf th text vs) (fun v ws m' => ws = [] ∧ m'.Walks v vs) E := by
  unfold newListOf
  have h := @lays_consAll th E text vs.reverse m hm .nil [] .nil
  rwa [List.length_reverse, List.reverse_reverse, List.append_nil] at h

/-- a new error object is what it was made of -/
theorem lays_newErrorObject (hm : m.heap.InOrder) (x : ErrorObject) :
    Lays th 1 m (newErrorObject th x) (fun o vs m' => vs = [] ∧ m'.errorObject o = x) E := by
  unfold newErrorObject
  refine .read ((lays_allocate hm _ _).bind (k := 0) ?_)
  rintro h _ m₁ hm₁ ⟨rfl, hs⟩
  refine (lays_pin hm₁.order _).bind (k := 0) ?_
  rintro _ _ m₂ hm₂ ⟨rfl, hheap⟩
  refine .pure hm₂.order ⟨rfl, ?_⟩
  rw [← hheap] at hs
  simp [Machine.errorObject, hs]

variable {Q : α → List Value → Machine → Prop}

/-- failing with an error object that an action has made -/
theorem Lays.raised {x : Act HeldError} (hx : Lays th n m x (fun o _ m' => E (m'.errorObject o) m') E) :
    Lays th n m (do raise (.object (← x)) : Act α) Q E := by
  refine hx.bind (k := 0) fun o vs m' hm ho => ?_
  exact .inl ⟨o, [], rfl, .refl hm.order, ho⟩

theorem lays_raiseError (hm : m.heap.InOrder) {kind : ErrorKind} {first second : Value}
    (hE : ∀ m', E { kind := kind, first := first, second := second } m') :
    Lays th 1 m (raiseError th kind first second : Act α) Q E := by
  unfold raiseError newError
  exact .raised ((lays_newErrorObject hm _).imp fun o _ m' _ h => h.2 ▸ hE m')

theorem lays_raiseType (hm : m.heap.InOrder) {wanted : String} {got : Value}
    (hE : ∀ s m', m'.symbols.lookup wanted = some s → E { kind := .type, first := .symbol s, second := got } m') :
    Lays th 2 m (raiseType th wanted got : Act α) Q E := by
  unfold raiseType newTypeError newError
  refine .raised ((lays_symbol hm wanted).bind (k := 1) ?_)
  rintro _ _ m₁ hm₁ ⟨rfl, s, rfl, hs⟩
  exact (lays_newErrorObject hm₁.order _).imp fun o _ m' hm' h => h.2 ▸ hE s m' (hm'.symbols _ _ hs)

end Making

/-! ## Pushing and dropping -/

theorem lays_push_ (hm : m.heap.InOrder) (hroom : m.HasRoom th (1 + k)) (v : Value) :
    Lays th 0 m (push_ th v) (fun _ vs m' => vs = [v] ∧ m'.HasRoom th k) E := by
  have hfits := hroom.fits
  have hwhole := hroom.whole
  have hlt : ¬ (m.thread th).stack.capacity ≤ (m.thread th).stack.size := by
    unfold Stack.size
    omega
  have hpushed := Machine.stacked_push hm hroom.isOpen v
  unfold push_ push Lays Ends
  simp only [run_bind, run_get, run_modify, run_pure, hlt, if_false]
  exact ⟨[v], hpushed, rfl, hpushed.hasRoom hroom⟩

/-- removing what has been laid brings the stack back -/
theorem run_dropAbove_laid {m' : Machine} {vs : List Value} (hm : m.Stacked th n vs m') (hroom : m.HasRoom th k) :
    ∃ m'', (dropAbove th (m.thread th).stack.size).run m' = .ok () m'' ∧ m''.heap = m'.heap ∧ m''.symbols = m'.symbols ∧
      (m''.thread th).stack = (m.thread th).stack := by
  have hbeyond : (m'.thread th).stack.beyond = 0 := by
    rw [hm.stack]
    exact hroom.whole
  have hread : (stackBeyond th).run m' = .ok 0 m' := by
    change EStateM.Result.ok (m'.thread th).stack.beyond m' = _
    rw [hbeyond]
  have hsize : (m.thread th).stack.size = (m.thread th).stack.items.size := by rw [Stack.size, hroom.whole, Nat.add_zero]
  unfold dropAbove
  rw [bind_ok hread]
  refine ⟨_, rfl, rfl, rfl, ?_⟩
  change ((m'.onThread th _).thread th).stack = _
  rw [Machine.thread_onThread (hm.isOpen.trans hroom.isOpen), if_pos rfl]
  simp only [hm.stack, Stack.lay, hsize]
  simp

end Act

end LispMachine
