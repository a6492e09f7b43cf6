/-
Orderly actions.

An action of a thread is orderly if it leaves what it enters. Whatever way it ends, by a result, an error or a fault, the
thread's scopes, its depth and the counts of use are as they were, nothing below a given slot of its stack has changed, and
of its pins none is gone; after a result or an error its stack is as high as before, too. On the way no reference and no
unwinding error is stored: the machine stays clean.

`Runs` says this of one action, together with what its results and its errors may be. Its rules are for sequences, choices
and handlers; for the operations that push slots or enter scopes, whose parts are not orderly by themselves, `Ends` says how
an action ends from one machine.
-/
import Mathlib.Tactic
import LispMachine.Eval.Evaluate
import LispMachine.Proofs.Actions
import LispMachine.Proofs.Books
import LispMachine.Proofs.Threads

namespace LispMachine

/-! ## Clean machines -/

/-- a value that may be stored: neither a reference nor an error that is unwinding -/
def Value.IsPlain (v : Value) : Prop := v.isReference = false ∧ v.isSignaling = false

/-- a reference, not to a stack slot below `b` -/
inductive Value.IsPlace (b : Nat) : Value → Prop where
  | stack {id i : Nat} : b ≤ i → IsPlace b (.ref (.stack id i))
  | box (h : Handle) : IsPlace b (.ref (.box h))
  | car (h : Handle) : IsPlace b (.ref (.car h))
  | cdr (h : Handle) : IsPlace b (.ref (.cdr h))

/-- a body with plain program text, or a primitive of the language; what signals an error gets it evaluated -/
inductive Body.IsClean : Body → Prop where
  | forms {list : Value} (outer : Outer) : list.IsPlain → IsClean (.forms list outer)
  | primitive {p : Primitive} {special : Bool} : (∀ a, p ≠ .host a) → (special = true → p ≠ .signal) →
      IsClean (.primitive p special)

/-- an object that holds plain values, but for the references of a scope's table -/
inductive Cell.IsClean (b : Nat) : Cell → Prop where
  | cons {a d : Value} : a.IsPlain → d.IsPlain → IsClean b (.cons a d)
  | symbol (name : String) : IsClean b (.symbol name)
  | scope {s : Scope} : (∀ e ∈ s.table, e.2.IsPlace b) → IsClean b (.scope s)
  | function {f : Function} : f.params.source.IsPlain → f.body.IsClean → IsClean b (.function f)
  | error {e : ErrorObject} : e.first.IsPlain → e.second.IsPlain → IsClean b (.error e)
  | box {v : Value} : v.IsPlain → IsClean b (.box v)

/-- a heap in order that holds plain values only, and the error for a full heap -/
structure Heap.Clean (b : Nat) (hp : Heap) : Prop where
  cells : ∀ h c, hp.cell? h = some c → c.IsClean b
  order : hp.InOrder
  spare : hp.HoldsError Machine.exhaustedError

/-- a machine that holds plain values only -/
structure Machine.Clean (b : Nat) (m : Machine) : Prop where
  heap : m.heap.Clean b
  slots : ∀ th, ∀ v ∈ (m.thread th).stack.items, v.IsPlain

namespace Value

variable {b c : Nat} {v : Value}

theorem IsPlace.isReference (h : v.IsPlace b) : v.isReference = true := by cases h <;> rfl

theorem IsPlace.isSignaling (h : v.IsPlace b) : v.isSignaling = false := by cases h <;> rfl

theorem IsPlace.mono (h : v.IsPlace b) (hc : c ≤ b) : v.IsPlace c := by
  cases h with
  | stack hi => exact .stack (hc.trans hi)
  | box h => exact .box h
  | car h => exact .car h
  | cdr h => exact .cdr h

theorem isPlain_ofNumber (n : Number) : (ofNumber n).IsPlain := by cases n <;> exact ⟨rfl, rfl⟩

theorem isPlain_ofBool (b : Bool) : (ofBool b).IsPlain := by cases b <;> exact ⟨rfl, rfl⟩

end Value

namespace Machine

variable {b c : Nat} {m : Machine}

theorem Clean.cell (hm : m.Clean b) {h : Handle} {x : Cell} (hx : m.cell? h = some x) : x.IsClean b := hm.heap.cells h x hx

theorem Clean.slot (hm : m.Clean b) {h : Handle} {s : Slot} (hs : m.heap.slot? h = some s) : s.cell.IsClean b :=
  hm.heap.cells h s.cell (Heap.cell?_of_slot? hs)

/-- a slot of a clean machine's stack, in use or not -/
theorem Clean.get (hm : m.Clean b) (th : ThreadId) (i : Nat) : ((m.thread th).stack.get i).IsPlain := by
  unfold Stack.get
  cases hi : (m.thread th).stack.items[i]? with
  | none => exact ⟨rfl, rfl⟩
  | some v => exact hm.slots th v (Array.mem_of_getElem? hi)

/-- whatever place is read, what it holds is plain -/
theorem Clean.load (hm : m.Clean b) (p : Place) : (m.load p).IsPlain := by
  cases p with
  | stack id i =>
    simp only [Machine.load, stack?]
    cases (m.stackOwners[id]?).join with
    | none => exact ⟨rfl, rfl⟩
    | some th => exact hm.get th i
  | _ =>
    simp only [Machine.load]
    split
    · rename_i hc; cases hm.cell hc; assumption
    · exact ⟨rfl, rfl⟩

theorem Clean.scope (hm : m.Clean b) {h : Handle} : ∀ e ∈ (m.scope h).table, e.2.IsPlace b := by
  unfold Machine.scope
  split
  · rename_i hc; cases hm.cell hc; assumption
  · simp

theorem Clean.mono (hm : m.Clean b) (hc : c ≤ b) : m.Clean c where
  heap.order := hm.heap.order
  heap.spare := hm.heap.spare
  heap.cells h x hx := by
    cases hm.heap.cells h x hx with
    | cons ha hd => exact .cons ha hd
    | symbol name => exact .symbol name
    | scope ht => exact .scope fun e he => (ht e he).mono hc
    | function hs hb => exact .function hs hb
    | error hf hs => exact .error hf hs
    | box hv => exact .box hv
  slots := hm.slots

end Machine

/-! ## What an action leaves -/

/-- what stays of a thread in whatever it runs -/
structure Thread.Shape where
  id : Nat
  capacity : Nat
  beyond : Nat
  depth : Nat
  scopes : Array Handle
  isOpen : Bool

def Thread.shape (t : Thread) : Thread.Shape :=
  ⟨t.stack.id, t.stack.capacity, t.stack.beyond, t.depth, t.scopes, t.isOpen⟩

/-- the number of slots of a thread's stack -/
def Thread.height (t : Thread) : Nat := t.stack.items.size

/-- what a thread that runs keeps: nothing is lost, and the slots below `k` are as they were -/
structure Thread.Keeps (k : Nat) (t t' : Thread) : Prop where
  shape : t'.shape = t.shape
  height : t.height ≤ t'.height
  low : ∀ i < k, t'.stack.items[i]? = t.stack.items[i]?
  pins : t.pins.toList <+: t'.pins.toList

theorem Thread.Keeps.refl {k : Nat} (t : Thread) : t.Keeps k t := ⟨rfl, le_rfl, fun _ _ => rfl, List.prefix_rfl⟩

theorem Thread.Keeps.trans {k : Nat} {t t' t'' : Thread} (h₁ : t.Keeps k t') (h₂ : t'.Keeps k t'') : t.Keeps k t'' :=
  ⟨h₂.shape.trans h₁.shape, h₁.height.trans h₂.height, fun i hi => (h₂.low i hi).trans (h₁.low i hi),
    h₁.pins.trans h₂.pins⟩

namespace Machine

/-- what stays as it is while threads run: the global scope, and whose the stacks are -/
def fixtures (m : Machine) : Option Handle × Array (Option ThreadId) × List Nat := (m.globalScope, m.stackOwners, m.freeStacks)

/-- a clean machine in which a thread with at least `k` slots can run; no open thread has slots it cannot read, or a stack
that is not its own, or has no scopes, and no error that is pinned is unwinding -/
structure Sane (th : ThreadId) (b k : Nat) (m : Machine) : Prop extends m.Clean b where
  quiet : ∀ t, ∀ v ∈ (m.thread t).pins, v.isSignaling = false
  global : m.globalScope.isSome = true
  floor : k ≤ b
  isOpen : (m.thread th).isOpen = true
  beyond : ∀ t, (m.thread t).isOpen = true → (m.thread t).stack.beyond = 0
  inside : ∀ t, (m.thread t).isOpen = true → 0 < (m.thread t).scopes.size
  owned : ∀ t, (m.thread t).isOpen = true → m.stackOwners[(m.thread t).stack.id]? = some (some t)
  above : k ≤ (m.thread th).height

/-- `m'` comes from `m` by what one thread has run, which started as `t` -/
structure Moved (th : ThreadId) (b k : Nat) (t : Thread) (m m' : Machine) : Prop where
  clean : m'.Clean b
  fixed : m'.fixtures = m.fixtures
  own : t.Keeps k (m'.thread th)
  others : ∀ u, u ≠ th → (m'.thread u).shape = (m.thread u).shape ∧ (m'.thread u).height = (m.thread u).height ∧
    (m'.thread u).pins = (m.thread u).pins

/-- what a thread has run from `m` to `m'` has lost nothing -/
structure Onward (th : ThreadId) (b k : Nat) (m m' : Machine) : Prop extends Moved th b k (m.thread th) m m' where
  uses : ∀ h, m'.useCount h = m.useCount h

/-- what the thread has pinned on the way is no error that is unwinding -/
def Quietly (th : ThreadId) (m m' : Machine) : Prop :=
  ∀ v ∈ (m'.thread th).pins, v.isSignaling = true → v ∈ (m.thread th).pins

/-- and has left `n` slots on the thread's stack -/
structure Grown (th : ThreadId) (b k n : Nat) (m m' : Machine) : Prop extends Onward th b k m m' where
  quietly : Quietly th m m'
  taller : (m'.thread th).height = (m.thread th).height + n

/-- and they are new, with values of which `P` holds -/
structure Piled (th : ThreadId) (b k n : Nat) (P : Value → Prop) (m m' : Machine) : Prop extends Grown th b k n m m' where
  laid : ∃ vs : List Value, (m'.thread th).stack.items = (m.thread th).stack.items ++ vs.toArray ∧ ∀ v ∈ vs, P v

/-- and has left none -/
abbrev Even (th : ThreadId) (b k : Nat) (m m' : Machine) : Prop := Grown th b k 0 m m'

/-- one thread is changed and nothing else that is looked at here, but counts of use -/
structure Becomes (th : ThreadId) (t : Thread) (m m' : Machine) : Prop where
  heap : m'.heap = m.heap
  fixed : m'.fixtures = m.fixtures
  own : m'.thread th = t
  others : ∀ u, u ≠ th → m'.thread u = m.thread u

/-- a change that leaves threads and counts of use alone -/
structure Steady (b : Nat) (m m' : Machine) : Prop where
  heap : m'.heap.Clean b
  threads : m'.threads = m.threads
  uses : m'.uses = m.uses
  fixed : m'.fixtures = m.fixtures

variable {th : ThreadId} {b k n n' : Nat} {m m' m'' : Machine}

theorem Moved.trans {t : Thread} (h₁ : Moved th b k t m m') (h₂ : Moved th b k (m'.thread th) m' m'') :
    Moved th b k t m m'' where
  clean := h₂.clean
  fixed := h₂.fixed.trans h₁.fixed
  own := h₁.own.trans h₂.own
  others u hu :=
    have ⟨s₁, x₁, p₁⟩ := h₁.others u hu
    have ⟨s₂, x₂, p₂⟩ := h₂.others u hu
    ⟨s₂.trans s₁, x₂.trans x₁, p₂.trans p₁⟩

theorem Moved.shape_any {t : Thread} (h : Moved th b k t m m') (ht : t.isOpen = (m.thread th).isOpen)
    (hbeyond : t.stack.beyond = (m.thread th).stack.beyond) (hid : t.stack.id = (m.thread th).stack.id) (u : ThreadId) :
    (m'.thread u).isOpen = (m.thread u).isOpen ∧ (m'.thread u).stack.beyond = (m.thread u).stack.beyond ∧
      (m'.thread u).stack.id = (m.thread u).stack.id := by
  by_cases hu : u = th
  · subst hu
    exact ⟨(congrArg Thread.Shape.isOpen h.own.shape).trans ht, (congrArg Thread.Shape.beyond h.own.shape).trans hbeyond,
      (congrArg Thread.Shape.id h.own.shape).trans hid⟩
  · have hshape := (h.others u hu).1
    exact ⟨congrArg Thread.Shape.isOpen hshape, congrArg Thread.Shape.beyond hshape, congrArg Thread.Shape.id hshape⟩

theorem Onward.lower {k' : Nat} (h : Onward th b k m m') (hk : k' ≤ k) : Onward th b k' m m' :=
  ⟨⟨h.clean, h.fixed, ⟨h.own.shape, h.own.height, fun i hi => h.own.low i (lt_of_lt_of_le hi hk), h.own.pins⟩, h.others⟩,
    h.uses⟩

/-- the thread is changed once more -/
theorem Moved.becomes {t t₀ t' : Thread} (h : Moved th b k t m m') (hb : Becomes th t' m' m'')
    (hslots : ∀ v ∈ t'.stack.items, v.IsPlain) (hkeeps : t₀.Keeps k t') : Moved th b k t₀ m m'' where
  clean.heap := hb.heap ▸ h.clean.heap
  clean.slots u := by
    by_cases hu : u = th
    · subst hu; rw [hb.own]; exact hslots
    · rw [hb.others u hu]; exact h.clean.slots u
  fixed := hb.fixed.trans h.fixed
  own := hb.own ▸ hkeeps
  others u hu := by rw [hb.others u hu]; exact h.others u hu

theorem Onward.refl (hm : m.Clean b) : Onward th b k m m :=
  ⟨⟨hm, rfl, .refl _, fun _ _ => ⟨rfl, rfl, rfl⟩⟩, fun _ => rfl⟩

theorem Onward.trans (h₁ : Onward th b k m m') (h₂ : Onward th b k m' m'') : Onward th b k m m'' :=
  ⟨h₁.toMoved.trans h₂.toMoved, fun h => (h₂.uses h).trans (h₁.uses h)⟩

/-- a thread that is changed on its way -/
theorem Onward.becomes {t' : Thread} (h : Onward th b k m m') (hb : Becomes th t' m' m'')
    (huses : ∀ x, m''.useCount x = m'.useCount x) (hslots : ∀ v ∈ t'.stack.items, v.IsPlain)
    (hkeeps : (m.thread th).Keeps k t') : Onward th b k m m'' :=
  ⟨h.toMoved.becomes hb hslots hkeeps, fun x => (huses x).trans (h.uses x)⟩

theorem Becomes.trans {t t' : Thread} (h₁ : Becomes th t m m') (h₂ : Becomes th t' m' m'') : Becomes th t' m m'' :=
  ⟨h₂.heap.trans h₁.heap, h₂.fixed.trans h₁.fixed, h₂.own, fun u hu => (h₂.others u hu).trans (h₁.others u hu)⟩

theorem becomes_onThread (hopen : (m.thread th).isOpen = true) (f : Thread → Thread) :
    Becomes th (f (m.thread th)) m (m.onThread th f) where
  heap := rfl
  fixed := rfl
  own := by rw [thread_onThread hopen, if_pos rfl]
  others u hu := by rw [thread_onThread hopen, if_neg hu]

theorem Quietly.trans (h₁ : Quietly th m m') (h₂ : Quietly th m' m'') : Quietly th m m'' := fun v hv hs =>
  h₁ v (h₂ v hv hs) hs

theorem Quietly.of_eq (h : (m'.thread th).pins = (m.thread th).pins) : Quietly th m m' := fun _ hv _ => h ▸ hv

theorem Even.refl (hm : m.Clean b) : Even th b k m m := ⟨.refl hm, .of_eq rfl, rfl⟩

theorem Even.level (h : Even th b k m m') : (m'.thread th).height = (m.thread th).height := h.taller

theorem Grown.trans (h₁ : Grown th b k n m m') (h₂ : Grown th b k n' m' m'') : Grown th b k (n + n') m m'' :=
  ⟨h₁.toOnward.trans h₂.toOnward, h₁.quietly.trans h₂.quietly, by rw [h₂.taller, h₁.taller, Nat.add_assoc]⟩

theorem Piled.trans {P : Value → Prop} (h₁ : Piled th b k n P m m') (h₂ : Piled th b k n' P m' m'') :
    Piled th b k (n + n') P m m'' where
  toGrown := h₁.toGrown.trans h₂.toGrown
  laid := by
    obtain ⟨vs, hvs, hP⟩ := h₁.laid
    obtain ⟨ws, hws, hQ⟩ := h₂.laid
    refine ⟨vs ++ ws, by rw [hws, hvs]; simp, fun v hv => ?_⟩
    rcases List.mem_append.1 hv with hv | hv
    · exact hP v hv
    · exact hQ v hv

theorem Even.trans (h₁ : Even th b k m m') (h₂ : Even th b k m' m'') : Even th b k m m'' := Grown.trans h₁ h₂

theorem Onward.height (h : Onward th b k m m') : (m.thread th).height ≤ (m'.thread th).height := h.own.height

theorem Onward.scopes (h : Onward th b k m m') : (m'.thread th).scopes = (m.thread th).scopes :=
  congrArg Thread.Shape.scopes h.own.shape

theorem Moved.sane {t : Thread} (h : Moved th b k t m m') (hq : Quietly th m m') (hm : m.Sane th b k)
    (hopen : t.isOpen = (m.thread th).isOpen) (hbeyond : t.stack.beyond = (m.thread th).stack.beyond)
    (hid : t.stack.id = (m.thread th).stack.id) (hinside : 0 < t.scopes.size) (habove : k ≤ t.height) : m'.Sane th b k where
  toClean := h.clean
  quiet u v hv := by
    by_cases hu : u = th
    · subst hu
      cases hs : v.isSignaling with
      | false => rfl
      | true => exact hs ▸ hm.quiet u v (hq v hv hs)
    · rw [(h.others u hu).2.2] at hv
      exact hm.quiet u v hv
  global := by
    have hglobal : m'.globalScope = m.globalScope := congrArg Prod.fst h.fixed
    rw [hglobal]
    exact hm.global
  floor := hm.floor
  isOpen := (h.shape_any hopen hbeyond hid th).1.trans hm.isOpen
  beyond u hu :=
    have hsame := h.shape_any hopen hbeyond hid u
    hsame.2.1.trans (hm.beyond u (hsame.1.symm.trans hu))
  inside u hu := by
    by_cases heq : u = th
    · subst heq
      have hscopes : (m'.thread u).scopes = t.scopes := congrArg Thread.Shape.scopes h.own.shape
      rw [hscopes]
      exact hinside
    · have hshape := (h.others u heq).1
      have hscopes : (m'.thread u).scopes = (m.thread u).scopes := congrArg Thread.Shape.scopes hshape
      rw [hscopes]
      exact hm.inside u ((congrArg Thread.Shape.isOpen hshape).symm.trans hu)
  owned u hu := by
    have hsame := h.shape_any hopen hbeyond hid u
    have howners : m'.stackOwners = m.stackOwners := congrArg (fun x => x.2.1) h.fixed
    rw [howners, hsame.2.2]
    exact hm.owned u (hsame.1.symm.trans hu)
  above := habove.trans h.own.height

/-- what a thread has pinned stays pinned -/
theorem Onward.pinned (h : Onward th b k m m') {v : Value} (hv : v ∈ (m.thread th).pins) : v ∈ (m'.thread th).pins :=
  Array.mem_toList_iff.1 (h.own.pins.subset (Array.mem_toList_iff.2 hv))

theorem Onward.isOpen (h : Onward th b k m m') (hm : m.Sane th b k) : (m'.thread th).isOpen = true :=
  (congrArg Thread.Shape.isOpen h.own.shape).trans hm.isOpen

theorem Onward.beyond (h : Onward th b k m m') (hm : m.Sane th b k) : (m'.thread th).stack.beyond = 0 :=
  (congrArg Thread.Shape.beyond h.own.shape).trans (hm.beyond th hm.isOpen)

theorem Onward.size (h : Onward th b k m m') (hm : m.Sane th b k) :
    (m'.thread th).stack.size = (m'.thread th).height := by
  unfold Stack.size Thread.height
  rw [h.beyond hm, Nat.add_zero]

theorem Onward.sane (h : Onward th b k m m') (hq : Quietly th m m') (hm : m.Sane th b k) : m'.Sane th b k :=
  h.toMoved.sane hq hm rfl rfl rfl (hm.inside th hm.isOpen) hm.above

theorem Grown.sane (h : Grown th b k n m m') (hm : m.Sane th b k) : m'.Sane th b k := h.toOnward.sane h.quietly hm

theorem Sane.size (hm : m.Sane th b k) : (m.thread th).stack.size = (m.thread th).height := by
  unfold Stack.size Thread.height
  rw [hm.beyond th hm.isOpen, Nat.add_zero]

theorem Steady.refl (hm : m.heap.Clean b) : Steady b m m := ⟨hm, rfl, rfl, rfl⟩

theorem Steady.trans (h₁ : Steady b m m') (h₂ : Steady b m' m'') : Steady b m m'' :=
  ⟨h₂.heap, h₂.threads.trans h₁.threads, h₂.uses.trans h₁.uses, h₂.fixed.trans h₁.fixed⟩

theorem Steady.thread (h : Steady b m m') (t : ThreadId) : m'.thread t = m.thread t := by
  unfold Machine.thread
  rw [h.threads]

theorem Steady.clean (h : Steady b m m') (hm : m.Clean b) : m'.Clean b :=
  ⟨h.heap, fun t => by rw [h.thread]; exact hm.slots t⟩

theorem Steady.even (h : Steady b m m') (hm : m.Clean b) : Even th b k m m' := by
  have huse (x : Handle) : m'.useCount x = m.useCount x := by unfold useCount; rw [h.uses]
  exact ⟨⟨⟨h.clean hm, h.fixed, by rw [h.thread]; exact .refl _, fun u _ => by rw [h.thread]; exact ⟨rfl, rfl, rfl⟩⟩,
    huse⟩, .of_eq (by rw [h.thread]), by rw [h.thread]; rfl⟩

end Machine

/-! ## Running -/

/-- an error of which the evaluator can make an error object that is clean -/
def Cause.IsFine (c : Cause) : Prop := ∀ list, c = .improperList list → list.IsPlain

/-- an error that comes with its object -/
def Cause.IsObject (c : Cause) : Prop := ∃ e, c = .object e

/-- an error of a call: its object, or what was taken for one -/
def Cause.IsThrown (c : Cause) : Prop := c = .lostError ∨ c.IsObject

theorem Cause.IsObject.isFine {c : Cause} (h : c.IsObject) : c.IsFine := by
  obtain ⟨e, rfl⟩ := h
  intro list hl
  cases hl

theorem Cause.IsObject.isThrown {c : Cause} (h : c.IsObject) : c.IsThrown := .inr h

/-- a failure of an orderly action: an ordinary error of which `C` holds, or a fault that the machine itself knows of -/
structure Failure.IsKnown (C : Cause → Prop) (e : Failure) : Prop where
  cause : ∀ c, e = .raised c → C c
  fault : ∀ text, e ≠ .fault (.custom text)

/-- a failure of an action that makes no error objects: an ordinary error has no object yet -/
structure Failure.IsBare (C : Cause → Prop) (e : Failure) : Prop extends e.IsKnown C where
  bare : ∀ o, e ≠ .raised (.object o)

/-- the object of an error is there, and it stays there: a value of a thread's pins names it -/
structure Machine.Secure (th : ThreadId) (m : Machine) (e : HeldError) : Prop where
  holds : m.heap.HoldsError e
  pinned : e = exhaustedError ∨ ∃ mood, e.value mood ∈ (m.thread th).pins

/-- what a thread does to clear up: nothing happens to the heap, to what is pinned, or outside the machine -/
structure Machine.Beside (th : ThreadId) (m m' : Machine) : Prop where
  heap : m'.heap = m.heap
  symbols : m'.symbols = m.symbols
  console : m'.console = m.console
  journal : m'.journal = m.journal
  pins : (m'.thread th).pins = (m.thread th).pins

theorem Machine.Beside.trans {th : ThreadId} {m m' m'' : Machine} (h₁ : Beside th m m') (h₂ : Beside th m' m'') :
    Beside th m m'' :=
  ⟨h₂.heap.trans h₁.heap, h₂.symbols.trans h₁.symbols, h₂.console.trans h₁.console, h₂.journal.trans h₁.journal,
    h₂.pins.trans h₁.pins⟩

theorem Machine.Secure.beside {th : ThreadId} {m m' : Machine} {e : HeldError} (h : m.Secure th e) (hb : Beside th m m') :
    m'.Secure th e := ⟨hb.heap ▸ h.holds, hb.pins ▸ h.pinned⟩

/-- what a failed action has left: slots may be left behind -/
structure Machine.Strayed (th : ThreadId) (b k : Nat) (C : Cause → Prop) (m : Machine) (e : Failure) (m' : Machine) :
    Prop extends e.IsKnown C where
  onward : Machine.Onward th b k m m'
  quietly : ∀ c, e = .raised c → Machine.Quietly th m m'
  secure : ∀ o, e = .raised (.object o) → m'.Secure th o

/-- what a failed action has left: slots may be left behind, unless the failure is an ordinary error -/
structure Machine.Failed (th : ThreadId) (b k : Nat) (C : Cause → Prop) (m : Machine) (e : Failure) (m' : Machine) :
    Prop extends Machine.Strayed th b k C m e m' where
  level : ∀ c, e = .raised c → (m'.thread th).height = (m.thread th).height

theorem Machine.Failed.after {th : ThreadId} {b k : Nat} {C : Cause → Prop} {m m' m'' : Machine} {e : Failure}
    (h : Failed th b k C m' e m'') (heven : Even th b k m m') : Failed th b k C m e m'' :=
  ⟨⟨h.toIsKnown, heven.toOnward.trans h.onward, fun c hc => heven.quietly.trans (h.quietly c hc), h.secure⟩,
    fun c hc => (h.level c hc).trans heven.level⟩

theorem Machine.Failed.mono {th : ThreadId} {b k : Nat} {C C' : Cause → Prop} {m m' : Machine} {e : Failure}
    (h : Failed th b k C m e m') (hC : ∀ c, C c → C' c) : Failed th b k C' m e m' :=
  ⟨⟨⟨fun c hc => hC c (h.cause c hc), h.fault⟩, h.onward, h.quietly, h.secure⟩, h.level⟩

/-- a failure that is no ordinary error -/
theorem Machine.Strayed.unraised {th : ThreadId} {b k : Nat} {C C' : Cause → Prop} {m m' : Machine} {e : Failure}
    (h : Strayed th b k C m e m') (he : ∀ c, e ≠ .raised c) : Failed th b k C' m e m' :=
  ⟨⟨⟨fun c hc => absurd hc (he c), h.fault⟩, h.onward, fun c hc => absurd hc (he c), fun _ ho => absurd ho (he _)⟩,
    fun c hc => absurd hc (he c)⟩

theorem Failure.IsKnown.mono {C C' : Cause → Prop} {e : Failure} (h : e.IsKnown C) (hC : ∀ c, C c → C' c) :
    e.IsKnown C' := ⟨fun c hc => hC c (h.cause c hc), h.fault⟩

theorem Failure.IsBare.mono {C C' : Cause → Prop} {e : Failure} (h : e.IsBare C) (hC : ∀ c, C c → C' c) :
    e.IsBare C' := ⟨h.toIsKnown.mono hC, h.bare⟩

theorem Failure.isKnown_raised {C : Cause → Prop} {c : Cause} (hc : C c) : (Failure.raised c).IsKnown C :=
  ⟨fun _ h => by cases h; exact hc, by simp⟩

theorem Failure.isKnown_fault {C : Cause → Prop} {f : Fault} (hf : ∀ text, f ≠ .custom text) :
    (Failure.fault f).IsKnown C := ⟨by simp, by simpa using hf⟩

theorem Failure.isKnown_outOfFuel {C : Cause → Prop} : Failure.outOfFuel.IsKnown C := ⟨by simp, by simp⟩

namespace Act

variable {α β : Type}

/-- how an action ends from a machine -/
def Ends (x : Act α) (m : Machine) (Q : α → Machine → Prop) (E : Failure → Machine → Prop) : Prop :=
  match x.run m with
  | .ok a m' => Q a m'
  | .error e m' => E e m'

/-- an action on the heap alone, with results of which `Q` holds and errors without an object of which `C` holds -/
def Still (b : Nat) (C : Cause → Prop) (x : Act α) (Q : α → Prop) : Prop :=
  ∀ m, m.heap.Clean b → x.Ends m (fun a m' => Machine.Steady b m m' ∧ Q a) fun e m' =>
    Machine.Steady b m m' ∧ e.IsBare C

/-- an orderly action with results of which `Q` holds and errors of which `C` holds -/
def Runs (th : ThreadId) (b k : Nat) (C : Cause → Prop) (x : Act α) (Q : α → Prop) : Prop :=
  ∀ m, m.Sane th b k → x.Ends m (fun a m' => Machine.Even th b k m m' ∧ Q a) (Machine.Failed th b k C m)

/-- an action that leaves `n` slots on the stack with values of which `L` holds when it succeeds, and may leave some when it
fails -/
def Piles (th : ThreadId) (b k n : Nat) (L : Value → Prop) (C : Cause → Prop) (x : Act α) (Q : α → Prop) : Prop :=
  ∀ m, m.Sane th b k → x.Ends m (fun a m' => Machine.Piled th b k n L m m' ∧ Q a) (Machine.Strayed th b k C m)

section Ends

variable {m : Machine} {x : Act α} {f : α → Act β} {E E' : Failure → Machine → Prop}

theorem Ends.bind {P : α → Machine → Prop} {Q : β → Machine → Prop} (hx : x.Ends m P E)
    (hf : ∀ a m', P a m' → (f a).Ends m' Q E) : (x >>= f).Ends m Q E := by
  unfold Ends at *
  rw [run_bind]
  cases hr : x.run m with
  | ok a m' => rw [hr] at hx; exact hf a m' hx
  | error e m' => rw [hr] at hx; exact hx

theorem Ends.ok {P : α → Machine → Prop} {a : α} {m' : Machine} (hx : x.Ends m P E) (hr : x.run m = .ok a m') : P a m' := by
  unfold Ends at hx
  rw [hr] at hx
  exact hx

theorem Ends.error {P : α → Machine → Prop} {e : Failure} {m' : Machine} (hx : x.Ends m P E) (hr : x.run m = .error e m') :
    E e m' := by
  unfold Ends at hx
  rw [hr] at hx
  exact hx

/-- an action that looks at the machine first -/
theorem Ends.read {g : Machine → Act β} {Q : β → Machine → Prop} (hg : (g m).Ends m Q E) : (get >>= g).Ends m Q E := hg

/-- an action after one of which the result is known -/
theorem Ends.next {a : α} {m' : Machine} {Q : β → Machine → Prop} (hr : x.run m = .ok a m') (hf : (f a).Ends m' Q E) :
    (x >>= f).Ends m Q E := by
  unfold Ends
  rw [bind_ok hr]
  exact hf

theorem Ends.mono {P Q : α → Machine → Prop} (hx : x.Ends m P E) (hQ : ∀ a m', P a m' → Q a m')
    (hE : ∀ e m', E e m' → E' e m') : x.Ends m Q E' := by
  unfold Ends at *
  cases hr : x.run m with
  | ok a m' => rw [hr] at hx; exact hQ a m' hx
  | error e m' => rw [hr] at hx; exact hE e m' hx

theorem Ends.trivial : x.Ends m (fun _ _ => True) fun _ _ => True := by
  unfold Ends
  cases x.run m <;> exact True.intro

/-- it ends as it does -/
theorem Ends.run : x.Ends m (fun a m' => x.run m = .ok a m') fun e m' => x.run m = .error e m' := by
  unfold Ends
  cases x.run m <;> rfl

theorem Ends.and {P Q : α → Machine → Prop} (hx : x.Ends m P E) (hy : x.Ends m Q E') :
    x.Ends m (fun a m' => P a m' ∧ Q a m') fun e m' => E e m' ∧ E' e m' := by
  unfold Ends at *
  cases hr : x.run m with
  | ok a m' => rw [hr] at hx hy; exact ⟨hx, hy⟩
  | error e m' => rw [hr] at hx hy; exact ⟨hx, hy⟩

theorem Ends.observe {P : Except Failure α → Machine → Prop} (hx : x.Ends m (fun a => P (.ok a)) fun e => P (.error e)) :
    (observe x).Ends m P E := by
  unfold Ends at *
  rw [run_observe]
  cases hr : x.run m with
  | ok a m' => rw [hr] at hx; exact hx
  | error e m' => rw [hr] at hx; exact hx

/-- what follows an action that is observed is run with its result or with its failure -/
theorem Ends.observing {f : Except Failure α → Act β} {P : α → Machine → Prop} {Q : β → Machine → Prop}
    {F : Failure → Machine → Prop} (hx : x.Ends m P F) (hok : ∀ a m', P a m' → (f (.ok a)).Ends m' Q E)
    (herror : ∀ e m', F e m' → (f (.error e)).Ends m' Q E) : (Act.observe x >>= f).Ends m Q E := by
  unfold Ends at hx
  rw [Ends, run_bind, run_observe]
  cases hr : x.run m with
  | ok a m' => rw [hr] at hx; exact hok a m' hx
  | error e m' => rw [hr] at hx; exact herror e m' hx

/-- what comes after is run whatever way the action ends, and the end is that of the action -/
theorem Ends.andThen {after : Act Unit} {P Q : α → Machine → Prop} {F : Failure → Machine → Prop}
    (hx : x.Ends m P F) (hok : ∀ a m', P a m' → after.Ends m' (fun _ => Q a) fun _ _ => False)
    (herror : ∀ e m', F e m' → after.Ends m' (fun _ => E e) fun _ _ => False) : (andThen x after).Ends m Q E := by
  unfold Act.andThen
  refine hx.observing (fun a m' ha => ?_) fun e m' he => ?_
  · exact Ends.bind ((hok a m' ha).mono (fun _ _ h => h) fun _ _ h => h.elim) fun _ _ h => h
  · exact Ends.bind ((herror e m' he).mono (fun _ _ h => h) fun _ _ h => h.elim) fun _ _ h => h

/-- a failure is passed on once what comes after it has been run -/
theorem Ends.onFailure {after : Act Unit} {Q : α → Machine → Prop} {F : Failure → Machine → Prop} (hx : x.Ends m Q F)
    (herror : ∀ e m', F e m' → after.Ends m' (fun _ => E e) fun _ _ => False) : (onFailure x after).Ends m Q E := by
  unfold Act.onFailure
  refine hx.observing (fun _ _ h => h) fun e m' he => ?_
  exact Ends.bind ((herror e m' he).mono (fun _ _ h => h) fun _ _ h => h.elim) fun _ _ h => h

/-- an ordinary error becomes a result -/
theorem Ends.attempt {P : Except Cause α → Machine → Prop} (hx : x.Ends m (fun a => P (.ok a)) fun
    | .raised c => P (.error c)
    | e => E e) : (attempt x).Ends m P E := by
  unfold Act.attempt
  refine hx.observing (fun _ _ h => h) fun e m' h => ?_
  cases e <;> exact h

/-- what follows an attempt is run with the result or with the ordinary error that took its place -/
theorem Ends.attempting {f : Except Cause α → Act β} {P : α → Machine → Prop} {Q : β → Machine → Prop}
    {F : Failure → Machine → Prop} (hx : x.Ends m P F) (hok : ∀ a m', P a m' → (f (.ok a)).Ends m' Q E)
    (hcause : ∀ c m', F (.raised c) m' → (f (.error c)).Ends m' Q E)
    (hfail : ∀ e m', (∀ c, e ≠ .raised c) → F e m' → E e m') : (Act.attempt x >>= f).Ends m Q E := by
  unfold Ends at hx
  rw [Ends, run_bind, Act.attempt, run_bind, run_observe]
  cases hr : x.run m with
  | ok a m' => rw [hr] at hx; exact hok a m' hx
  | error e m' =>
    rw [hr] at hx
    cases e with
    | raised c => exact hcause c m' hx
    | fault f => exact hfail _ m' (by simp) hx
    | outOfFuel => exact hfail _ m' (by simp) hx

/-- what leaves the threads alone runs evenly -/
theorem Ends.even {th : ThreadId} {b k : Nat} {C : Cause → Prop} {Q : α → Prop} (hm : m.Clean b)
    (hx : x.Ends m (fun a m' => Machine.Steady b m m' ∧ Q a) fun e m' => Machine.Steady b m m' ∧ e.IsBare C) :
    x.Ends m (fun a m' => Machine.Even th b k m m' ∧ Q a) (Machine.Failed th b k C m) :=
  hx.mono (fun _ _ h => ⟨h.1.even hm, h.2⟩) fun _ _ h =>
    have heven := h.1.even hm
    ⟨⟨h.2.toIsKnown, heven.toOnward, fun _ _ => heven.quietly, fun o ho => absurd ho (h.2.bare o)⟩,
      fun _ _ => heven.level⟩

end Ends

variable {th : ThreadId} {b k n l : Nat} {C D : Cause → Prop} {x : Act α} {f : α → Act β}

namespace Still

theorem pure {Q : α → Prop} {a : α} (ha : Q a) : Still b C (Pure.pure a) Q := fun _ hm => ⟨.refl hm, ha⟩

theorem bind {P : α → Prop} {Q : β → Prop} (hx : Still b C x P) (hf : ∀ a, P a → Still b C (f a) Q) :
    Still b C (x >>= f) Q := fun m hm =>
  (hx m hm).bind fun a m' ⟨hsteady, ha⟩ => (hf a ha m' hsteady.heap).mono
    (fun _ _ h => ⟨hsteady.trans h.1, h.2⟩) fun _ _ h => ⟨hsteady.trans h.1, h.2⟩

theorem mono {P Q : α → Prop} (hx : Still b C x P) (hQ : ∀ a, P a → Q a) (hC : ∀ c, C c → D c) : Still b D x Q :=
  fun m hm => (hx m hm).mono (fun a _ h => ⟨h.1, hQ a h.2⟩) fun _ _ h => ⟨h.1, h.2.mono hC⟩

/-- an action that looks at the machine first -/
theorem read {g : Machine → Act β} {Q : β → Prop} (hg : ∀ m, m.heap.Clean b → Still b C (g m) Q) :
    Still b C (get >>= g) Q := fun m hm => hg m hm m hm

theorem raise {c : Cause} {Q : α → Prop} (hc : C c) (hbare : ∀ o, c ≠ .object o) :
    Still b C (Act.raise c : Act α) Q := fun _ hm =>
  ⟨.refl hm, Failure.isKnown_raised hc, fun o ho => hbare o (Failure.raised.inj ho)⟩

theorem fault {f : Fault} {Q : α → Prop} (hf : ∀ text, f ≠ .custom text) :
    Still b C (Act.fault f : Act α) Q := fun _ hm => ⟨.refl hm, Failure.isKnown_fault hf, by simp⟩

theorem modify {g : Machine → Machine} (hg : ∀ m, m.heap.Clean b → Machine.Steady b m (g m)) :
    Still b C (modify g : Act PUnit) fun _ => True := fun m hm =>
  ⟨⟨(hg m hm).heap, (hg m hm).threads, (hg m hm).uses, (hg m hm).fixed⟩, trivial⟩

theorem note (e : Event) : Still b C (Act.note e) fun _ => True := fun _ hm => ⟨⟨hm, rfl, rfl, rfl⟩, trivial⟩

/-- a note that is made on a condition -/
theorem noteIf {p : Prop} [Decidable p] {e : Event} {Q : β → Prop} {rest : Act β} (hrest : Still b C rest Q) :
    Still b C (if p then Act.note e >>= fun _ => rest else rest) Q := by
  split
  · exact (note e).bind fun _ _ => hrest
  · exact hrest

theorem throw {e : Failure} {Q : α → Prop} (he : e.IsBare C) : Still b C (throw e : Act α) Q := fun _ hm =>
  ⟨.refl hm, he⟩

theorem observe {P : α → Prop} (hx : Still b C x P) : Still b D (Act.observe x) fun
    | .ok a => P a
    | .error e => e.IsBare C := fun m hm => Ends.observe ((hx m hm).mono (fun _ _ h => h) fun _ _ h => h)

/-- such an action is orderly -/
theorem runs {Q : α → Prop} (hx : Still b C x Q) : Runs th b k C x Q := fun m hm => Ends.even hm.toClean (hx m hm.heap)

end Still

namespace Runs

theorem pure {Q : α → Prop} {a : α} (ha : Q a) : Runs th b k C (Pure.pure a) Q := (Still.pure ha).runs

theorem bind {P : α → Prop} {Q : β → Prop} (hx : Runs th b k C x P) (hf : ∀ a, P a → Runs th b k C (f a) Q) :
    Runs th b k C (x >>= f) Q := fun m hm =>
  (hx m hm).bind fun a m' ⟨heven, ha⟩ => (hf a ha m' (heven.sane hm)).mono
    (fun _ _ h => ⟨heven.trans h.1, h.2⟩)
    fun _ _ h => h.after heven

theorem mono {P Q : α → Prop} (hx : Runs th b k C x P) (hQ : ∀ a, P a → Q a) (hC : ∀ c, C c → D c) :
    Runs th b k D x Q := fun m hm =>
  (hx m hm).mono (fun a _ h => ⟨h.1, hQ a h.2⟩) fun _ _ h => h.mono hC

theorem weaken {P Q : α → Prop} (hx : Runs th b k C x P) (hQ : ∀ a, P a → Q a) : Runs th b k C x Q := hx.mono hQ fun _ => id

/-- an action that looks at the machine first -/
theorem read {g : Machine → Act β} {Q : β → Prop} (hg : ∀ m, m.Sane th b k → Runs th b k C (g m) Q) :
    Runs th b k C (get >>= g) Q := fun m hm => hg m hm m hm

/-- an error without an object is raised -/
theorem raise {c : Cause} {Q : α → Prop} (hc : C c) (hbare : ∀ o, c ≠ .object o) :
    Runs th b k C (Act.raise c : Act α) Q := (Still.raise hc hbare).runs

theorem fault {f : Fault} {Q : α → Prop} (hf : ∀ text, f ≠ .custom text) :
    Runs th b k C (Act.fault f : Act α) Q := (Still.fault hf).runs

theorem outOfFuel {Q : α → Prop} : Runs th b k C (throw .outOfFuel : Act α) Q :=
  fun _ hm => ⟨⟨Failure.isKnown_outOfFuel, .refl hm.toClean, by simp, by simp⟩, by simp⟩

theorem modify {g : Machine → Machine} (hg : ∀ m, m.Sane th b k → Machine.Even th b k m (g m)) :
    Runs th b k C (modify g : Act PUnit) fun _ => True := fun m hm =>
  have h := hg m hm
  have hsame : Machine.Steady b (g m) { g m with journal := m.journal } := ⟨h.clean.heap, rfl, rfl, rfl⟩
  ⟨h.trans (hsame.even h.clean), trivial⟩

/-- the result, or the ordinary error, whose object is there -/
theorem attempt {P : α → Prop} (hx : Runs th b k C x P) (m : Machine) (hm : m.Sane th b k) :
    (Act.attempt x).Ends m (fun r m' => Machine.Even th b k m m' ∧ match r with
      | .ok a => P a
      | .error c => C c ∧ ∀ o, c = .object o → m'.Secure th o) (Machine.Failed th b k D m) := by
  refine .attempt ((hx m hm).mono (fun _ _ h => h) fun e m' h => ?_)
  cases e with
  | raised c =>
    exact ⟨⟨h.onward, h.quietly c rfl, h.level c rfl⟩, h.cause c rfl, fun o ho => h.secure o (by rw [ho])⟩
  | fault f => exact h.unraised (by simp)
  | outOfFuel => exact h.unraised (by simp)

/-- an action that moves nothing on the stack -/
theorem piles {L : Value → Prop} {P : α → Prop} (hx : Runs th b k C x P) (hstack : ∀ m, m.Sane th b k →
    x.Ends m (fun _ m' => (m'.thread th).stack = (m.thread th).stack) fun _ _ => True) : Piles th b k 0 L C x P := fun m hm =>
  ((hx m hm).and (hstack m hm)).mono (fun _ _ h => ⟨⟨h.1.1, [], by simp [h.2], by simp⟩, h.1.2⟩) fun _ _ h => h.1.toStrayed

/-- an action that only fails -/
theorem fails {L : Value → Prop} {P Q : α → Prop} (hx : Runs th b k C x P) (hP : ∀ a, ¬ P a) : Piles th b k n L C x Q :=
  fun m hm => (hx m hm).mono (fun a _ h => absurd h.2 (hP a)) fun _ _ h => h.toStrayed

end Runs

namespace Piles

variable {L : Value → Prop} {P : α → Prop}

theorem pure {Q : α → Prop} {a : α} (ha : Q a) : Piles th b k 0 L C (Pure.pure a) Q := fun _ hm =>
  ⟨⟨Machine.Even.refl hm.toClean, [], by simp, by simp⟩, ha⟩

theorem bind {Q : β → Prop} (hx : Piles th b k n L C x P) (hf : ∀ a, P a → Piles th b k l L C (f a) Q) :
    Piles th b k (n + l) L C (x >>= f) Q := fun m hm =>
  (hx m hm).bind fun a m' ⟨hpiled, ha⟩ => (hf a ha m' (hpiled.sane hm)).mono
    (fun _ _ h => ⟨hpiled.trans h.1, h.2⟩)
    fun _ _ h => ⟨h.toIsKnown, hpiled.toOnward.trans h.onward, fun c hc => hpiled.quietly.trans (h.quietly c hc), h.secure⟩

/-- an action on the heap alone -/
theorem of_still (hx : Still b C x P) : Piles th b k 0 L C x P :=
  hx.runs.piles fun m hm => (hx m hm.heap).mono (fun _ _ h => by rw [h.1.thread]) fun _ _ _ => trivial

/-- the slots, or an ordinary error with some of them left behind -/
theorem attempt (hx : Piles th b k n L C x P) (m : Machine) (hm : m.Sane th b k) :
    (Act.attempt x).Ends m (fun r m' => match r with
      | .ok a => Machine.Piled th b k n L m m' ∧ P a
      | .error c => Machine.Onward th b k m m' ∧ Machine.Quietly th m m' ∧ C c ∧ ∀ o, c = .object o → m'.Secure th o)
      (Machine.Failed th b k D m) := by
  refine .attempt ((hx m hm).mono (fun _ _ h => h) fun e m' h => ?_)
  cases e with
  | raised c => exact ⟨h.onward, h.quietly c rfl, h.cause c rfl, fun o ho => h.secure o (by rw [ho])⟩
  | fault f => exact h.unraised (by simp)
  | outOfFuel => exact h.unraised (by simp)

theorem of_eq (hx : Piles th b k n L C x P) (hn : n = l) : Piles th b k l L C x P := hn ▸ hx

end Piles

end Act

end LispMachine
