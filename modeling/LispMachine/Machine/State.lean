/-
The machine: everything an evaluation reads and writes.

One record holds the heap, the table of symbols, the scopes in use, the threads with their stacks, the collector and the
console. An action takes the machine to a result or a failure and a machine. A failure is an ordinary error, which
handlers may see, a fault, which unwinds everything up to the operation that contains it, or the end of the fuel that
bounds every evaluation.

The machine also keeps a journal of what happens to it. Nothing reads the journal; it is there so that statements about
whole runs can say what happened on the way, and an action carries the proof that it only adds to it.
-/
import LispMachine.Heap.Collect
import LispMachine.Machine.Stack

namespace LispMachine

/-! ## Parts of the machine -/

/-- how new objects reach the registry -/
inductive AllocatorMode where
  | inline
  | channel
deriving DecidableEq, Repr

def AllocatorMode.name : AllocatorMode → String
  | .inline => "inline"
  | .channel => "channel"

/-- what started a collection pass -/
inductive Trigger where
  | explicit
  | threshold
  | background
  | interval
deriving DecidableEq, Repr

def Trigger.name : Trigger → String
  | .explicit => "explicit"
  | .threshold => "threshold"
  | .background => "background"
  | .interval => "interval"

/-- what the collector is doing -/
inductive Phase where
  | idle
  | marking
  | sweeping
deriving DecidableEq, Repr

def Phase.name : Phase → String
  | .idle => "idle"
  | .marking => "marking"
  | .sweeping => "sweeping"

/-- the record of a completed pass -/
structure Pass where
  epoch : Nat
  trigger : Trigger
  roots : Nat
  swept : Nat
  survivors : Nat
  threshold : Nat
deriving DecidableEq, Repr

structure Collector where
  /-- between two actions no pass is under way, unless one has failed -/
  phase : Phase := .idle
  /-- the number of the current epoch; a pass starts the next one -/
  epoch : Nat := 1
  /-- a pass is due when more objects than this are in use -/
  threshold : Nat := 1024
  /-- the threshold never falls below this -/
  minThreshold : Nat := 1024
  passes : Nat := 0
  /-- the latest passes, oldest first -/
  history : Array Pass := #[]
  /-- whether stores have to mark what they overwrite -/
  marking : Bool := false
  /-- whether a background collector takes the passes that are due -/
  running : Bool := false

structure Config where
  stackCapacity : Nat := Stack.defaultCapacity
  threshold : Nat := 1024
  allocator : AllocatorMode := .inline
  background : Bool := false
deriving DecidableEq, Repr

/-- a line of evaluation: a stack, the scopes in use from the global one inwards, and the values kept alive for it -/
structure Thread where
  stack : Stack
  /-- the number of evaluations under way -/
  depth : Nat := 0
  scopes : Array Handle := #[]
  pins : Array Value := #[]
  isOpen : Bool := true

/-- where a text was written -/
inductive Channel where
  | out
  | err
  | debug
deriving DecidableEq, Repr

/-- what has been written, and how many writes to `out` and `err` are still accepted -/
structure Console where
  written : Array (Channel × String) := #[]
  budget : Option Nat := none

/-- what the journal tells of -/
inductive Event where
  /-- an allocation found the heap full -/
  | refused
  /-- the stack or the nesting of evaluations was at its limit -/
  | overflowed
  /-- a field of a pair was assigned to; `text` for a pair that holds program text -/
  | assigned (text : Bool)
  /-- an object was looked for that had been released -/
  | missed
  /-- an error was caught; the forms of `body` are to run with `name` bound to it -/
  | caught (e : HeldError) (name : Handle) (body : Value)
  /-- a collection pass was taken -/
  | passed (trigger : Trigger)
deriving DecidableEq

/-- the index of a thread in the order of opening -/
abbrev ThreadId := Nat

structure Machine where
  heap : Heap := {}
  /-- symbols by name, the newest first -/
  symbols : List (String × Handle) := []
  gensyms : Nat := 0
  /-- the default global scope, made with the first thread -/
  globalScope : Option Handle := none
  /-- how often each scope is in use, by handle; a scope in use is kept alive -/
  uses : Array Nat := #[]
  threads : Array Thread := #[]
  /-- the thread that owns each stack id -/
  stackOwners : Array (Option ThreadId) := #[]
  /-- released stack ids, the most recent first -/
  freeStacks : List Nat := []
  collector : Collector := {}
  config : Config := {}
  allocator : AllocatorMode := .inline
  /-- the outcome of installing the primitives, once that has been tried -/
  installed : Option (Except Cause Unit) := none
  console : Console := {}
  /-- what has happened so far, the latest first -/
  journal : List Event := []

/-! ## Failures and actions -/

/-- a broken promise inside the machine, which no handler sees -/
inductive Fault where
  /-- every handle is in use -/
  | exhausted
  /-- a handle was used whose object has been released -/
  | freed (h : Handle) (kind : Kind)
  | notReference
  /-- a handle names an object of another kind than its value says -/
  | mistyped
  | noScope
  | noGlobalScope
  | fewerValues (length : Nat)
  /-- a stack slot above the capacity is reached for -/
  | slotOutside (index capacity : Nat)
  /-- all slots of a stack are asked for, some of which lie above the capacity -/
  | slotsOutside (size capacity : Nat)
  | useUnderflow (shown : String)
  /-- a value without end is printed or compared -/
  | endless
  | custom (text : String)
deriving DecidableEq

def Fault.text : Fault → String
  | .exhausted => "vm: heap exhausted"
  | .freed h kind => s!"vm: use of freed heap handle {h} ({kind.name})"
  | .notReference => "Object.refParts: not a reference"
  | .mistyped => "runtime error: invalid memory address or nil pointer dereference"
  | .noScope => "runtime error: index out of range [-1]"
  | .noGlobalScope => "runtime error: index out of range [0] with length 0"
  | .fewerValues n => s!"runtime error: index out of range [{n}] with length {n}"
  | .slotOutside i n => s!"runtime error: index out of range [{i}] with length {n}"
  | .slotsOutside size n => s!"runtime error: slice bounds out of range [:{size}] with capacity {n}"
  | .useUnderflow shown => s!"vm: reference count underflow for {shown}"
  | .endless => "runtime error: stack overflow"
  | .custom text => text

inductive Failure where
  | raised (cause : Cause)
  | fault (f : Fault)
  | outOfFuel
deriving DecidableEq

/-- how an action ends: a result or a failure, and the machine after it -/
abbrev Outcome (α : Type) := EStateM.Result Failure Machine α

/-- the machine at the end of an action -/
def Outcome.machine {α : Type} : Outcome α → Machine
  | .ok _ m => m
  | .error _ m => m

/-- an action of the machine, which only adds to the journal -/
structure Act (α : Type) where
  run : Machine → Outcome α
  grows : ∀ m, m.journal <:+ (Outcome.machine (run m)).journal

instance {α : Type} : CoeFun (Act α) fun _ => Machine → Outcome α := ⟨Act.run⟩

namespace Act

/-- an action that ends as told and leaves the journal alone -/
@[always_inline, inline]
def ofOutcome {α : Type} (f : Machine → Outcome α) (h : ∀ m, (Outcome.machine (f m)).journal = m.journal) : Act α :=
  ⟨f, fun m => (h m).symm ▸ List.suffix_rfl⟩

@[always_inline, inline]
protected def sequence {α β : Type} (x : Act α) (f : α → Act β) : Act β where
  run m := match x.run m with
    | .ok a m => (f a).run m
    | .error e m => .error e m
  grows m := by
    have hx := x.grows m
    split <;> rename_i h <;> rw [h] at hx
    · exact hx.trans ((f _).grows _)
    · exact hx

@[always_inline]
instance : Monad Act where
  pure a := ofOutcome (fun m => .ok a m) fun _ => rfl
  bind := Act.sequence

/-- write a new state, with the journal as it was -/
@[always_inline, inline]
protected def modifyGet {α : Type} (f : Machine → α × Machine) : Act α :=
  ofOutcome (fun m =>
    let journal := m.journal
    match f m with
    | (a, new) => .ok a { new with journal := journal }) fun _ => rfl

@[always_inline]
instance : MonadStateOf Machine Act where
  get := ofOutcome (fun m => .ok m m) fun _ => rfl
  set new := Act.modifyGet fun _ => ((), new)
  modifyGet := Act.modifyGet

@[always_inline, inline]
protected def tryCatch {α : Type} (x : Act α) (handle : Failure → Act α) : Act α where
  run m := match x.run m with
    | .ok a m => .ok a m
    | .error e m => (handle e).run m
  grows m := by
    have hx := x.grows m
    split <;> rename_i h <;> rw [h] at hx
    · exact hx
    · exact hx.trans ((handle _).grows _)

@[always_inline]
instance : MonadExceptOf Failure Act where
  throw e := ofOutcome (fun m => .error e m) fun _ => rfl
  tryCatch := Act.tryCatch

instance {α : Type} : Inhabited (Act α) := ⟨throw .outOfFuel⟩

/-- put an event into the journal -/
def note (e : Event) : Act Unit where
  run m := .ok () { m with journal := e :: m.journal }
  grows _ := List.suffix_cons _ _

/-- the outcome of an action as a value -/
@[inline] def observe {α : Type} (x : Act α) : Act (Except Failure α) where
  run m := match x.run m with
    | .ok a m => .ok (.ok a) m
    | .error e m => .ok (.error e) m
  grows m := by
    have hx := x.grows m
    split <;> rename_i h <;> rw [h] at hx <;> exact hx

/-- end as an observed action did -/
@[inline] def settle {α : Type} : Except Failure α → Act α
  | .ok a => pure a
  | .error e => throw e

def raise {α : Type} (c : Cause) : Act α := throw (.raised c)

def fault {α : Type} (f : Fault) : Act α := throw (.fault f)

/-- run an action and then, whatever came of it, another -/
@[inline] def andThen {α : Type} (x : Act α) (after : Act Unit) : Act α := do
  let r ← observe x
  after
  settle r

/-- run an action, and another if it fails -/
@[inline] def onFailure {α : Type} (x : Act α) (after : Act Unit) : Act α := do
  match ← observe x with
  | .ok a => return a
  | .error e =>
    after
    throw e

/-- the result, or the ordinary error that took its place; faults go on -/
@[inline] def attempt {α : Type} (x : Act α) : Act (Except Cause α) := do
  match ← observe x with
  | .ok a => return .ok a
  | .error (.raised c) => return .error c
  | .error e => throw e

end Act

/-! ## Threads -/

def Thread.blank : Thread := { stack := { id := 0, capacity := 0 }, isOpen := false }

namespace Machine

def thread (m : Machine) (th : ThreadId) : Thread := (m.threads[th]?).getD .blank

def onThread (m : Machine) (th : ThreadId) (f : Thread → Thread) : Machine :=
  { m with threads := m.threads.modify th f }

/-- the error that stands for a full heap; it is the first object, made with the machine -/
def exhaustedError : HeldError := ⟨⟨1, 0⟩, .heapExhausted⟩

/-- the machine at the start: nothing but the error for a full heap -/
def initial : Machine :=
  { heap := { slots := #[none, some ⟨.error { kind := exhaustedError.kind }, 1, exhaustedError.serial, false⟩],
              registry := #[exhaustedError.handle], count := 1, births := 1 } }

/-! ## Reading the heap -/

def cell? (m : Machine) (h : Handle) : Option Cell := m.heap.cell? h

/-- the stack with a given id, if its thread is open -/
def stack? (m : Machine) (id : Nat) : Option Stack :=
  (m.stackOwners[id]?).join.map fun th => (m.thread th).stack

/-- the value in a place; a place that is gone reads as unset -/
def load (m : Machine) : Place → Value
  | .stack id i => match m.stack? id with
    | some s => s.get i
    | none => .unset
  | .box h => match m.cell? h with
    | some (.box v) => v
    | _ => .unset
  | .car h => match m.cell? h with
    | some (.cons a _) => a
    | _ => .unset
  | .cdr h => match m.cell? h with
    | some (.cons _ d) => d
    | _ => .unset

/-- the name of a symbol -/
def symbolName (m : Machine) (h : Handle) : String :=
  match m.cell? h with
  | some (.symbol name) => name
  | _ => ""

/-- more steps than any walk through the machine can take without coming back to where it was -/
def extent (m : Machine) : Nat :=
  2 * m.heap.slots.size + (m.threads.foldl (fun n t => n + t.stack.size) 0) + 2

end Machine

end LispMachine
