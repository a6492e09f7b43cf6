/-
Threads: stacks, scopes in use, and what is kept alive for an operation.

A thread has a stack of its own, whose id is reused once the thread is closed. `guarded` runs an action and drops every
pin it made but that of its result or its error; it also contains a full heap: the action then ends with the error for a
full heap, and what it had left on the stack is removed. Running an action in a scope counts the scope as in use for as
long.
-/
import LispMachine.Machine.Errors

namespace LispMachine.Act

/-! ## The stack of a thread -/

def stackOf (th : ThreadId) : Act Stack := do return ((← get).thread th).stack

def stackSize (th : ThreadId) : Act Nat := do return ((← get).thread th).stack.size

/-- the number that references to a thread's slots carry -/
def stackId (th : ThreadId) : Act Nat := do return ((← get).thread th).stack.id

/-- the number of slots reserved above the capacity of a thread's stack -/
def stackBeyond (th : ThreadId) : Act Nat := do return ((← get).thread th).stack.beyond

def setStack (th : ThreadId) (s : Stack) : Act Unit :=
  modify fun m => m.onThread th fun t => { t with stack := s }

/-- the failure for a failed stack operation; a top that ends no frame is shown as text -/
def stackFailure (id : Nat) : StackError → Act Failure
  | .overflow size capacity => do
    note .overflowed
    return .raised (.stackOverflow size capacity)
  | .underflow => pure (.raised .stackUnderflow)
  | .argIndex attempted length => pure (.raised (.argIndex attempted length))
  | .popped i => pure (.raised (.poppedSlot i id))
  | .notMarker v => do return .raised (.notMarker id (← printIn "s" v))
  | .outside i capacity => pure (.fault (.slotOutside i capacity))

/-- the result of looking at the stack -/
def readStack {α : Type} (th : ThreadId) (f : Stack → Except StackError α) : Act α := do
  let s ← stackOf th
  match f s with
  | .ok a => return a
  | .error e => throw (← stackFailure s.id e)

/-- run a stack operation that changes the stack or fails -/
def onStack (th : ThreadId) (f : Stack → Except StackError Stack) : Act Unit := do
  setStack th (← readStack th f)

/-- run a stack operation that leaves a stack behind, whether it fails or not -/
def throughStack {α : Type} (th : ThreadId) (f : Stack → Except StackError α × Stack) : Act α := do
  let s ← stackOf th
  let (r, left) := f s
  setStack th left
  match r with
  | .ok a => return a
  | .error e => throw (← stackFailure s.id e)

/-- push a value and return a reference to its slot -/
def push (th : ThreadId) (v : Value) : Act Value := do
  let t := (← get).thread th
  let id := t.stack.id
  let size := t.stack.size
  let capacity := t.stack.capacity
  if capacity ≤ size then
    note .overflowed
    raise (.stackOverflow size capacity)
  modify fun m => m.onThread th fun t => { t with stack := { t.stack with items := t.stack.items.push v } }
  return .ref (.stack id size)

/-- pop the top of the stack -/
def popRaw (th : ThreadId) : Act Value := throughStack th (·.pop)

/-- pop the top of the stack and pin it -/
def pop (th : ThreadId) : Act Value := do
  let v ← popRaw th
  pin th v
  return v

/-- end a frame of `n` slots -/
def endFrame (th : ThreadId) (n : Int) : Act Unit := throughStack th (·.endFrame n)

/-- a reference to argument `n` of the current frame -/
def argReference (th : ThreadId) (n : Int) : Act Value := do
  let i ← readStack th (·.argSlot n)
  return .ref (.stack (← stackId th) i)

/-- the values on the stack from the bottom up -/
def liveSlots (th : ThreadId) : Act (List Value) := do
  match (← stackOf th).live with
  | .ok vs => return vs
  | .error (.outside size capacity) => fault (.slotsOutside size capacity)
  | .error e => throw (← stackFailure (← stackOf th).id e)

/-- remove the top `n` slots if there are that many -/
def dropSlots (th : ThreadId) (n : Nat) : Act Unit := do
  if (← stackBeyond th) ≠ 0 then
    if n ≤ (← stackSize th) then endFrame th n
  else
    modify fun m => m.onThread th fun t =>
      if t.stack.size < n then t
      else { t with stack := { t.stack with items := t.stack.items.shrink (t.stack.items.size - n) } }

/-- remove what lies above the slot `base` -/
def dropAbove (th : ThreadId) (base : Nat) : Act Unit := do
  if (← stackBeyond th) ≠ 0 then
    let size ← stackSize th
    if base < size then endFrame th ((size - base : Nat) : Int)
  else
    modify fun m => m.onThread th fun t =>
      { t with stack := { t.stack with items := t.stack.items.shrink base } }

/-! ## Guards -/

/-- what to keep pinned after an operation: its result, or its error object -/
def outcomeKept : Except Failure Value → List Value
  | .ok v => [v]
  | .error (.raised (.object e)) => [e.value .quiet]
  | .error _ => []

/-- a full heap inside an operation becomes the operation's error, and its stack slots are removed -/
def contain (th : ThreadId) (base : Nat) (r : Except Failure Value) : Act (Except Failure Value) := do
  match r with
  | .error (.fault .exhausted) =>
    match ← observe (dropAbove th base) with
    | .ok _ => return .error (.raised (.object Machine.exhaustedError))
    | .error f => return .error f
  | r => return r

/-- end an operation as it came out and drop its pins, all but that of the outcome; an error without an object is a fault,
found when the object is to be pinned, and the pins stay -/
def conclude (th : ThreadId) (pins : Nat) (r : Except Failure Value) : Act Value := do
  match r with
  | .error (.raised .lostError) => fault .mistyped
  | r =>
    unpinTo th pins (outcomeKept r)
    settle r

/-- the pins and the stack size at the start of a guarded operation -/
structure Guard where
  pins : Nat
  base : Nat

def openGuard (th : ThreadId) : Act Guard := do
  return ⟨← pinCount th, ← stackSize th⟩

/-- end a guarded operation with its outcome -/
def closeGuard (th : ThreadId) (g : Guard) (r : Except Failure Value) : Act Value := do
  conclude th g.pins (← contain th g.base r)

/-- run an action, keep nothing pinned but its result or error, and contain a full heap -/
def guarded (th : ThreadId) (x : Act Value) : Act Value := do
  let g ← openGuard th
  let r ← observe x
  closeGuard th g r

/-! ## Scopes in use -/

/-- the table of uses with the count of `h` set to `n` -/
def setUses (uses : Array Nat) (h : Handle) (n : Nat) : Array Nat :=
  if h < uses.size then uses.setIfInBounds h n
  else (uses ++ Array.replicate (h - uses.size) 0).push n

/-- `h` is in use once more -/
def useScope (h : Handle) : Act Unit :=
  modify fun m => { m with uses := setUses m.uses h (m.useCount h + 1) }

/-- `h` is in use once less -/
def unuseScope (h : Handle) : Act Unit := do
  let n := (← get).useCount h
  if n = 0 then fault (.useUnderflow (← print (.scope h)))
  modify fun m => { m with uses := setUses m.uses h (n - 1) }

/-- the innermost scope -/
def currentScope (th : ThreadId) : Act Handle := do
  match ((← get).thread th).scopes.back? with
  | some h => return h
  | none => fault .noScope

/-- the thread's global scope -/
def globalScope (th : ThreadId) : Act Handle := do
  match ((← get).thread th).scopes[0]? with
  | some h => return h
  | none => fault .noGlobalScope

/-- go into a scope -/
def enterScope (th : ThreadId) (h : Handle) : Act Unit := do
  useScope h
  modify fun m => m.onThread th fun t => { t with scopes := t.scopes.push h }

/-- come out of a scope -/
def leaveScope (th : ThreadId) (h : Handle) : Act Unit := do
  if ((← get).thread th).scopes.isEmpty then fault .noScope
  modify fun m => m.onThread th fun t => { t with scopes := t.scopes.pop }
  unuseScope h

/-- run an action with `h` as the innermost scope -/
def inScope {α : Type} (th : ThreadId) (h : Handle) (x : Act α) : Act α := do
  enterScope th h
  andThen x (leaveScope th h)

/-- let `h` stand in for the global scope and return the old one -/
def enterGlobal (th : ThreadId) (h : Handle) : Act Handle := do
  useScope h
  let old ← globalScope th
  modify fun m => m.onThread th fun t => { t with scopes := t.scopes.setIfInBounds 0 h }
  return old

/-- put the old global scope back -/
def leaveGlobal (th : ThreadId) (h old : Handle) : Act Unit := do
  if ((← get).thread th).scopes.isEmpty then fault .noGlobalScope
  modify fun m => m.onThread th fun t => { t with scopes := t.scopes.setIfInBounds 0 old }
  unuseScope h

/-- run an action with `h` in place of the thread's global scope -/
def withGlobal {α : Type} (th : ThreadId) (h : Handle) (x : Act α) : Act α := do
  let old ← enterGlobal th h
  andThen x (leaveGlobal th h old)

/-! ## Opening and closing -/

/-- the default global scope, made on first use and in use for good -/
def defaultGlobal : Act Handle := do
  match (← get).globalScope with
  | some h => return h
  | none =>
    let name ← intern "global-namespace"
    let h ← allocate (.scope { name := some name })
    useScope h
    modify fun m => { m with globalScope := some h }
    return h

/-- the number of stack ids -/
def stackIdLimit : Nat := 65536

/-- a capacity has to be below this -/
def capacityLimit : Nat := 0x40000000

/-- a stack id for the thread to be opened next -/
def takeStackId : Act Nat := do
  let m ← get
  let th := m.threads.size
  match m.freeStacks with
  | id :: free =>
    set { m with freeStacks := free, stackOwners := m.stackOwners.setIfInBounds id (some th) }
    return id
  | [] =>
    if stackIdLimit ≤ m.stackOwners.size then raise .tooManyStacks
    else
      let id := m.stackOwners.size
      modify fun m => { m with stackOwners := m.stackOwners.push (some th) }
      return id

/-- open a thread; a capacity that is not positive means the default -/
def openThread (capacity : Int) : Act ThreadId := do
  let capacity := if capacity ≤ 0 then Stack.defaultCapacity else capacity.toNat
  if capacityLimit ≤ capacity then raise (.stackTooLarge capacity)
  let th := (← get).threads.size
  let id ← takeStackId
  let g ← defaultGlobal
  useScope g
  modify fun m => { m with threads := m.threads.push { stack := { id := id, capacity := capacity }, scopes := #[g] } }
  return th

/-- open a thread with the configured capacity -/
def openDefaultThread : Act ThreadId := do openThread (← get).config.stackCapacity

/-- close a thread: its roots are given up and its stack id is free again -/
def closeThread (th : ThreadId) : Act Unit := do
  let t := (← get).thread th
  if t.isOpen then
    modify fun m => m.onThread th fun t => { t with isOpen := false, scopes := #[], pins := #[] }
    t.scopes.toList.forM unuseScope
    modify fun m =>
      let id := t.stack.id
      if (m.stackOwners[id]?).join = some th then
        { m with stackOwners := m.stackOwners.setIfInBounds id none, freeStacks := id :: m.freeStacks }
      else m

end LispMachine.Act
