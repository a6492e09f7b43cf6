/-
Looking at objects and storing into them.

A value that names an object is resolved through the table. If the slot is empty the object has been released, and using
the handle is a fault; if the slot holds an object of another kind, the value does not name what it says. A store through
a reference marks what it overwrites while a pass is under way.

The evaluator keeps hold of the pair it works on while it evaluates parts of it, and an error that is on its way to a
handler is held too. A pair that was released meanwhile reads as empty, and of such an error nothing is left but its kind.
Forms that are to be evaluated later are kept as values. Whenever something is looked for that has been released, the
journal says so.
-/
import LispMachine.Machine.Collector
import LispMachine.Word

namespace LispMachine

namespace Machine

/-- the two fields of a held pair; nil and nil once the pair has been released -/
def fields (m : Machine) (c : Held) : Value × Value :=
  match m.heap.slot? c.handle with
  | some ⟨.cons a d, _, serial, _⟩ => if serial = c.serial then (a, d) else (.nil, .nil)
  | _ => (.nil, .nil)

/-- the error object that is held; without name and payloads once it has been released -/
def errorObject (m : Machine) (e : HeldError) : ErrorObject :=
  match m.heap.slot? e.handle with
  | some ⟨.error x, _, serial, _⟩ => if serial = e.serial then x else { kind := e.kind }
  | _ => { kind := e.kind }

/-- the serial number of the object a value names -/
def serial? (m : Machine) (v : Value) : Option Nat := (v.handle?.bind m.heap.slot?).map Slot.serial

/-- whether what is held is still there -/
def holds (m : Machine) (c : Held) : Bool := (m.heap.slot? c.handle).map Slot.serial = some c.serial

/-- whether the object whose field a reference points to has been released -/
def dangles (m : Machine) : Place → Bool
  | .stack _ _ => false
  | .box h | .car h | .cdr h => (m.heap.slot? h).isNone

end Machine

/-- a value kept for later, with the serial number of the object it names -/
structure Saved where
  value : Value
  serial : Option Nat

namespace Act

/-- the object a value names; none for a value that names no object -/
def resolve (v : Value) : Act (Option Slot) := do
  match v.handle? with
  | none => return none
  | some h =>
    match (← get).heap.slot? h with
    | some s => return some s
    | none =>
      note .missed
      fault (.freed h v.kind)

/-- a hold on the pair a value names -/
def asCons (v : Value) : Act (Option Held) := do
  match v with
  | .cons h =>
    match ← resolve v with
    | some ⟨.cons _ _, _, serial, _⟩ => return some ⟨h, serial⟩
    | _ => return none
  | _ => return none

def asSymbol (v : Value) : Act (Option Handle) := do
  match v with
  | .symbol h =>
    match ← resolve v with
    | some ⟨.symbol _, _, _, _⟩ => return some h
    | _ => return none
  | _ => return none

def asScope (v : Value) : Act (Option Handle) := do
  match v with
  | .scope h =>
    match ← resolve v with
    | some ⟨.scope _, _, _, _⟩ => return some h
    | _ => return none
  | _ => return none

def asFunction (v : Value) : Act (Option Function) := do
  match v with
  | .function _ =>
    match ← resolve v with
    | some ⟨.function f, _, _, _⟩ => return some f
    | _ => return none
  | _ => return none

/-- the handle and the contents of the box a value names -/
def asBox (v : Value) : Act (Option (Handle × Value)) := do
  match v with
  | .box h =>
    match ← resolve v with
    | some ⟨.box x, _, _, _⟩ => return some (h, x)
    | _ => return none
  | _ => return none

/-- a hold on the error a value names, whatever its mood -/
def asErrorObject (v : Value) : Act (Option HeldError) := do
  match v with
  | .error h _ =>
    match ← resolve v with
    | some ⟨.error e, _, serial, _⟩ => return some ⟨⟨h, serial⟩, e.kind⟩
    | _ => return none
  | _ => return none

/-- the fields of a held pair -/
def fieldsOf (c : Held) : Act (Value × Value) := do
  let m ← get
  if !m.holds c then note .missed
  return m.fields c

def carOf (c : Held) : Act Value := do return (← fieldsOf c).1

def cdrOf (c : Held) : Act Value := do return (← fieldsOf c).2

/-- keep a value for later -/
def keep (v : Value) : Act Saved := do return ⟨v, (← get).serial? v⟩

/-- keep values for later -/
def keepAll : List Value → Act (List Saved)
  | [] => pure []
  | v :: vs => do
    let k ← keep v
    return k :: (← keepAll vs)

/-- a value that was kept -/
def retrieve (k : Saved) : Act Value := do
  if (← get).serial? k.value ≠ k.serial then note .missed
  return k.value

/-! ## References -/

/-- the value in a place -/
def look (p : Place) : Act Value := do
  let m ← get
  if m.dangles p then note .missed
  return m.load p

/-- the value one dereference away -/
def deref (v : Value) : Act Value := do
  match v with
  | .ref p => look p
  | _ => fault .notReference

/-- read through a reference and pin what is found -/
def derefPinned (th : ThreadId) (v : Value) : Act Value := do
  let x ← deref v
  pin th x
  return x

/-- follow references to the first value that is none -/
def derefAllWithin : Nat → Value → Act Value
  | 0, _ => fault .endless
  | n + 1, v => do
    match v with
    | .ref p => derefAllWithin n (← look p)
    | v => return v

def derefAll (v : Value) : Act Value := do derefAllWithin (← get).extent v

/-- mark a value that is about to be overwritten, while a pass is under way -/
def shade (old : Value) : Act Unit :=
  modify fun m =>
    if m.collector.marking then
      { m with heap := m.heap.mark m.collector.epoch old.target?.toList }
    else m

/-- replace the contents of an object that holds `old` in the field being written -/
def overwrite (h : Handle) (old : Value) (cell : Cell) : Act Unit := do
  modify fun m => { m with heap := m.heap.write h cell }
  shade old

/-- the error of a store into a place that is gone -/
def missing (p : Place) : Act Unit := do
  if (← get).dangles p then note .missed
  raise (.danglingReference (Word.placePayload p))

/-- write through a reference -/
def store (p : Place) (v : Value) : Act Unit := do
  let m ← get
  match p with
  | .stack id i =>
    match (m.stackOwners[id]?).join with
    | none => raise (.closedStack id)
    | some th =>
      match (m.thread th).stack.set i v with
      | .ok _ => modify fun m => m.onThread th fun t =>
          { t with stack := { t.stack with items := t.stack.items.setIfInBounds i v } }
      | .error (.outside i n) => fault (.slotOutside i n)
      | .error _ => raise (.poppedSlot i id)
  | .box h => match m.cell? h with
    | some (.box old) => overwrite h old (.box v)
    | _ => missing p
  | .car h => match m.heap.slot? h with
    | some ⟨.cons old d, _, _, text⟩ =>
      note (.assigned text)
      overwrite h old (.cons v d)
    | _ => missing p
  | .cdr h => match m.heap.slot? h with
    | some ⟨.cons a old, _, _, text⟩ =>
      note (.assigned text)
      overwrite h old (.cons a v)
    | _ => missing p

/-- write through a value that has to be a reference -/
def storeThrough (r v : Value) : Act Unit :=
  match r with
  | .ref p => store p v
  | _ => fault .notReference

/-! ## Numbers -/

/-- the number a value is, looking through one reference -/
def numberOf (v : Value) : Act (Option Number) := do
  match v with
  | .ref p => return (← look p).number?
  | v => return v.number?

end Act

end LispMachine
