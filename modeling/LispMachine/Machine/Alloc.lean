/-
Allocation.

A new object is stamped with the current epoch, so that a pass under way counts it as seen, and is usually pinned to the
thread that asked for it. When every handle is in use the allocation faults and changes nothing. Symbols are interned:
one object per name, for good.
-/
import LispMachine.Machine.State

namespace LispMachine.Act

/-! ## Pins -/

/-- keep a value alive for a thread -/
def pin (th : ThreadId) (v : Value) : Act Unit :=
  if v.needsPin then modify fun m => m.onThread th fun t => { t with pins := t.pins.push v }
  else pure ()

def pinCount (th : ThreadId) : Act Nat := do return ((← get).thread th).pins.size

/-- drop the pins made since `mark` and pin `keep` instead -/
def unpinTo (th : ThreadId) (mark : Nat) (keep : List Value) : Act Unit :=
  modify fun m => m.onThread th fun t =>
    { t with pins := t.pins.shrink mark ++ (keep.filter Value.needsPin).toArray }

/-! ## Objects -/

/-- put an object on the heap; `text` for a pair that holds program text -/
def allocate (cell : Cell) (text : Bool := false) : Act Handle := do
  if (← get).heap.isFull then
    note .refused
    fault .exhausted
  modifyGet fun m => (m.heap.nextHandle, { m with heap := m.heap.insert cell m.collector.epoch text })

/-- put an object on the heap and pin it -/
def allocatePinned (th : ThreadId) (cell : Cell) (value : Handle → Value) (text : Bool := false) : Act Value := do
  let v := value (← allocate cell text)
  pin th v
  return v

def newPair (th : ThreadId) (text : Bool) (car cdr : Value) : Act Value :=
  allocatePinned th (.cons car cdr) .cons text

def newCons (th : ThreadId) (car cdr : Value) : Act Value := newPair th false car cdr

def newBox (th : ThreadId) (v : Value) : Act Value := allocatePinned th (.box v) .box

/-- pairs for items given from last to first, in front of `tail` -/
def consAll (th : ThreadId) (text : Bool) : List Value → Value → Act Value
  | [], tail => pure tail
  | v :: vs, tail => do consAll th text vs (← newPair th text v tail)

/-- a list of items, program text or not; its pairs are made from the last to the first -/
def newListOf (th : ThreadId) (text : Bool) (items : List Value) : Act Value := consAll th text items.reverse .nil

/-- a list of items that ends in `tail` -/
def newDottedList (th : ThreadId) (items : List Value) (tail : Value) : Act Value :=
  consAll th false items.reverse tail

def newList (th : ThreadId) (items : List Value) : Act Value := newListOf th false items

/-! ## Symbols -/

/-- the symbol with a name, made on first use -/
def intern (name : String) : Act Handle := do
  match (← get).symbols.lookup name with
  | some h => return h
  | none =>
    let h ← allocate (.symbol name)
    modify fun m => { m with symbols := (name, h) :: m.symbols }
    return h

/-- a symbol as a value -/
def symbol (name : String) : Act Value := do return .symbol (← intern name)

/-- the next of the symbols `GENSYM-0`, `GENSYM-1`, … -/
def gensym : Act Handle := do
  let n := (← get).gensyms
  modify fun m => { m with gensyms := n + 1 }
  intern s!"GENSYM-{n}"

end LispMachine.Act
