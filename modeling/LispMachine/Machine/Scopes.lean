/-
Scopes: binding, look-up and promotion.

A look-up goes from a scope to its parents and returns a reference to the first binding it finds. A persistent scope
keeps each binding in a box; a transient scope refers to the slots of a call's frame and takes no new bindings. Promotion
makes a scope and its ancestors persistent: every stack-backed binding moves into a fresh box, so whatever captures the
scope shares its bindings and outlives the frame.
-/
import LispMachine.Machine.Threads

namespace LispMachine

namespace Machine

/-- the scope with a handle -/
def scope (m : Machine) (h : Handle) : Scope :=
  match m.cell? h with
  | some (.scope s) => s
  | _ => {}

/-- look a symbol up from a scope outwards, through at most `n` scopes -/
def lookupWithin (m : Machine) (sym : Handle) : Nat → Handle → Option Value
  | 0, _ => none
  | n + 1, h =>
    let s := m.scope h
    match s.own? sym with
    | some r => some r
    | none =>
      match s.parent.handle? with
      | some p => lookupWithin m sym n p
      | none => none

/-- the reference a symbol has as seen from a scope -/
def lookup? (m : Machine) (h sym : Handle) : Option Value := m.lookupWithin sym (m.heap.births + 1) h

end Machine

namespace Act

def onScope (h : Handle) (f : Scope → Scope) : Act Unit :=
  modify fun m =>
    match m.cell? h with
    | some (.scope s) => { m with heap := m.heap.write h (.scope (f s)) }
    | _ => m

/-! ## Making scopes -/

def newScope (th : ThreadId) (name parent : Option Handle) : Act Handle := do
  let h ← allocate (.scope { name := name, parent := .ofOption parent })
  pin th (.scope h)
  return h

/-- a scope over the given references; of two bindings of one symbol the later counts -/
def newTransient (th : ThreadId) (parent : Outer) (syms : List Handle) (refs : List Value) : Act Handle := do
  if refs.length < syms.length then fault (.fewerValues refs.length)
  let table := ((syms.zip refs).foldl (fun s (sym, r) => Scope.insert s sym r) {}).table
  let h ← allocate (.scope { parent := parent, table := table, transient := true })
  pin th (.scope h)
  return h

/-! ## Binding -/

/-- the binding of a symbol in the scope itself, made with the value `v` if there is none; `overwrite` sets an old one.
The box for a new binding is made first, so it is there even when the scope refuses the binding. -/
def bindIn (scope sym : Handle) (v : Value) (overwrite : Bool) : Act Value := do
  match ((← get).scope scope).own? sym with
  | some r =>
    if overwrite then storeThrough r v
    return r
  | none =>
    let box ← allocate (.box v)
    if ((← get).scope scope).transient then raise .transientBind
    let r := .ref (.box box)
    onScope scope (·.insert sym r)
    return r

/-- bind a symbol in a scope, or set its binding there -/
def bind (scope sym : Handle) (v : Value) : Act Unit := do
  let _ ← bindIn scope sym v true

/-- the binding of a symbol in the scope itself, made unset if there is none -/
def bindingIn (scope sym : Handle) : Act Value := bindIn scope sym .unset false

/-- the binding a look-up finds, or a new one in the scope itself -/
def bindingFrom (scope sym : Handle) : Act Value := do
  match (← get).lookup? scope sym with
  | some r => return r
  | none => bindingIn scope sym

/-- the reference of a symbol as seen from the innermost scope -/
def lookup (th : ThreadId) (sym : Handle) : Act Value := do
  let h ← currentScope th
  match (← get).lookup? h sym with
  | some r => return r
  | none => raiseError th .unboundSymbol (.symbol sym) .nil

/-! ## Promotion -/

/-- move the stack-backed ones of the given bindings into boxes -/
def promoteBindings (scope : Handle) : List (Handle × Value) → Act Unit
  | [] => pure ()
  | (sym, r) :: rest => do
    match r with
    | .ref (.stack id i) =>
      let box ← allocate (.box ((← get).load (.stack id i)))
      onScope scope (·.insert sym (.ref (.box box)))
    | .ref _ => pure ()
    | _ => fault .notReference
    promoteBindings scope rest

/-- make a scope and its ancestors persistent, the outermost first; the fuel bounds how many there are -/
def promoteWithin : Nat → Handle → Act Unit
  | 0, _ => fault .endless
  | n + 1, h => do
    match ((← get).scope h).parent.handle? with
    | some p => promoteWithin n p
    | none => pure ()
    let s := (← get).scope h
    if s.transient then
      promoteBindings h s.table
      onScope h ({ · with transient := false })

/-- make a scope and its ancestors persistent -/
def promote (h : Handle) : Act Unit := do promoteWithin ((← get).heap.births + 1) h

/-- the scope that a function made now captures -/
def scopeForFunction (th : ThreadId) : Act Handle := do
  let h ← currentScope th
  promote h
  return h

/-! ## Temporary bindings -/

/-- push values; returns references to their slots, those in `refs` first -/
def pushAll (th : ThreadId) : List Value → List Value → Act (List Value)
  | [], refs => pure refs.reverse
  | v :: vs, refs => do pushAll th vs ((← push th v) :: refs)

/-- push values and go into a new scope over the current one that binds symbols to them; on failure no slot is left -/
def enterBindings (th : ThreadId) (syms : List Handle) (vals : List Value) : Act Handle := do
  let base ← stackSize th
  match ← attempt (pushAll th vals []) with
  | .error c =>
    let pushed := (← stackSize th) - base
    andThen (do raise (.object (← asError th c))) (dropSlots th pushed)
  | .ok refs =>
    onFailure (do
      let scope ← newTransient th (.scope (← currentScope th)) syms refs
      enterScope th scope
      return scope) (dropSlots th vals.length)

/-- come out of a scope of temporary bindings and remove their slots -/
def leaveBindings (th : ThreadId) (scope : Handle) (count : Nat) : Act Unit :=
  andThen (leaveScope th scope) (dropSlots th count)

/-- run an action with symbols bound to values in a scope over the current one -/
def withBindings {α : Type} (th : ThreadId) (syms : List Handle) (vals : List Value) (x : Act α) : Act α := do
  let scope ← enterBindings th syms vals
  andThen x (leaveBindings th scope vals.length)

end Act

end LispMachine
