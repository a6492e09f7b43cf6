/-
Objects of the heap.

Six kinds of object: pairs, symbols, scopes (environments), functions, errors and boxes. Objects name each other by
handle. What works on an object for a while holds it: a hold has the serial number of the object beside its handle, so
that an object that was released meanwhile is missed, whatever uses its handle now. A scope maps symbols to references:
a persistent scope to boxes, a transient one, made for a call, to slots of the caller's stack. A function has a list of
forms evaluated in a fresh scope over the scope it was made in, or a primitive body. A scope or a function may outlive
the scope around it, which it then takes for an empty one.
-/
import LispMachine.Value

namespace LispMachine

/-! ## Holds -/

/-- a hold on an object; no two objects have one serial number -/
structure Held where
  handle : Handle
  serial : Nat
deriving DecidableEq, Repr

/-! ## Errors -/

/-- what an error object is about; `other` keeps codes that mean nothing -/
inductive ErrorKind where
  | stackOverflow
  | stackUnderflow
  | argCount
  | type
  | improperList
  | notAReference
  | unboundSymbol
  | unaccompaniedKey
  | argIndex
  | user
  | heapExhausted
  | other (code : UInt8)
deriving DecidableEq, Repr

namespace ErrorKind

/-- the kinds with a meaning, in the order of their codes -/
def all : List ErrorKind :=
  [.stackOverflow, .stackUnderflow, .argCount, .type, .improperList, .notAReference, .unboundSymbol,
    .unaccompaniedKey, .argIndex, .user, .heapExhausted]

def ofCode (n : Nat) : ErrorKind := (all[n]?).getD (.other (UInt8.ofNat n))

def name : ErrorKind → String
  | .stackOverflow => "stack-overflow-error"
  | .stackUnderflow => "stack-underflow-error"
  | .argCount => "arg-count-error"
  | .type => "type-error"
  | .improperList => "improper-list-error"
  | .notAReference => "not-a-reference-error"
  | .unboundSymbol => "unbound-symbol-error"
  | .unaccompaniedKey => "unaccompanied-key-error"
  | .argIndex => "arg-out-of-bounds-error"
  | .user => "user-error"
  | .heapExhausted => "heap-exhausted-error"
  | .other code => s!"ErrorKind({code.toNat})"

/-- whether no handler may catch an error of this kind -/
def isFatal : ErrorKind → Bool
  | .stackOverflow | .heapExhausted => true
  | _ => false

end ErrorKind

/-- an error object: its kind, a name of its own if it has one, and two payloads -/
structure ErrorObject where
  kind : ErrorKind
  name : Option Handle := none
  first : Value := .nil
  second : Value := .nil
deriving DecidableEq

/-- a hold on an error object; the kind of the error is known for good -/
structure HeldError extends Held where
  kind : ErrorKind
deriving DecidableEq, Repr

/-- the error as a value -/
def HeldError.value (e : HeldError) (mood : Mood) : Value := .error e.handle mood

/-- why an operation did not succeed, before or without an error object being made of it -/
inductive Cause where
  /-- an error object -/
  | object (e : HeldError)
  /-- a signaling value that does not name an error object any more -/
  | lostError
  | stackOverflow (size capacity : Int)
  | stackUnderflow
  | argIndex (attempted length : Int)
  | wrongType (wanted : String)
  | improperList (list : Value)
  /-- a new binding in a scope that is backed by a stack -/
  | transientBind
  | threadClosed
  | closedStack (id : Nat)
  | poppedSlot (index id : Nat)
  | danglingReference (payload : Nat)
  /-- the top of the stack, shown as text, does not end a frame -/
  | notMarker (id : Nat) (shown : String)
  /-- a section marker out of order in a parameter list -/
  | misplaced (marker list : String)
  | crowdedRest (list : String)
  | stackTooLarge (capacity : Nat)
  | tooManyStacks
  | unknownAllocator (quoted : String)
  /-- a text that cannot be read, with the place where that was found -/
  | misread (line column offset : Nat) (text : String)
  | noForm (quoted : String)
  | trailingText (quoted : String)
  | writeRefused
  | plain (text : String)
deriving DecidableEq

/-- the text of a cause that is not an error object -/
def Cause.text : Cause → String
  | .object e => s!"error object {e.handle}"
  | .lostError => "no error object"
  | .stackOverflow size capacity => s!"Stack overflow after {size} elements with capacity {capacity}"
  | .stackUnderflow => "Attempt to pop off an empty stack."
  | .argIndex attempted length => s!"Attempted to reference argument {attempted} but only found {length}."
  | .wrongType wanted => s!"Expected a value of type {wanted}."
  | .improperList _ => "Found an improperly-terminated list where a proper one was expected"
  | .transientBind => "vm: cannot add a binding to a stack-backed environment"
  | .threadClosed => "vm: thread closed"
  | .closedStack id => s!"vm: reference into closed stack {id}"
  | .poppedSlot index id => s!"vm: write to popped stack slot {index} of stack {id}"
  | .danglingReference payload => "vm: dangling reference 0x" ++ String.ofList (Nat.toDigits 16 payload)
  | .notMarker id shown => s!"vm: top of stack {id} is {shown}, not a frame marker"
  | .misplaced marker list => s!"vm: misplaced {marker} in {list}"
  | .crowdedRest list => s!"vm: &rest takes one parameter in {list}"
  | .stackTooLarge capacity => s!"vm: stack capacity {capacity} too large"
  | .tooManyStacks => "vm: too many live stacks"
  | .unknownAllocator quoted => s!"vm: unknown allocator mode {quoted}"
  | .misread line column _ text => s!"{line}:{column}: {text}"
  | .noForm quoted => s!"reader: no form in {quoted}"
  | .trailingText quoted => s!"reader: trailing input after the first form in {quoted}"
  | .writeRefused => "write refused"
  | .plain text => text

/-! ## Functions -/

/-- what lies around a scope, or around a function's body -/
inductive Outer where
  | none
  | scope (h : Handle)
  /-- a scope that has been released: nothing is bound in it and nothing lies around it -/
  | released
deriving DecidableEq

namespace Outer

def ofOption : Option Handle → Outer
  | some h => .scope h
  | .none => .none

/-- the scope, if there is one that has not been released -/
def handle? : Outer → Option Handle
  | .scope h => some h
  | .none | .released => .none

end Outer

/-- a body that an embedding program gives to a function of its own -/
inductive HostAction where
  /-- the list of the arguments -/
  | gather
  | first
  /-- a reference to the first slot of the first argument -/
  | firstSlot
  /-- a user error as the result, in the given mood -/
  | report (name body : String) (mood : Mood)
  | fail (cause : Cause)
  /-- evaluate the first argument -/
  | evalFirst
deriving DecidableEq

/-- the primitive bodies -/
inductive Primitive where
  -- special forms
  | quote
  | cond
  | ifElse
  | whenTrue
  | unlessTrue
  | letIn
  | lambda
  | defun
  | defvar
  | boundp
  | setf
  -- pairs and the machine
  | cons
  | list
  | car
  | cdr
  | debug
  | gensym
  | gc
  -- errors
  | signal
  | makeError
  | typeError
  | improperListError
  | notAReferenceError
  | catchError
  -- numbers
  | numEqual
  | numLess
  | numGreater
  | add
  | multiply
  | subtract
  | divide
  -- scopes
  | makeScope
  | nref
  | withScope
  | host (action : HostAction)
deriving DecidableEq

/-- a parameter list, taken apart: the symbols of its sections and the list it was read from -/
structure Params where
  required : List Handle := []
  optional : List Handle := []
  rest : Option Handle := none
  keys : List Handle := []
  source : Value := .nil
deriving DecidableEq

/-- the parameters in the order of their slots in a frame -/
def Params.symbols (p : Params) : List Handle :=
  p.required ++ p.optional ++ p.rest.toList ++ p.keys

/-- the number of slots a call takes -/
def Params.size (p : Params) : Nat := p.symbols.length

inductive Body where
  /-- forms to evaluate in a fresh scope over `scope` -/
  | forms (list : Value) (scope : Outer)
  /-- a primitive; a special one gets its arguments unevaluated -/
  | primitive (p : Primitive) (special : Bool)
deriving DecidableEq

structure Function where
  name : Option Handle
  params : Params
  body : Body
deriving DecidableEq

def Function.isSpecial (f : Function) : Bool :=
  match f.body with
  | .primitive _ special => special
  | .forms _ _ => false

/-! ## Scopes -/

structure Scope where
  name : Option Handle := none
  parent : Outer := .none
  /-- references by symbol, the newest binding first -/
  table : List (Handle × Value) := []
  transient : Bool := false
deriving DecidableEq

/-- the reference bound to a symbol in the scope itself -/
def Scope.own? (s : Scope) (sym : Handle) : Option Value := s.table.lookup sym

/-- the table with `sym` bound to `ref` -/
def Scope.insert (s : Scope) (sym : Handle) (ref : Value) : Scope :=
  if (s.own? sym).isSome then
    { s with table := s.table.map fun e => if e.1 = sym then (sym, ref) else e }
  else { s with table := (sym, ref) :: s.table }

/-! ## Cells -/

inductive Cell where
  | cons (car cdr : Value)
  | symbol (name : String)
  | scope (s : Scope)
  | function (f : Function)
  | error (e : ErrorObject)
  | box (v : Value)
deriving DecidableEq

namespace Cell

def isCons : Cell → Bool
  | .cons _ _ => true
  | _ => false

/-- what lies around the object, if it is a scope or a function -/
def outer : Cell → Outer
  | .scope s => s.parent
  | .function ⟨_, _, .forms _ outer⟩ => outer
  | _ => .none

/-- the object with the scope around it released -/
def releaseOuter : Cell → Cell
  | .scope s => .scope { s with parent := .released }
  | .function ⟨name, params, .forms list _⟩ => .function ⟨name, params, .forms list .released⟩
  | c => c

end Cell

end LispMachine
