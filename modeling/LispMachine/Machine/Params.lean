/-
Parameter lists and the frames they make.

A parameter list has up to four sections: required parameters, `&optional` ones, one `&rest` parameter and `&key` ones,
in this order. A call lays one slot per parameter on the stack in that order: the required arguments, the optional ones
or unset, the list of the remaining arguments, and for each key `k` the argument after the last `:k` among them, or
unset.
-/
import LispMachine.Machine.Lists
import LispMachine.Machine.Scopes

namespace LispMachine

/-! ## Reading a parameter list -/

/-- the sections of a parameter list, in order -/
inductive Section where
  | required
  | optional
  | rest
  | keys
deriving DecidableEq, Repr

def Section.rank : Section → Nat
  | .required => 0
  | .optional => 1
  | .rest => 2
  | .keys => 3

/-- the section a marker opens -/
def Section.ofMarker? (name : String) : Option Section :=
  if name = "&optional" then some .optional
  else if name = "&rest" then some .rest
  else if name = "&key" then some .keys
  else none

/-- what is wrong with a parameter list, apart from items that are no symbols -/
inductive ParamsError where
  | misplaced (marker : String)
  | crowdedRest
deriving DecidableEq, Repr

namespace Params

/-- add a symbol to a section; the rest section has room for one -/
def add (p : Params) (s : Section) (sym : Handle) : Except ParamsError Params :=
  match s with
  | .required => .ok { p with required := p.required ++ [sym] }
  | .optional => .ok { p with optional := p.optional ++ [sym] }
  | .rest => if p.rest.isSome then .error .crowdedRest else .ok { p with rest := some sym }
  | .keys => .ok { p with keys := p.keys ++ [sym] }

/-- take the next symbol of a parameter list: a marker opens a later section, a name joins the open one -/
def step (p : Params) (s : Section) (sym : Handle) (name : String) : Except ParamsError (Params × Section) :=
  match Section.ofMarker? name with
  | some next => if s.rank < next.rank then .ok (p, next) else .error (.misplaced name)
  | none => match p.add s sym with
    | .ok p => .ok (p, s)
    | .error e => .error e

end Params

namespace Act

/-- take apart the items of a parameter list that are left; `list` is the whole list, for messages -/
def parseItems (list : Value) : List Value → Params → Section → Act Params
  | [], p, _ => pure p
  | item :: items, p, s => do
    match ← asSymbol item with
    | none => raise (.wrongType "symbol")
    | some sym =>
      match p.step s sym ((← get).symbolName sym) with
      | .ok (p, s) => parseItems list items p s
      | .error (.misplaced marker) => raise (.misplaced marker (← printIn "s" list))
      | .error .crowdedRest => raise (.crowdedRest (← printIn "s" list))

/-- take a parameter list apart -/
def parseParams (list : Value) : Act Params := do
  parseItems list (← listItems list) { source := list } .required

/-! ## Making a frame -/

def push_ (th : ThreadId) (v : Value) : Act Unit := do
  let _ ← push th v

/-- push the required arguments -/
def pushRequired (th : ThreadId) : List Handle → List Value → Act (List Value)
  | _ :: ps, v :: vs => do
    push_ th v
    pushRequired th ps vs
  | _, vs => pure vs

/-- push the optional arguments, unset where there are none -/
def pushOptional (th : ThreadId) : List Handle → List Value → Act (List Value)
  | [], vs => pure vs
  | _ :: ps, [] => do
    push_ th .unset
    pushOptional th ps []
  | _ :: ps, v :: vs => do
    push_ th v
    pushOptional th ps vs

/-- the arguments by key, the last first; every other argument has to be a symbol, and each needs a value -/
def keyedArgs (th : ThreadId) : List Value → List (Handle × Value) → Act (List (Handle × Value))
  | [], given => pure given
  | [k], _ => do
    match ← asSymbol k with
    | none => raiseType th "symbol" k
    | some key => raiseError th .unaccompaniedKey (.symbol key) .nil
  | k :: v :: rest, given => do
    match ← asSymbol k with
    | none => raiseType th "symbol" k
    | some key => keyedArgs th rest ((key, v) :: given)

/-- the symbol that names a key argument: the parameter's name with a colon in front -/
def keyOf (sym : Handle) : Act Handle := do
  let name := (← get).symbolName sym
  if name.startsWith ":" then return sym else intern (":" ++ name)

/-- push the value of each key parameter -/
def pushKeys (th : ThreadId) (given : List (Handle × Value)) : List Handle → Act Unit
  | [] => pure ()
  | k :: ks => do
    let key ← keyOf k
    push_ th ((given.lookup key).getD .unset)
    pushKeys th given ks

/-- lay the arguments of a call on the stack; `text` when they are forms -/
def pushArgs (th : ThreadId) (text : Bool) (p : Params) (args : List Value) : Act Unit := do
  let miscounted {α : Type} : Act α := raiseError th .argCount p.source (int32 args.length)
  if args.length < p.required.length then miscounted
  let args ← pushRequired th p.required args
  let args ← pushOptional th p.optional args
  if p.rest.isSome then push_ th (← newListOf th text args)
  if p.keys.isEmpty then
    if p.rest.isNone && !args.isEmpty then miscounted
  else
    pushKeys th (← keyedArgs th args []) p.keys

end Act

end LispMachine
