/-
The language with a cell for every variable.

A reference semantics in which nothing lives on a stack: every parameter, every binding of a `let` and the binding of a caught
error is a fresh box from the moment it is made, and a function that captures the scopes around it shares these boxes. There is
no promotion, no limit on nesting, no guard that contains a full heap, and no pass is taken. All that has nothing to do with
how variables are kept is the evaluator's own: reading, printing, errors, and the primitives other than the four that make
bindings or capture them.
-/
import LispMachine.Machine.Settings
import LispMachine.Repl.Loop

namespace LispMachine.Boxed

open Act
open Source (Cursor)

/-! ## Variables -/

/-- references to fresh boxes that hold the given values -/
def newVariables : List Value → Act (List Value)
  | [] => pure []
  | v :: vs => do
    let b ← allocate (.box v)
    return .ref (.box b) :: (← newVariables vs)

/-- a scope with a fresh variable for each value; of two variables of one symbol the later counts -/
def newScope (parent : Outer) (syms : List Handle) (vals : List Value) : Act Handle := do
  if vals.length < syms.length then fault (.fewerValues vals.length)
  let refs ← newVariables vals
  let table := ((syms.zip refs).foldl (fun s (sym, r) => Scope.insert s sym r) {}).table
  allocate (.scope { parent := parent, table := table })

/-- run an action with symbols bound to fresh variables in a scope over the current one -/
def withBindings {α : Type} (th : ThreadId) (syms : List Handle) (vals : List Value) (x : Act α) : Act α := do
  let scope ← newScope (.scope (← currentScope th)) syms vals
  inScope th scope x

/-! ## Arguments -/

/-- the first `n` values, unset where there are none -/
def padded (n : Nat) (vs : List Value) : List Value := vs.take n ++ List.replicate (n - vs.length) .unset

/-- the values of key parameters -/
def keyValues (given : List (Handle × Value)) : List Handle → Act (List Value)
  | [] => pure []
  | k :: ks => do
    let key ← keyOf k
    return (given.lookup key).getD .unset :: (← keyValues given ks)

/-- the error for a wrong number of arguments -/
def miscounted {α : Type} (th : ThreadId) (p : Params) (n : Nat) : Act α := raiseError th .argCount p.source (int32 n)

/-- the list of the arguments that are left, if there is a parameter for it -/
def restValues (th : ThreadId) (text : Bool) (p : Params) (others : List Value) : Act (List Value) :=
  if p.rest.isSome then do return [← newListOf th text others] else pure []

/-- the values of the key parameters; without any nothing may be left unless there is a list for it -/
def lastValues (th : ThreadId) (p : Params) (n : Nat) (others : List Value) : Act (List Value) :=
  if p.keys.isEmpty then
    if p.rest.isNone && !others.isEmpty then miscounted th p n else pure []
  else do keyValues (← keyedArgs th others []) p.keys

/-- the values of the parameters of a call, in their order; `text` when the arguments are forms -/
def argValues (th : ThreadId) (text : Bool) (p : Params) (args : List Value) : Act (List Value) := do
  if args.length < p.required.length then miscounted th p args.length
  let more := args.drop p.required.length
  let others := more.drop p.optional.length
  let rest ← restValues th text p others
  let last ← lastValues th p args.length others
  return args.take p.required.length ++ padded p.optional.length more ++ rest ++ last

/-! ## Primitives that make bindings or capture them -/

def letIn (ev : Evaluator) (th : ThreadId) (args : List Value) : Act Value := do
  let (syms, vals) ← letBindings ev th (← formsArg th (arg args 0)) [] []
  withBindings th syms vals (evalBody ev th (arg args 1))

/-- a function that shares the variables of the scope it captures -/
def newFunction (th : ThreadId) (name : Option Handle) (params body : Value) (scope : Handle) : Act Value := do
  let p ← parseParams params
  let _ ← listLength body
  allocatePinned th (.function ⟨name, p, .forms body (.scope scope)⟩) .function

def lambda (th : ThreadId) (args : List Value) : Act Value := do
  let scope ← currentScope th
  withErrorObjects th (newFunction th none (arg args 0) (arg args 1) scope)

def defun (th : ThreadId) (args : List Value) : Act Value := do
  let name ← symbolArg th (arg args 0)
  let scope ← currentScope th
  withErrorObjects th do
    let f ← newFunction th (some name) (arg args 1) (arg args 2) scope
    bind (← globalScope th) name f
    return f

/-- evaluate a form; its error, unless it is fatal, is bound to a fresh variable while the forms of `body` run -/
def catching (ev : Evaluator) (th : ThreadId) (name : Handle) (form body : Value) : Act Value := do
  match ← attempt (ev.eval form .value) with
  | .ok v => return v
  | .error c =>
    let e ← asError th c
    if e.kind.isFatal then raise (.object e)
    else
      let caught := e.value .quiet
      withBindings th [name] [caught] (if body = .nil then pure caught else evalBody ev th body)

def catchError (ev : Evaluator) (th : ThreadId) (args : List Value) : Act Value := do
  let name ← symbolArg th (arg args 1)
  catching ev th name (arg args 0) (arg args 2)

def runPrimitive (ev : Evaluator) (th : ThreadId) (args : List Value) : Primitive → Act Value
  | .letIn => letIn ev th args
  | .lambda => lambda th args
  | .defun => defun th args
  | .catchError => catchError ev th args
  | p => Act.runPrimitive ev th args p

/-! ## Evaluation -/

/-- run the body of a function on the values of its parameters -/
def runBody (ev : Evaluator) (th : ThreadId) (f : Function) (vals : List Value) : Act Value := do
  match f.body with
  | .primitive p _ => unlessSignaling (← withErrorObjects th (runPrimitive ev th vals p))
  | .forms list outer =>
    let scope ← newScope outer f.params.symbols vals
    inScope th scope (evalBody ev th list)

def call (ev : Evaluator) (th : ThreadId) (f : Function) (args : List Value) : Act Value := do
  runBody ev th f (← withErrorObjects th (argValues th f.isSpecial f.params args))

/-- evaluate a call form -/
def apply (ev : Evaluator) (th : ThreadId) (c : Held) (mode : Mode) : Act Value := do
  let head ← ev.eval (← carOf c) .value
  match ← asFunction head with
  | none => raiseType th "function" head
  | some f =>
    let forms ← withErrorObjects th (do listItems (← cdrOf c))
    let args ← if f.isSpecial then pure forms else evalArgs ev (← keepAll forms) []
    let result ← call ev th f args
    match mode with
    | .place => if result.isReference then return result else raiseError th .notAReference result .nil
    | .value => plainValue th result

/-- evaluate a form with an evaluator for the forms inside it -/
def dispatch (ev : Evaluator) (th : ThreadId) (v : Value) (mode : Mode) : Act Value := do
  match v with
  | .cons _ =>
    match ← asCons v with
    | none => fault .mistyped
    | some c => apply ev th c mode
  | v => Act.dispatch ev th v mode

/-- evaluate a form; the fuel bounds nesting and the length of bodies -/
def eval (th : ThreadId) : Nat → Value → Mode → Act Value
  | 0, _, _ => throw .outOfFuel
  | n + 1, v, mode => dispatch ⟨eval th n, n⟩ th v mode

/-! ## Whole forms and source texts -/

/-- evaluate a form; an error comes as a signaling value -/
def evalSignaling (fuel : Nat) (th : ThreadId) (form : Value) : Act Value := do
  match ← attempt (eval th fuel form .value) with
  | .ok v => return v
  | .error c => return (← asError th c).value .signaling

/-- evaluate a form on its own -/
def evalTopLevel (fuel : Nat) (th : ThreadId) (form : Value) : Act Value := do
  unlessSignaling (← withErrorObjects th (evalSignaling fuel th form))

def evalPrint (fuel : Nat) (th : ThreadId) (form : Value) : Act Unit := do
  report (← attempt (evalTopLevel fuel th form))

/-- read, evaluate and print every form of a text -/
def replLoop (fuel : Nat) (th : ThreadId) (showPrompt : Bool) (c : Cursor) : Act Unit := do
  if showPrompt then write .out Repl.prompt
  let reading := c.read
  if _h : reading.isFinished then return
  else
    onReading th (evalPrint fuel th) reading
    replLoop fuel th showPrompt reading.after
termination_by c.rest.length
decreasing_by exact Cursor.read_length (by simpa using _h)

def replRun (fuel : Nat) (showPrompt : Bool) (c : Cursor) : Act Unit := do
  install
  let th ← openDefaultThread
  andThen (replLoop fuel th showPrompt c) (closeThread th)

/-- a new machine with room for any number of objects -/
def initial : Machine := { Machine.initial with heap := { Machine.initial.heap with limit := none } }

/-- a source text read, evaluated and printed under given settings -/
def session (r : Request) (fuel : Nat) (showPrompt : Bool) (c : Cursor) : Outcome Unit :=
  (do configure r; replRun fuel showPrompt c : Act Unit).run initial

end LispMachine.Boxed
