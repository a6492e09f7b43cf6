/-
The evaluator.

Numbers, immediates, functions, scopes, quiet errors and keywords evaluate to themselves; a symbol to its binding; a pair
is a call: its first part has to evaluate to a function, and the rest are the arguments, evaluated from left to right
unless the function is special. The arguments of a call lie on the stack for its duration. A collection pass may be taken
after every call.

Evaluation nests at most eight times as deep as the stack has slots; deeper nesting is a stack overflow. Whatever way an
evaluation ends, it leaves stack, scopes and depth as they were, and pins nothing but its result or its error. The
outermost evaluation contains a full heap.
-/
import LispMachine.Eval.Primitives

namespace LispMachine

namespace Act

/-! ## Calls -/

/-- references to `n` stack slots from `base` on -/
def slotRefs (id base n : Nat) : List Value := (List.range n).map fun i => .ref (.stack id (base + i))

/-- the values of `n` stack slots from `base` on -/
def frameValues (th : ThreadId) (base n : Nat) : Act (List Value) := do
  let s ← stackOf th
  return (List.range n).map fun i => s.get (base + i)

/-- signal an error that is unwinding; any other value stays as it is -/
def unlessSignaling (v : Value) : Act Value := do
  if v.isSignaling then
    match ← asErrorObject v with
    | some e => raise (.object e)
    | none => raise .lostError
  else return v

/-- run the body of a function whose frame starts at `base` -/
def runBody (ev : Evaluator) (th : ThreadId) (f : Function) (base : Nat) : Act Value := do
  match f.body with
  | .primitive p _ =>
    let args ← frameValues th base f.params.size
    unlessSignaling (← withErrorObjects th (runPrimitive ev th args p))
  | .forms list scope =>
    let env ← newTransient th scope f.params.symbols (slotRefs (← stackId th) base f.params.size)
    inScope th env (evalBody ev th list)

/-- call a function on arguments that are already evaluated, unless it is special -/
def call (ev : Evaluator) (th : ThreadId) (f : Function) (args : List Value) : Act Value := do
  let base ← stackSize th
  match ← attempt (pushArgs th f.isSpecial f.params args) with
  | .error c =>
    dropAbove th base
    raise (.object (← asError th c))
  | .ok _ => andThen (runBody ev th f base) (dropSlots th f.params.size)

/-! ## Forms -/

/-- evaluate argument forms from left to right -/
def evalArgs (ev : Evaluator) : List Saved → List Value → Act (List Value)
  | [], vals => pure vals.reverse
  | form :: forms, vals => do evalArgs ev forms ((← ev.eval (← retrieve form) .value) :: vals)

/-- a value that evaluates to itself has no place -/
def selfEvaluating (th : ThreadId) (v : Value) (mode : Mode) : Act Value :=
  match mode with
  | .value => pure v
  | .place => raiseError th .notAReference v .nil

/-- follow references to a plain value and pin it -/
def plainValue (th : ThreadId) (v : Value) : Act Value := do
  if v.isReference then
    let x ← derefAll v
    pin th x
    return x
  else return v

/-- evaluate a call form -/
def apply (ev : Evaluator) (th : ThreadId) (c : Held) (mode : Mode) : Act Value := do
  let head ← ev.eval (← carOf c) .value
  match ← asFunction head with
  | none => raiseType th "function" head
  | some f =>
    let forms ← withErrorObjects th (do listItems (← cdrOf c))
    let args ← if f.isSpecial then pure forms else evalArgs ev (← keepAll forms) []
    -- the arguments may have had the scope of the function released
    let f := (← asFunction head).getD f
    let r ← attempt (call ev th f args)
    let _ ← maybeCollect
    match r with
    | .error c => raise c
    | .ok result =>
      match mode with
      | .place => if result.isReference then return result else raiseError th .notAReference result .nil
      | .value => plainValue th result

/-- evaluate a form, inside the bookkeeping of `evaluate` -/
def dispatch (ev : Evaluator) (th : ThreadId) (v : Value) (mode : Mode) : Act Value := do
  match v with
  | .error _ .signaling => unlessSignaling v
  | .ref _ =>
    match mode with
    | .place => return v
    | .value => plainValue th v
  | .box _ =>
    match ← asBox v with
    | none => fault .mistyped
    | some (h, x) =>
      match mode with
      | .place => return .ref (.box h)
      | .value =>
        pin th x
        ev.eval x .value
  | .symbol _ =>
    match ← asSymbol v with
    | none => fault .mistyped
    | some sym =>
      if ((← get).symbolName sym).startsWith ":" then selfEvaluating th v mode
      else
        let r ← lookup th sym
        match mode with
        | .place => return r
        | .value => plainValue th r
  | .cons _ =>
    match ← asCons v with
    | none => fault .mistyped
    | some c => apply ev th c mode
  | v => selfEvaluating th v mode

/-- evaluations may nest this many times per stack slot -/
def depthPerSlot : Nat := 8

/-- how deep a thread's evaluations nest, and how deep they may -/
def nesting (th : ThreadId) : Act (Nat × Nat) := do
  let t := (← get).thread th
  return (t.depth, t.stack.capacity * depthPerSlot)

def setDepth (th : ThreadId) (d : Nat) : Act Unit :=
  modify fun m => m.onThread th fun t => { t with depth := d }

/-- evaluate a form with an evaluator for the forms inside it -/
def evaluate (ev : Evaluator) (th : ThreadId) (v : Value) (mode : Mode) : Act Value := do
  let g ← openGuard th
  let (depth, limit) ← nesting th
  setDepth th (depth + 1)
  let r ← observe do
    if limit < depth + 1 then
      note .overflowed
      raiseError th .stackOverflow (int32 (depth + 1)) (int32 limit)
    else dispatch ev th v mode
  setDepth th depth
  conclude th g.pins (← if depth = 0 then contain th g.base r else pure r)

end Act

/-- evaluate a form of a thread; the fuel bounds nesting and the length of bodies -/
def eval (th : ThreadId) : Nat → Value → Mode → Act Value
  | 0, _, _ => throw .outOfFuel
  | n + 1, v, mode => Act.evaluate ⟨eval th n, n⟩ th v mode

/-- the evaluator with the given fuel -/
def evaluator (fuel : Nat) (th : ThreadId) : Evaluator := ⟨eval th fuel, fuel⟩

namespace Act

/-! ## Whole forms -/

/-- replace the current frame by the value of its first argument, or by the signaling error -/
def evalFromStack (fuel : Nat) (th : ThreadId) : Act Unit := do
  match ← attempt (argReference th 0) with
  | .error c =>
    let e ← asError th c
    onStack th (·.closeFrameWith (e.value .signaling))
  | .ok ref =>
    let form ← derefPinned th ref
    let v ← match ← attempt (eval th fuel form .value) with
      | .ok v => pure v
      | .error c => do pure ((← asError th c).value .signaling)
    onStack th (·.closeFrameWith v)

/-- print the first argument of the current frame and close the frame -/
def printFromStack (th : ThreadId) : Act String := do
  let text ← print (← deref (← argReference th 0))
  onStack th (·.closeFrame)
  return text

/-- evaluate a form on its own, through a frame, and give the collector a chance to run -/
def evalTopLevel (fuel : Nat) (th : ThreadId) (form : Value) : Act Value :=
  guarded th do
    withErrorObjects th (onStack th (·.makeFrame [form]))
    withErrorObjects th (evalFromStack fuel th)
    let r ← attempt (pop th)
    let _ ← maybeCollect
    match r with
    | .error c => raise (.object (← asError th c))
    | .ok v => unlessSignaling v

end Act

end LispMachine
