/-
The primitives: what each does, and the names, parameter lists and modes under which they are installed.
-/
import LispMachine.Eval.Arithmetic
import LispMachine.Eval.Forms
import LispMachine.Eval.Handlers
import LispMachine.Eval.Namespaces
import LispMachine.Eval.Pairs

namespace LispMachine

namespace Act

def runHostAction (ev : Evaluator) (th : ThreadId) (args : List Value) : HostAction → Act Value
  | .gather => newList th args
  | .first => pure (arg args 0)
  | .firstSlot => do
    match ← asCons (arg args 0) with
    | some c => return .ref (.car c.handle)
    | none => raise (.wrongType "cons")
  | .report name body mood => do
    let name ← intern name
    let body ← symbol body
    return (← newUserError th name body).value mood
  | .fail cause => raise cause
  | .evalFirst => ev.eval (arg args 0) .value

/-- run a primitive on the values of its frame -/
def runPrimitive (ev : Evaluator) (th : ThreadId) (args : List Value) : Primitive → Act Value
  | .quote => pure (arg args 0)
  | .cond => cond ev th args
  | .ifElse => ifElse ev th args
  | .whenTrue => whenTrue ev th args
  | .unlessTrue => unlessTrue ev th args
  | .letIn => letIn ev th args
  | .lambda => lambda th args
  | .defun => defun th args
  | .defvar => defvar ev th args
  | .boundp => boundp th args
  | .setf => setf ev th args
  | .cons => newCons th (arg args 0) (arg args 1)
  | .list => pure (arg args 0)
  | .car => fieldOf th .car (arg args 0)
  | .cdr => fieldOf th .cdr (arg args 0)
  | .debug => debug (arg args 0)
  | .gensym => do return .symbol (← gensym)
  | .gc => gc
  | .signal => signal th args
  | .makeError => makeError th args
  | .typeError => typeError th args
  | .improperListError => plainError th .improperList
  | .notAReferenceError => plainError th .notAReference
  | .catchError => catchError ev th args
  | .numEqual => compareAll th Number.equal args
  | .numLess => compareAll th Number.less args
  | .numGreater => compareAll th (fun a b => b.less a) args
  | .add => combineAll th Number.add (.int 0) args
  | .multiply => combineAll th Number.mul (.int 1) args
  | .subtract => combineFirst th Number.sub Number.neg args
  | .divide => combineFirst th Number.div Number.recip args
  | .makeScope => makeScope ev th args
  | .nref => nref ev th args
  | .withScope => withScope ev th args
  | .host action => runHostAction ev th args action

end Act

/-- a primitive as it is installed -/
structure Builtin where
  name : String
  params : String
  special : Bool
  primitive : Primitive

/-- the primitives in the order of their installation -/
def builtins : List Builtin := [
  ⟨"quote", "(x)", true, .quote⟩,
  ⟨"cond", "(&rest clauses)", true, .cond⟩,
  ⟨"if", "(test then &rest elses)", true, .ifElse⟩,
  ⟨"when", "(test &rest body)", true, .whenTrue⟩,
  ⟨"unless", "(test &rest body)", true, .unlessTrue⟩,
  ⟨"let", "(bindings &rest body)", true, .letIn⟩,
  ⟨"lambda", "(arglist &rest body)", true, .lambda⟩,
  ⟨"defun", "(name arglist &rest body)", true, .defun⟩,
  ⟨"defvar", "(name &optional value)", true, .defvar⟩,
  ⟨"boundp", "(symbol)", true, .boundp⟩,
  ⟨"setf", "(place value)", true, .setf⟩,
  ⟨"cons", "(first second)", false, .cons⟩,
  ⟨"list", "(&rest elements)", false, .list⟩,
  ⟨"car", "(pair)", false, .car⟩,
  ⟨"cdr", "(pair)", false, .cdr⟩,
  ⟨"debug", "(obj)", false, .debug⟩,
  ⟨"gensym", "()", false, .gensym⟩,
  ⟨"gc", "()", false, .gc⟩,
  ⟨"throw", "(error)", false, .signal⟩,
  ⟨"error", "(name &optional body)", false, .makeError⟩,
  ⟨"type-error", "(wanted)", false, .typeError⟩,
  ⟨"improper-list-error", "()", false, .improperListError⟩,
  ⟨"not-a-reference-error", "()", false, .notAReferenceError⟩,
  ⟨"catch-error", "(try bind &rest catch)", true, .catchError⟩,
  ⟨"=", "(&rest nums)", false, .numEqual⟩,
  ⟨"<", "(&rest nums)", false, .numLess⟩,
  ⟨">", "(&rest nums)", false, .numGreater⟩,
  ⟨"+", "(&rest nums)", false, .add⟩,
  ⟨"*", "(&rest nums)", false, .multiply⟩,
  ⟨"-", "(number &rest others)", false, .subtract⟩,
  ⟨"/", "(number &rest others)", false, .divide⟩,
  ⟨"make-namespace", "(&key name contents parent)", true, .makeScope⟩,
  ⟨"nref", "(namespace symbol)", true, .nref⟩,
  ⟨"with-namespace", "(namespace &rest body)", true, .withScope⟩]

end LispMachine
