/-
Installing the primitives in the default global scope. It is done once, on a thread of its own.
-/
import LispMachine.Eval.Evaluate
import LispMachine.Machine.Read

namespace LispMachine.Act

/-- bind one primitive to its name -/
def define (th : ThreadId) (b : Builtin) : Act Unit := do
  let _ ← guarded th do
    let params ← readString th b.params
    let sym ← intern b.name
    let f ← newPrimitive th (some sym) params b.special b.primitive
    bind (← defaultGlobal) sym f
    return .nil

def installAll : Act Unit := do
  let th ← openDefaultThread
  andThen (builtins.forM (define th)) (closeThread th)

/-- install the primitives, unless that has been tried before; its outcome stays -/
def install : Act Unit := do
  match (← get).installed with
  | some (.ok _) => return
  | some (.error c) => raise c
  | none =>
    modify fun m => { m with installed := some (.ok ()) }
    match ← attempt installAll with
    | .ok _ => return
    | .error c =>
      modify fun m => { m with installed := some (.error c) }
      raise c

end LispMachine.Act
