/-
Pairs, lists, and the primitives that ask something of the machine.
-/
import LispMachine.Eval.Core

namespace LispMachine.Act

/-- a reference to a field of a pair, so that it can be assigned to; nil for nil -/
def fieldOf (th : ThreadId) (field : Handle → Place) (v : Value) : Act Value := do
  if v = .nil then return .nil
  else match ← asCons v with
    | some c => return .ref (field c.handle)
    | none => raiseType th "list" v

/-- print the word of a value beside its text, and return the value -/
def debug (v : Value) : Act Value := do
  write .debug ((← debugText v) ++ "\n")
  return v

/-- take a pass and return the number of survivors -/
def gc : Act Value := do
  let pass ← collect .explicit
  return int32 pass.survivors

end LispMachine.Act
