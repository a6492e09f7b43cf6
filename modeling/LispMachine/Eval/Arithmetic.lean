/-
Arithmetic on lists of numbers. Every argument is checked before anything is computed.
-/
import LispMachine.Eval.Core

namespace LispMachine.Act

/-- the numbers in a list of values -/
def numbersOf (th : ThreadId) : List Value → List Number → Act (List Number)
  | [], ns => pure ns.reverse
  | v :: vs, ns => do numbersOf th vs ((← numberArg th v) :: ns)

def numbers (th : ThreadId) (list : Value) : Act (List Number) := do
  numbersOf th (← listArg th list) []

/-- whether a relation holds between all neighbours -/
def chain (ok : Number → Number → Bool) : List Number → Bool
  | a :: b :: rest => ok a b && chain ok (b :: rest)
  | _ => true

def compareAll (th : ThreadId) (ok : Number → Number → Bool) (args : List Value) : Act Value := do
  return .ofBool (chain ok (← numbers th (arg args 0)))

/-- combine all numbers from left to right, starting from `unit` -/
def combineAll (th : ThreadId) (op : Number → Number → Number) (unit : Number) (args : List Value) :
    Act Value := do
  return .ofNumber ((← numbers th (arg args 0)).foldl op unit)

/-- combine the first number with the others from left to right; a lone number is inverted -/
def combineFirst (th : ThreadId) (op : Number → Number → Number) (invert : Number → Number)
    (args : List Value) : Act Value := do
  let first ← numberArg th (arg args 0)
  match ← numbers th (arg args 1) with
  | [] => return .ofNumber (invert first)
  | others => return .ofNumber (others.foldl op first)

end LispMachine.Act
