/-
What an atom means.

`t` and `nil` are themselves. What any other atom means depends on its shape first. An optional sign and digits are an integer,
or a double when the integer does not fit in 32 bits. Digits on at least one side of a point, or digits before an exponent, are a
double. Everything else names a symbol. The value of a number is then read by a reader of numerals that knows more spellings.
-/
import LispMachine.Decimal.Spelling
import LispMachine.Number
import LispMachine.Text.Integer

namespace LispMachine.Source

inductive Atom where
  | t
  | nil
  | number (n : Number)
  | symbol (name : String)
deriving DecidableEq

/-- what a text looks like -/
inductive Shape where
  | symbol
  | integer
  | float
deriving DecidableEq, Repr

namespace Shape

open Decimal (sign digits)

/-- whether a text is an exponent after its mark: a sign and digits -/
def isExponent (cs : List Char) : Bool :=
  let (ds, rest) := digits (sign cs).2
  ds ≠ [] && rest = []

/-- the shape of a text with digits up to `rest`, after the sign -/
def ofParts (whole rest : List Char) : Shape :=
  match rest with
  | [] => if whole = [] then .symbol else .integer
  | c :: after =>
    if c = 'e' ∨ c = 'E' then
      if whole ≠ [] ∧ isExponent after then .float else .symbol
    else if c = '.' then
      let (fraction, tail) := digits after
      if whole = [] ∧ fraction = [] then .symbol
      else match tail with
        | [] => .float
        | c :: after => if (c = 'e' ∨ c = 'E') ∧ isExponent after then .float else .symbol
    else .symbol

def ofChars (cs : List Char) : Shape :=
  let (whole, rest) := digits (sign cs).2
  ofParts whole rest

end Shape

namespace Atom

/-- The double a text spells; a text too large for one is infinite. A text that spells none would be zero. -/
def floatOf (text : String) : Number := .float ((Decimal.parse? text).getD 0.0)

def ofText (text : String) : Atom :=
  if text = "t" then .t
  else if text = "nil" then .nil
  else match Shape.ofChars text.toList with
    | .integer =>
      match Text.Integer.parse text with
      | .ok n => .number (if Number.fits n then .int (Int32.ofInt n) else floatOf text)
      | .error _ => .number (floatOf text)
    | .float => .number (floatOf text)
    | .symbol => .symbol text

end Atom

end LispMachine.Source
