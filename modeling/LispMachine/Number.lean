/-
Numbers: 32-bit integers and doubles.

Arithmetic on two integers is exact: a result outside the 32-bit range becomes the nearest double, never a wrapped
integer. As soon as one operand is a double the other is widened. Quotients are formed in doubles and flattened: an
integral quotient that fits in 32 bits is an integer again.
-/
import LispMachine.Decimal.Shortest

namespace LispMachine

/-- an integer of 32 bits or a double -/
inductive Number where
  | int (n : Int32)
  | float (x : Float)
deriving DecidableEq

namespace Number

/-- whether an integer fits in 32 bits -/
def fits (v : Int) : Bool := -2147483648 ≤ v && v ≤ 2147483647

/-- the number for an exact integer: itself when it fits, else the nearest double -/
def ofInt (v : Int) : Number :=
  if fits v then .int (Int32.ofInt v) else .float (Float.ofInt v)

/-- the double of an integer that has one -/
def widen (v : Int) : Float :=
  let x := (UInt64.ofNat v.natAbs).toFloat
  if v < 0 then -x else x

def toFloat : Number → Float
  | .int n => widen n.toInt
  | .float x => x

/-- the integer held, if the number is one -/
def int? : Number → Option Int32
  | .int n => some n
  | .float _ => none

/-- an integral double that fits in 32 bits becomes an integer -/
def flatten : Number → Number
  | .int n => .int n
  | .float x => if x.toInt32.toFloat == x then .int x.toInt32 else .float x

/-! ## Arithmetic -/

/-- an exact operation on integers with the operation on doubles that stands in for it -/
def lift (onInt : Int → Int → Int) (onFloat : Float → Float → Float) : Number → Number → Number
  | .int a, .int b => ofInt (onInt a.toInt b.toInt)
  | a, b => .float (onFloat a.toFloat b.toFloat)

def add : Number → Number → Number := lift (· + ·) (· + ·)

def sub : Number → Number → Number := lift (· - ·) (· - ·)

def mul : Number → Number → Number := lift (· * ·) (· * ·)

def div (a b : Number) : Number := flatten (.float (a.toFloat / b.toFloat))

def neg : Number → Number
  | .int n => ofInt (-n.toInt)
  | .float x => .float (-x)

def recip (a : Number) : Number := flatten (.float (1.0 / a.toFloat))

/-! ## Order -/

/-- the order of two numbers by value; not-a-number is not ordered -/
def compare? : Number → Number → Option Ordering
  | .int a, .int b => some (Ord.compare a.toInt b.toInt)
  | a, b =>
    let x := a.toFloat
    let y := b.toFloat
    if x < y then some .lt else if y < x then some .gt else if x == y then some .eq else none

def equal (a b : Number) : Bool := a.compare? b = some .eq

def less (a b : Number) : Bool := a.compare? b = some .lt

/-! ## Text -/

def text : Number → String
  | .int n => toString n.toInt
  | .float x => Decimal.text x

end Number

end LispMachine
