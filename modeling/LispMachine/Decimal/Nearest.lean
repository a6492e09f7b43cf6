/-
The double nearest to a numeral.

A plain numeral is a sign, digits before and after an optional point, and an optional exponent. Its value is an integer
times a power of ten. Rounding is to the nearest double with ties to even, and it is exact: the value is a ratio of two
integers, of which the quotient in units of the last place is rounded once. What is too large becomes an infinity and
what is too small a zero, both with the numeral's sign. The size is bounded before any power is formed, so a numeral such
as `1e9999` costs nothing.
-/
namespace LispMachine.Decimal

/-! ## Digits -/

def isDigit (c : Char) : Bool := '0' ≤ c && c ≤ '9'

/-- the value of a run of digits -/
def digitsValue (cs : List Char) : Nat :=
  cs.foldl (fun v c => 10 * v + (c.toNat - 48)) 0

/-- the leading digits of `cs` and what follows them -/
def digits (cs : List Char) : List Char × List Char :=
  (cs.takeWhile isDigit, cs.dropWhile isDigit)

/-- a leading sign and what follows it; `true` is negative -/
def sign : List Char → Bool × List Char
  | '-' :: cs => (true, cs)
  | '+' :: cs => (false, cs)
  | cs => (false, cs)

/-! ## Rounding -/

def infinity : Float := Float.ofBits 0x7FF0000000000000

def notANumber : Float := Float.ofBits 0x7FF8000000000000

/-- the quotient `num / den` rounded to the nearest integer, a tie to the even one -/
def roundDiv (num den : Nat) : Nat :=
  let q := num / den
  let r := 2 * (num % den)
  if r < den then q
  else if den < r then q + 1
  else if q % 2 = 0 then q else q + 1

/-- the exponent of the largest power of two that is at most `num / den`, for a positive ratio -/
def binaryOrder (num den : Nat) : Int :=
  let guess : Int := (Nat.log2 num : Int) - Nat.log2 den
  let reached := if 0 ≤ guess then den * Nat.pow 2 guess.toNat ≤ num else den ≤ num * Nat.pow 2 (-guess).toNat
  if reached then guess else guess - 1

/-- the bits of the double nearest to `num / den`

The last place of the result is `2 ^ unit`. A significand that is rounded up to the next power of two carries into the
exponent field, which is then the right one. -/
def ratioBits (num den : Nat) : Nat :=
  if num = 0 then 0
  else
    let unit := max (binaryOrder num den - 52) (-1074)
    let significand :=
      if 0 ≤ unit then roundDiv num (den * Nat.pow 2 unit.toNat) else roundDiv (num * Nat.pow 2 (-unit).toNat) den
    min ((unit + 1074).toNat * 0x10000000000000 + significand) 0x7FF0000000000000

def ofRatio (num den : Nat) : Float := Float.ofBits (UInt64.ofNat (ratioBits num den))

/-- the double nearest to `m * 10 ^ e` -/
def nearest (m : Nat) (e : Int) : Float :=
  if m = 0 then 0.0
  else
    let size := ((toString m).length : Int) + e
    if 310 < size then infinity
    else if size < -330 then 0.0
    else if 0 ≤ e then ofRatio (m * Nat.pow 10 e.toNat) 1
    else ofRatio m (Nat.pow 10 (-e).toNat)

/-- the double nearest to `m * 2 ^ e` -/
def nearestBinary (m : Nat) (e : Int) : Float :=
  if m = 0 then 0.0
  else
    let size := (Nat.log2 m : Int) + e
    if 1024 < size then infinity
    else if size < -1080 then 0.0
    else if 0 ≤ e then ofRatio (m * Nat.pow 2 e.toNat) 1
    else ofRatio m (Nat.pow 2 (-e).toNat)

/-! ## Plain numerals -/

/-- a numeral taken apart -/
structure Numeral where
  negative : Bool
  whole : List Char
  fraction : List Char
  exponent : Int
deriving DecidableEq, Repr

def Numeral.value (n : Numeral) : Float :=
  let x := nearest (digitsValue (n.whole ++ n.fraction)) (n.exponent - n.fraction.length)
  if n.negative then -x else x

/-- the size of a written exponent, in which the digits after a value of ten thousand or more do not count -/
def exponentValue (ds : List Char) : Nat :=
  ds.foldl (fun v c => if v < 10000 then 10 * v + (c.toNat - 48) else v) 0

/-- the exponent written after its mark: a sign and at least one digit, to the end of the text -/
def exponent? (cs : List Char) : Option Int :=
  let (negative, body) := sign cs
  let (ds, rest) := digits body
  if ds = [] ∨ rest ≠ [] then none
  else some (if negative then -(exponentValue ds : Int) else exponentValue ds)

/-- a numeral: digits, with a point among or beside them, with an exponent -/
def Numeral.parse? (cs : List Char) : Option Numeral :=
  let (negative, body) := sign cs
  let (whole, rest) := digits body
  let (fraction, tail) := match rest with
    | '.' :: after => digits after
    | _ => ([], rest)
  if whole = [] ∧ fraction = [] then none
  else match tail with
    | [] => some ⟨negative, whole, fraction, 0⟩
    | c :: after =>
      if c = 'e' ∨ c = 'E' then (exponent? after).map fun x => ⟨negative, whole, fraction, x⟩
      else none

end LispMachine.Decimal
