/-
The shortest decimal that reads back as a given double.

A finite positive double is `m * 2 ^ q`. The reals that round to it form an interval around it, whose ends belong to it
exactly when `m` is even. Scaled by a power of ten the interval and its centre are integers, so the search is exact:
among the multiples of `10 ^ j` the largest `j` that has one in the interval wins, of two multiples the nearer to the
centre, and of two equally near the one whose last digit is even. The coarsest grid that is hit is the fewest digits.

The text is positional, never with an exponent, and always has a point.
-/
namespace LispMachine.Decimal

/-! ## The digits -/

/-- the reals that round to a double, scaled by `10 ^ exponent` to integers -/
structure Interval where
  low : Nat
  centre : Nat
  high : Nat
  /-- whether the two ends round to the double as well -/
  closed : Bool
  exponent : Int
deriving DecidableEq, Repr

/-- whether the integer `n` rounds to the double -/
def Interval.holds (i : Interval) (n : Nat) : Bool :=
  if i.closed then i.low ≤ n && n ≤ i.high else i.low < n && n < i.high

/-- the interval of the double with biased exponent `e` and fraction `f` -/
def Interval.ofFields (e f : Nat) : Interval :=
  let m := if e = 0 then f else f + 0x10000000000000
  let q : Int := if e = 0 then -1074 else (e : Int) - 1075
  -- below a power of two the doubles lie twice as densely
  let below := if f = 0 ∧ 1 < e then 4 * m - 1 else 4 * m - 2
  let scale := if q < 2 then Nat.pow 5 (2 - q).toNat else Nat.pow 2 (q - 2).toNat
  { low := below * scale, centre := 4 * m * scale, high := (4 * m + 2) * scale,
    closed := m % 2 = 0, exponent := if q < 2 then q - 2 else 0 }

/-- the multiplier of the chosen multiple of `10 ^ j`, if some multiple lies in the interval -/
def Interval.pick? (i : Interval) (j : Nat) : Option Nat :=
  let unit := Nat.pow 10 j
  let d := i.centre / unit
  let down := d ≠ 0 && i.holds (d * unit)
  let up := i.holds ((d + 1) * unit)
  let left := i.centre - d * unit
  let right := (d + 1) * unit - i.centre
  if down && up then
    if left < right then some d
    else if right < left then some (d + 1)
    else some (if d % 2 = 0 then d else d + 1)
  else if down then some d
  else if up then some (d + 1)
  else none

/-- the first hit on the grids `10 ^ j`, …, `10`, `1` -/
def Interval.search (i : Interval) : Nat → Nat × Nat
  | 0 => ((i.pick? 0).getD i.centre, 0)
  | j + 1 => match i.pick? (j + 1) with
    | some d => (d, j + 1)
    | none => i.search j

/-- digits and decimal exponent of the shortest decimal in the interval -/
def Interval.shortest (i : Interval) : Nat × Int :=
  let (d, j) := i.search (toString i.high).length
  (d, (j : Int) + i.exponent)

/-! ## The text -/

/-- `d * 10 ^ x` in positional notation with a point -/
def positional (d : Nat) (x : Int) : String :=
  let digits := (toString d).toList
  if 0 ≤ x then String.ofList (digits ++ List.replicate x.toNat '0') ++ ".0"
  else
    let places := (-x).toNat
    if places < digits.length then
      let whole := digits.length - places
      String.ofList (digits.take whole) ++ "." ++ String.ofList (digits.drop whole)
    else "0." ++ String.ofList (List.replicate (places - digits.length) '0' ++ digits)

/-- the text of a double: shortest digits, positional, with a point, or the name of what is not finite -/
def text (x : Float) : String :=
  let bits := x.toBits.toNat
  let negative := 0x8000000000000000 ≤ bits
  let e := bits / 0x10000000000000 % 2048
  let f := bits % 0x10000000000000
  if e = 2047 then
    if f ≠ 0 then "NaN" else if negative then "-inf" else "inf"
  else
    let magnitude :=
      if e = 0 ∧ f = 0 then "0.0"
      else
        let (d, x) := (Interval.ofFields e f).shortest
        positional d x
    if negative then "-" ++ magnitude else magnitude

end LispMachine.Decimal
