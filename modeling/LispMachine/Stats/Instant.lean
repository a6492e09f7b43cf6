/-
Points in time, as seconds from the start of 1970 and nanoseconds.

A time can be given as a number of seconds or as a text `2006-01-02T15:04:05Z`, with a fraction of a second after a point
or a comma, of which nine digits count, and an offset `+hh:mm` or `-hh:mm` in place of the `Z`. The start of the year 1
stands for no time.
-/
import LispMachine.Calendar

namespace LispMachine

structure Instant where
  /-- whole seconds from the start of 1970 -/
  seconds : Int64
  nanoseconds : Nat := 0
deriving DecidableEq

namespace Instant

open Calendar (digit? fixed skip date? offset?)

/-- the start of the year 1, which stands for no time -/
def none : Instant := { seconds := -62135596800 }

/-! ## Reading -/

/-- a number of one or two digits -/
def oneOrTwo (cs : List Char) : Option (Nat × List Char) := (fixed 2 cs 0).or (fixed 1 cs 0)

/-- the nanoseconds that the digits of a fraction give -/
def nanosecondsOf (digits : List Char) : Nat :=
  ((digits ++ List.replicate 9 '0').take 9).foldl (fun n c => n * 10 + (digit? c).getD 0) 0

/-- the nanoseconds of a fraction of a second, if there is one, and what follows it -/
def fraction : List Char → Nat × List Char
  | p :: cs =>
    let digits := cs.takeWhile fun c => (digit? c).isSome
    if (p = '.' ∨ p = ',') ∧ digits ≠ [] then (nanosecondsOf digits, cs.drop digits.length) else (0, p :: cs)
  | [] => (0, [])

/-- the time a text gives -/
def parse? (s : String) : Option Instant := do
  let (days, cs) ← date? s.toList
  let (hour, cs) ← oneOrTwo (← skip 'T' cs)
  let (minute, cs) ← fixed 2 (← skip ':' cs) 0
  let (second, cs) ← fixed 2 (← skip ':' cs) 0
  let (nanoseconds, cs) := fraction cs
  let offset ← offset? cs
  if 24 ≤ hour ∨ 60 ≤ minute ∨ 60 ≤ second then Option.none
  else
    let time : Int := days * 86400 + ((hour * 60 + minute) * 60 + second : Nat)
    some ⟨Int64.ofInt (time - offset), nanoseconds⟩

/-- the time at a number of seconds; what is not a finite number stands for no time, and one that is too large for the
least second -/
def ofFloat (x : Float) : Instant :=
  if x.isNaN ∨ x.isInf then none
  else if 9223372036854775808.0 ≤ x.abs then { seconds := Int64.minValue }
  else
    let whole := x.toInt64
    let nanos := ((x - whole.toFloat) * 1000000000.0).toInt64.toInt
    if nanos < 0 then ⟨whole - 1, (nanos + 1000000000).toNat⟩ else ⟨whole, nanos.toNat⟩

end Instant

end LispMachine
