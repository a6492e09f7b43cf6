/-
Durations, in nanoseconds, and their text.

A duration is written as numbers with units: `1h30m`, `1.5s`, `-250ms`. Its own text has hours, minutes and seconds with
a fraction, or, below a second, one number with the largest unit that leaves a whole part.
-/
import LispMachine.Text.Integer
import LispMachine.Text.Quoted

namespace LispMachine

/-- a number of nanoseconds -/
abbrev Duration := Int

namespace Duration

/-! ## Reading -/

/-- what is wrong with the text of a duration -/
inductive Fault where
  | invalid
  | missingUnit
  | unknownUnit (unit : String)
deriving DecidableEq, Repr

/-- a text between double quotes; what is not plain ASCII is shown byte by byte -/
def quote (s : String) : String :=
  let show_ (c : Char) : String :=
    if c.toNat < 32 ∨ 128 ≤ c.toNat then
      String.join ((String.singleton c).toUTF8.data.toList.map fun b => "\\x" ++ Text.hexDigits 2 b.toNat)
    else if c = '"' ∨ c = '\\' then "\\" ++ String.singleton c
    else String.singleton c
  "\"" ++ String.join (s.toList.map show_) ++ "\""

def Fault.text (whole : String) : Fault → String
  | .invalid => "time: invalid duration " ++ quote whole
  | .missingUnit => "time: missing unit in duration " ++ quote whole
  | .unknownUnit unit => "time: unknown unit " ++ quote unit ++ " in duration " ++ quote whole

/-- the nanoseconds of a unit -/
def unit? (name : String) : Option Nat :=
  if name = "ns" then some 1
  else if name = "us" ∨ name = "\u00b5s" ∨ name = "\u03bcs" then some 1000
  else if name = "ms" then some 1000000
  else if name = "s" then some 1000000000
  else if name = "m" then some 60000000000
  else if name = "h" then some 3600000000000
  else none

def isDigit (c : Char) : Bool := '0' ≤ c && c ≤ '9'

/-- the whole part of a number; none when it is above 2 ^ 63 -/
def whole? (ds : List Char) : Option Nat :=
  let n := ds.foldl (fun n c => n * 10 + (c.toNat - 48)) 0
  if n ≤ 0x8000000000000000 then some n else none

/-- the fraction that digits after a point spell, over a power of ten; digits without effect are left out -/
def fraction (ds : List Char) : Nat × Float :=
  let (n, scale, _) := ds.foldl (fun (n, scale, full) c =>
    let next := n * 10 + (c.toNat - 48)
    if full ∨ (0x8000000000000000 - 1) / 10 < n ∨ 0x8000000000000000 < next then (n, scale, true) else (next, scale * 10.0, false))
    (0, 1.0, false)
  (n, scale)

/-- one number with its unit: its nanoseconds and what follows it -/
def component (cs : List Char) : Except Fault (Nat × List Char) := do
  let ds := cs.takeWhile isDigit
  let rest := cs.dropWhile isDigit
  let (hasPoint, after) := match rest with
    | '.' :: after => (true, after)
    | _ => (false, rest)
  let fs := if hasPoint then after.takeWhile isDigit else []
  let rest := if hasPoint then after.dropWhile isDigit else rest
  match whole? ds with
  | none => .error .invalid
  | some n =>
    if ds = [] ∧ fs = [] then .error .invalid
    else
      let inUnit (c : Char) : Bool := !(c = '.' || isDigit c)
      let name := String.ofList (rest.takeWhile inUnit)
      if name = "" then .error .missingUnit
      else match unit? name with
        | none => .error (.unknownUnit name)
        | some unit =>
          if 0x8000000000000000 / unit < n then .error .invalid
          else
            let (f, scale) := fraction fs
            let part := ((UInt64.ofNat f).toFloat * ((UInt64.ofNat unit).toFloat / scale)).toUInt64.toNat
            let v := n * unit + if 0 < f then part else 0
            if 0x8000000000000000 < v then .error .invalid else .ok (v, rest.dropWhile inUnit)

/-- the sum of all numbers with their units, counted in 64 bits; the fuel bounds how many there are -/
def total : Nat → List Char → Nat → Except Fault Nat
  | 0, _, _ => .error .invalid
  | _ + 1, [], sum => .ok sum
  | fuel + 1, cs, sum => do
    let (v, rest) ← component cs
    let sum := (sum + v) % 0x10000000000000000
    if 0x8000000000000000 < sum then .error .invalid else total fuel rest sum

/-- the duration a text spells -/
def parse (s : String) : Except Fault Duration := do
  let (negative, body) := Text.Integer.sign s.toList
  if body = ['0'] then .ok 0
  else if body = [] then .error .invalid
  else
    let n ← total (body.length + 1) body 0
    if negative then .ok (-(n : Int))
    else if 0x8000000000000000 ≤ n then .error .invalid
    else .ok n

/-! ## Writing -/

/-- `n / 10 ^ places` with its fraction, without trailing zeros -/
def decimal (n places : Nat) : String :=
  let unit := Nat.pow 10 places
  let digits := toString (n % unit)
  let padded := List.replicate (places - digits.length) '0' ++ digits.toList
  let fraction := (padded.reverse.dropWhile (· = '0')).reverse
  toString (n / unit) ++ if n % unit = 0 then "" else "." ++ String.ofList fraction

def magnitudeText (n : Nat) : String :=
  if n = 0 then "0s"
  else if n < 1000 then toString n ++ "ns"
  else if n < 1000000 then decimal n 3 ++ "\u00b5s"
  else if n < 1000000000 then decimal n 6 ++ "ms"
  else
    let minutes := n / 60000000000
    let seconds := decimal (n % 60000000000) 9 ++ "s"
    if minutes = 0 then seconds
    else if minutes < 60 then toString minutes ++ "m" ++ seconds
    else toString (minutes / 60) ++ "h" ++ toString (minutes % 60) ++ "m" ++ seconds

def text (d : Duration) : String :=
  if d < 0 then "-" ++ magnitudeText d.natAbs else magnitudeText d.natAbs

end Duration

end LispMachine
