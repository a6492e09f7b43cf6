/-
Dates and times of day as text: digits of fixed number with marks between them.
-/
namespace LispMachine.Calendar

/-! ## Days -/

def isLeap (year : Nat) : Bool := year % 4 = 0 && (year % 100 ≠ 0 || year % 400 = 0)

def daysIn (year month : Nat) : Nat :=
  if month = 2 then if isLeap year then 29 else 28
  else if month = 4 ∨ month = 6 ∨ month = 9 ∨ month = 11 then 30
  else 31

/-- the days before a year, from the start of the year 0 -/
def daysBeforeYear (year : Nat) : Nat := 365 * year + (year + 3) / 4 - (year + 99) / 100 + (year + 399) / 400

/-- the days before a month, from the start of its year -/
def daysBeforeMonth (year month : Nat) : Nat :=
  (List.range (month - 1)).foldl (fun days m => days + daysIn year (m + 1)) 0

/-- the days from the start of 1970 to a date -/
def daysTo (year month day : Nat) : Int :=
  (daysBeforeYear year + daysBeforeMonth year month + day : Int) - 1 - daysBeforeYear 1970

/-- whether the calendar has such a day -/
def isDate (year month day : Nat) : Bool := 1 ≤ month && month ≤ 12 && 1 ≤ day && day ≤ daysIn year month

/-! ## Reading -/

def digit? (c : Char) : Option Nat := if '0' ≤ c ∧ c ≤ '9' then some (c.toNat - 48) else none

/-- a number of exactly `n` digits that go on the number `v` -/
def fixed : Nat → List Char → Nat → Option (Nat × List Char)
  | 0, cs, v => some (v, cs)
  | _ + 1, [], _ => none
  | n + 1, c :: cs, v => do fixed n cs (v * 10 + (← digit? c))

/-- pass over a character -/
def skip (c : Char) : List Char → Option (List Char)
  | d :: cs => if c = d then some cs else none
  | [] => none

/-- a date `2006-01-02` as the days from the start of 1970, and what follows it -/
def date? (cs : List Char) : Option (Int × List Char) := do
  let (year, cs) ← fixed 4 cs 0
  let (month, cs) ← fixed 2 (← skip '-' cs) 0
  let (day, cs) ← fixed 2 (← skip '-' cs) 0
  if isDate year month day then some (daysTo year month day, cs) else none

/-- the offset in seconds at the end of a time: `Z`, or a sign, hours and minutes -/
def offset? : List Char → Option Int
  | ['Z'] => some 0
  | sign :: cs => do
    let (hours, cs) ← fixed 2 cs 0
    let (minutes, cs) ← fixed 2 (← skip ':' cs) 0
    if cs ≠ [] ∨ 24 < hours ∨ 60 < minutes then none
    else if sign = '+' then some ((hours * 60 + minutes) * 60)
    else if sign = '-' then some (-((hours * 60 + minutes) * 60))
    else none
  | [] => none

end LispMachine.Calendar
