/-
Dates and times in a document.

A moment is a date, a time of day, or both with a `T` or a space between them and then perhaps an offset. Hours and
minutes have two digits; seconds may be missing, and may have a fraction.
-/
import LispMachine.Calendar

namespace LispMachine.Toml

open Calendar (fixed skip date? offset? digit?)

/-- what follows the fraction of a second, if there is one -/
def afterFraction : List Char → List Char
  | '.' :: d :: cs => if (digit? d).isSome then cs.dropWhile fun c => (digit? c).isSome else '.' :: d :: cs
  | cs => cs

/-- what follows a time of day -/
def afterClock? (cs : List Char) : Option (List Char) := do
  let (hour, cs) ← fixed 2 cs 0
  let (minute, cs) ← fixed 2 (← skip ':' cs) 0
  if 24 ≤ hour ∨ 60 ≤ minute then none
  else match cs with
    | ':' :: cs => do
      let (second, cs) ← fixed 2 cs 0
      if 60 ≤ second then none else some (afterFraction cs)
    | cs => some cs

/-- whether a text is an offset, with its letter in either case, or nothing -/
def isOffsetOrEmpty : List Char → Bool
  | [] => true
  | ['z'] => true
  | cs => (offset? cs).isSome

/-- whether a text is a date alone -/
def isDay (cs : List Char) : Bool := (date? cs).any fun (_, rest) => rest.isEmpty

def isMoment (cs : List Char) : Bool :=
  match date? cs with
  | some (_, []) => true
  | some (_, mark :: cs) =>
    (mark = 'T' || mark = 't' || mark = ' ') && (afterClock? cs).any isOffsetOrEmpty
  | none => (afterClock? cs).any List.isEmpty

end LispMachine.Toml
