/-
Lines of input.

A line ends at a line feed, in front of which a carriage return may stand, or at the end of the input. A reader holds
4096 bytes: of a longer line it gives the part that it holds, and the rest as lines of their own. A carriage return at
the end of such a part is left for the next line.
-/
namespace LispMachine.Line

/-- the number of bytes a reader holds -/
def capacity : Nat := 4096

/-- a line, whether it is only a part of one, and what follows it -/
structure Taken where
  line : List UInt8
  isPart : Bool
  rest : List UInt8
deriving DecidableEq, Repr

/-- a line without the carriage return at its end -/
def dropReturn (bs : List UInt8) : List UInt8 := if bs.getLast? = some 13 then bs.dropLast else bs

/-- the next line of an input that is not empty -/
def take (bs : List UInt8) : Taken :=
  let held := bs.take capacity
  let line := held.takeWhile (· ≠ 10)
  if line.length < held.length then ⟨dropReturn line, false, bs.drop (line.length + 1)⟩
  else if held.length < capacity then ⟨held, false, []⟩
  else
    let part := dropReturn held
    ⟨part, true, bs.drop part.length⟩

end LispMachine.Line
