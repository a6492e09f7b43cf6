/-
Checking programs by what they print.

Each input runs in a loop of its own, one after the other. The first that writes to the error channel, or prints anything
but the expected line, ends the check.
-/
import LispMachine.Repl.Loop
import LispMachine.Text.Blank

namespace LispMachine

namespace Repl

inductive PairFailure where
  | wrongOutput (input expected found : String)
  | internal (input message : String)
deriving DecidableEq, Repr

def PairFailure.message : PairFailure → String
  | .wrongOutput input expected found => s!"Expected {input} to yield {expected} but found {found}"
  | .internal input message => s!"Phoebe errored internally on {input}: {message}"

/-- what was written to one channel, as one text -/
def channelText (c : Channel) (written : List (Channel × String)) : String :=
  String.join ((written.filter (·.1 = c)).map Prod.snd)

/-- judge what an input has written -/
def judge (input expected : String) (written : List (Channel × String)) : Option PairFailure :=
  let err := channelText .err written
  let out := channelText .out written
  if err ≠ "" then some (.internal input (Text.trim err))
  else if out ≠ expected ++ "\n" then some (.wrongOutput input (expected ++ "\n") out)
  else none

end Repl

namespace Act

/-- check inputs against the lines they should print -/
def checkPairs (fuel : Nat) : List (String × String) → Act (Option Repl.PairFailure)
  | [] => pure none
  | (input, expected) :: pairs => do
    let before := (← get).console.written.size
    replRun fuel false (Source.Cursor.ofString input)
    let written := (← get).console.written.toList.drop before
    match Repl.judge input expected written with
    | some failure => return some failure
    | none => checkPairs fuel pairs

end Act

end LispMachine
