/-
The lines of a document: headers of tables, and keys with their values.

A stray control character anywhere, a carriage return without a line feed among them, spoils the whole document.
-/
import LispMachine.Manifest.Toml.Term

namespace LispMachine.Toml

inductive Line where
  /-- the header of a table -/
  | table (k : Key)
  /-- the header of one more table of a list of tables -/
  | tables (k : Key)
  | assign (k : Key) (t : Term)

/-- whether the text has no control characters but tabs and line breaks -/
def isClean : List Char → Bool
  | [] => true
  | '\r' :: cs => cs.head? = some '\n' && isClean cs
  | c :: cs => (c = '\t' || c = '\n' || (32 ≤ c.toNat && c.toNat ≠ 127)) && isClean cs

/-- what follows the end of a line: spaces, perhaps a comment, and a line break or the end of the text -/
def endLine? (cs : List Char) : Option (List Char) :=
  match skipSpaces cs with
  | [] => some []
  | '#' :: rest => some (rest.dropWhile (· ≠ '\n'))
  | c :: rest => if isBreak c then some rest else none

/-- the key of a header after its opening brackets -/
def header? (double : Bool) (cs : List Char) : Option (Key × List Char) := do
  let (k, cs) ← key (cs.length + 1) cs
  match double, skipSpaces cs with
  | false, ']' :: rest => some (k, rest)
  | true, ']' :: ']' :: rest => some (k, rest)
  | _, _ => none

/-- a key with its value -/
def assignment? (cs : List Char) : Option (Line × List Char) := do
  let (k, cs) ← key (cs.length + 1) cs
  match skipSpaces cs with
  | '=' :: rest =>
    let (t, cs) ← term (rest.length + 1) (skipSpaces rest)
    return (.assign k t, cs)
  | _ => none

def line? : List Char → Option (Line × List Char)
  | '[' :: '[' :: rest => (header? true rest).map fun (k, cs) => (.tables k, cs)
  | '[' :: rest => (header? false rest).map fun (k, cs) => (.table k, cs)
  | cs => assignment? cs

/-- the lines of a text; the fuel bounds their number -/
def linesOf : Nat → List Char → List Line → Option (List Line)
  | 0, _, _ => none
  | fuel + 1, cs, acc =>
    match skipBlank cs.length cs with
    | [] => some acc.reverse
    | cs => do
      let (l, cs) ← line? cs
      linesOf fuel (← endLine? cs) (l :: acc)

/-- the lines of a document; a byte order mark in front does not count -/
def lines? (s : String) : Option (List Line) :=
  let cs := match s.toList with
    | '\uFEFF' :: cs => cs
    | cs => cs
  if isClean cs then linesOf (cs.length + 2) cs [] else none

end LispMachine.Toml
