/-
Settings in a document, by name.

A name in the document may differ from the name of the setting in the case of its letters; the Kelvin sign counts as a
`k` and the long s as an `s`. All entries with a fitting name have to have the right type, and of several the last counts.
-/
import LispMachine.Manifest.Toml.Draft

namespace LispMachine.Toml

/-- the letter that stands for all that differ only in case -/
def foldCase (c : Char) : Char :=
  if c = '\u212A' then 'k' else if c = '\u017F' then 's' else c.toLower

/-- whether two names differ at most in the case of their letters -/
def sameName (a b : String) : Bool := a.toList.map foldCase = b.toList.map foldCase

/-- the values of the entries with a name -/
def named (es : Entries) (name : String) : List Toml :=
  (es.filter fun e => sameName e.1 name).map Prod.snd

/-- the setting with a name, from what its entries stand for; `missing` is its value without an entry -/
def setting? {α : Type} (read : Toml → Option α) (missing : α) (es : Entries) (name : String) : Option α := do
  let vs ← (named es name).mapM read
  return vs.getLast?.getD missing

/-- the entries of the tables with a name -/
def section? (es : Entries) (name : String) : Option Entries := do
  let tables ← (named es name).mapM fun
    | .table inner => some inner
    | _ => none
  return tables.flatten

def stringAt? : Entries → String → Option String :=
  setting? (fun | .string s => some s | _ => none) ""

def integerAt? : Entries → String → Option Int :=
  setting? (fun | .integer n => some n | _ => none) 0

def stringsAt? : Entries → String → Option (List String) :=
  setting? (fun
    | .array items => items.mapM fun
      | .string s => some s
      | _ => none
    | _ => none) []

end LispMachine.Toml
