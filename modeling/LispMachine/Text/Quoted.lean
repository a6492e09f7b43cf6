/-
Quoted text: how a message shows a piece of its input.

The text stands between double quotes. A double quote and a backslash get a backslash in front; the seven named controls
are written with their letter; every other character that is not printable is written by its number, in two, four or
eight hexadecimal digits; a stray byte is written by its two digits.
-/
import LispMachine.Text.Printable
import LispMachine.Text.Rune

namespace LispMachine.Text

/-- `n` in hexadecimal with at least `width` digits -/
def hexDigits (width n : Nat) : String :=
  let digits := Nat.toDigits 16 n
  String.ofList (List.replicate (width - digits.length) '0' ++ digits)

/-- the letter of a named control -/
def controlLetter? (n : Nat) : Option String :=
  match n with
  | 7 => some "\\a"
  | 8 => some "\\b"
  | 9 => some "\\t"
  | 10 => some "\\n"
  | 11 => some "\\v"
  | 12 => some "\\f"
  | 13 => some "\\r"
  | _ => none

def quoteChar (c : Char) : String :=
  if c = '"' then "\\\""
  else if c = '\\' then "\\\\"
  else if isPrintable c then String.singleton c
  else match controlLetter? c.toNat with
    | some s => s
    | none =>
      if c.toNat < 0x20 ∨ c.toNat = 0x7F then "\\x" ++ hexDigits 2 c.toNat
      else if c.toNat < 0x10000 then "\\u" ++ hexDigits 4 c.toNat
      else "\\U" ++ hexDigits 8 c.toNat

def quoteRune : Rune → String
  | .char c => quoteChar c
  | .stray b => "\\x" ++ hexDigits 2 b.toNat

/-- the runes between double quotes -/
def quoteRunes (rs : List Rune) : String :=
  "\"" ++ String.join (rs.map quoteRune) ++ "\""

def quote (s : String) : String := quoteRunes (Rune.ofString s)

end LispMachine.Text
