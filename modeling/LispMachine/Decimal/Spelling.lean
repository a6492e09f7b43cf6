/-
The wider spellings of a double.

Beside the plain numerals a double can be written in base sixteen, `0x1.8p3` with a binary exponent that must be there,
with underscores that part digits in either base, and by name: `inf`, `infinity` and `nan` in either case of letters.
-/
import LispMachine.Decimal.Nearest

namespace LispMachine.Decimal

/-! ## Base sixteen -/

def isHexDigit (c : Char) : Bool := isDigit c || ('a' ≤ c && c ≤ 'f') || ('A' ≤ c && c ≤ 'F')

def hexDigitValue (c : Char) : Nat :=
  if isDigit c then c.toNat - 48
  else if 'a' ≤ c then c.toNat - 87
  else c.toNat - 55

def hexDigitsValue (cs : List Char) : Nat := cs.foldl (fun v c => 16 * v + hexDigitValue c) 0

/-- what follows the mark `0x`, if the text starts with it and goes on -/
def afterHexMark? : List Char → Option (List Char)
  | '0' :: x :: c :: cs => if x = 'x' ∨ x = 'X' then some (c :: cs) else none
  | _ => none

/-- the double written in base sixteen after the mark: digits with a point among or beside them and an exponent of two -/
def hexValue? (cs : List Char) : Option Float :=
  let whole := cs.takeWhile isHexDigit
  let rest := cs.dropWhile isHexDigit
  let (fraction, tail) := match rest with
    | '.' :: after => (after.takeWhile isHexDigit, after.dropWhile isHexDigit)
    | _ => ([], rest)
  match tail with
  | p :: after =>
    if (p = 'p' ∨ p = 'P') ∧ (whole ≠ [] ∨ fraction ≠ []) then
      (exponent? after).map fun x => nearestBinary (hexDigitsValue (whole ++ fraction)) (x - 4 * fraction.length)
    else none
  | [] => none

/-! ## Underscores -/

/-- whether every underscore follows a digit and is followed by one, where the flag tells whether a digit stands before
the text -/
def underscoresPart (digit : Char → Bool) : Bool → List Char → Bool
  | _, [] => true
  | true, '_' :: d :: cs => digit d && underscoresPart digit true cs
  | _, c :: cs => c ≠ '_' && underscoresPart digit (digit c) cs

/-- a numeral without a sign and without its underscores, provided that they part digits; the mark of base sixteen counts
as a digit here -/
def withoutUnderscores? (cs : List Char) : Option (List Char) :=
  let well := match afterHexMark? cs with
    | some body => underscoresPart isHexDigit true body
    | none => underscoresPart isDigit false cs
  if well then some (cs.filter (· ≠ '_')) else none

/-! ## All spellings -/

/-- the name of a double that is no number or not finite -/
def named? (negative signed : Bool) (word : String) : Option Float :=
  if word = "inf" ∨ word = "infinity" then some (if negative then -infinity else infinity)
  else if word = "nan" ∧ ¬ signed then some notANumber
  else none

/-- the double a text spells -/
def parse? (s : String) : Option Float :=
  let cs := s.toList
  let (negative, body) := sign cs
  (named? negative (body.length ≠ cs.length) (String.ofList (body.map Char.toLower))).or <|
    (withoutUnderscores? body).bind fun plain =>
      match afterHexMark? plain with
      | some digits => (hexValue? digits).map fun x => if negative then -x else x
      | none => (Numeral.parse? (cs.take (cs.length - body.length) ++ plain)).map Numeral.value

end LispMachine.Decimal
