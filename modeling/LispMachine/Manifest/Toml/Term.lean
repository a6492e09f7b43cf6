/-
What values and keys of a document are written as.

A term is a string, a word (a boolean, a number, a date or time), an array in brackets or an inline table in braces. A
key is one or more names with dots between them.
-/
import LispMachine.Decimal.Nearest
import LispMachine.Manifest.Toml.Moment
import LispMachine.Manifest.Toml.Quoted

namespace LispMachine.Toml

/-- the names of a key -/
abbrev Key := List String

inductive Term where
  | string (s : String)
  | integer (n : Int)
  | float (x : Float)
  | boolean (b : Bool)
  /-- a date or a time, of which nothing is kept -/
  | moment
  | array (items : List Term)
  | inline (pairs : List (Key × Term))

/-! ## Blanks -/

def skipSpaces (cs : List Char) : List Char := cs.dropWhile isSpace

/-- pass over spaces, line breaks and comments -/
def skipBlank : Nat → List Char → List Char
  | 0, cs => cs
  | fuel + 1, cs =>
    match cs.dropWhile fun c => isSpace c || isBreak c with
    | '#' :: rest => skipBlank fuel (rest.dropWhile (· ≠ '\n'))
    | cs => cs

/-! ## Keys -/

def isBareKey (c : Char) : Bool := c.isAlphanum || c = '_' || c = '-'

/-- one name of a key -/
def keyName (cs : List Char) : Option (String × List Char) :=
  match cs with
  | '"' :: rest => shortString '"' (rest.length + 1) rest []
  | '\x27' :: rest => shortString '\x27' (rest.length + 1) rest []
  | cs =>
    let name := cs.takeWhile isBareKey
    if name = [] then none else some (String.ofList name, cs.dropWhile isBareKey)

/-- a key and what follows it -/
def key : Nat → List Char → Option (Key × List Char)
  | 0, _ => none
  | fuel + 1, cs => do
    let (name, cs) ← keyName (skipSpaces cs)
    match skipSpaces cs with
    | '.' :: rest =>
      let (names, cs) ← key fuel rest
      return (name :: names, cs)
    | cs => return ([name], cs)

/-! ## Words -/

/-- what follows the mark of a base, if a digit follows it -/
def hasBase : List Char → Bool
  | '0' :: c :: d :: _ => (c = 'x' || c = 'o' || c = 'b') && d ≠ '_'
  | _ => false

/-- whether digits begin with a zero that says nothing -/
def hasLeadingZero (digits : List Char) : Bool := digits.head? = some '0' && 1 < digits.length

/-- whether every underscore follows a digit and the last character is one -/
def wellParted : Bool → List Char → Bool
  | afterDigit, [] => afterDigit
  | afterDigit, c :: cs => (c ≠ '_' || afterDigit) && wellParted c.isDigit cs

def integer? (w : List Char) : Option Term := (Text.Integer.parseWide (String.ofList w)).toOption.map .integer

/-- a number with a fraction or an exponent, or with both -/
def float? (w body : List Char) : Option Term :=
  let parts := (body.splitOnP fun c => c = '.' || c = 'e' || c = 'E').filter (· ≠ [])
  let pointed := ((body.dropWhile (· ≠ '.')).drop 1).head?
  if !(body.head?.any Char.isDigit) || (parts.head?.any hasLeadingZero) || !parts.all (wellParted false) then none
  else if body.contains '.' ∧ !pointed.any Char.isDigit then none
  else (Decimal.Numeral.parse? (w.filter (· ≠ '_'))).bind fun n =>
    if n.value.isInf then none else some (.float n.value)

/-- the value of a word -/
def word? (w : List Char) : Option Term :=
  let (negative, body) := Text.Integer.sign w
  if w = "true".toList then some (.boolean true)
  else if w = "false".toList then some (.boolean false)
  else if body = "inf".toList then some (.float (if negative then -Decimal.infinity else Decimal.infinity))
  else if body = "nan".toList then some (.float Decimal.notANumber)
  else if hasBase w then integer? w
  else if body ≠ [] ∧ body.all fun c => c.isDigit || c = '_' then
    if hasLeadingZero body ∨ !wellParted false body then none else integer? w
  else (float? w body).or (if isMoment w then some .moment else none)

/-- the characters words are made of -/
def inWord (c : Char) : Bool := c.isAlphanum || c = '_' || c = '-' || c = '+' || c = '.' || c = ':'

/-- a word and what follows it; after a date one space may stand before a time -/
def takeWord (cs : List Char) : List Char × List Char :=
  let w := cs.takeWhile inWord
  match cs.dropWhile inWord with
  | ' ' :: d :: rest =>
    if isDay w && d.isDigit then
      (w ++ ' ' :: (d :: rest).takeWhile inWord, (d :: rest).dropWhile inWord)
    else (w, ' ' :: d :: rest)
  | rest => (w, rest)

/-! ## Terms -/

mutual

/-- a term and what follows it; the fuel bounds how deep terms nest and how many there are in one -/
def term : Nat → List Char → Option (Term × List Char)
  | 0, _ => none
  | fuel + 1, cs =>
    match cs with
    | '"' :: rest => (stringAfter '"' rest).map fun (s, cs) => (.string s, cs)
    | '\x27' :: rest => (stringAfter '\x27' rest).map fun (s, cs) => (.string s, cs)
    | '[' :: rest => (items fuel rest []).map fun (ts, cs) => (.array ts, cs)
    | '\x7b' :: rest => (pairs fuel rest []).map fun (ps, cs) => (.inline ps, cs)
    | cs =>
      let (w, rest) := takeWord cs
      (word? w).map fun t => (t, rest)

/-- the items of an array up to its bracket -/
def items : Nat → List Char → List Term → Option (List Term × List Char)
  | 0, _, _ => none
  | fuel + 1, cs, acc =>
    match skipBlank cs.length cs with
    | ']' :: rest => some (acc.reverse, rest)
    | cs => do
      let (t, cs) ← term fuel cs
      match skipBlank cs.length cs with
      | ',' :: rest => items fuel rest (t :: acc)
      | ']' :: rest => some ((t :: acc).reverse, rest)
      | _ => none

/-- the pairs of an inline table up to its brace -/
def pairs : Nat → List Char → List (Key × Term) → Option (List (Key × Term) × List Char)
  | 0, _, _ => none
  | fuel + 1, cs, acc =>
    match skipBlank cs.length cs with
    | '\x7d' :: rest => some (acc.reverse, rest)
    | cs => do
      let (k, cs) ← key (cs.length + 1) cs
      match skipSpaces cs with
      | '=' :: rest =>
        let (t, cs) ← term fuel (skipSpaces rest)
        match skipBlank cs.length cs with
        | ',' :: rest => pairs fuel rest ((k, t) :: acc)
        | '\x7d' :: rest => some (((k, t) :: acc).reverse, rest)
        | _ => none
      | _ => none

end

end LispMachine.Toml
