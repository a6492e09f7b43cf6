/-
Integers of 64 bits, as settings and options write them.

The plain form is an optional sign and decimal digits. The wide form also takes a base in front of the digits (`0x`,
`0o`, `0b`, or a lone `0` for octal) and underscores between digits. A digit that makes the number too large is found
before anything wrong that comes after it.
-/
namespace LispMachine.Text.Integer

/-- what is wrong with the text of an integer -/
inductive Fault where
  | syntactic
  | range
deriving DecidableEq, Repr

def Fault.text : Fault → String
  | .syntactic => "invalid syntax"
  | .range => "value out of range"

/-- the value of a digit in the bases up to 36 -/
def digit? (c : Char) : Option Nat :=
  if '0' ≤ c ∧ c ≤ '9' then some (c.toNat - 48)
  else if 'a' ≤ c ∧ c ≤ 'z' then some (c.toNat - 87)
  else if 'A' ≤ c ∧ c ≤ 'Z' then some (c.toNat - 55)
  else none

/-- the number that digits spell after those that spell `n`; underscores are passed over if they are allowed -/
def magnitude (base : Nat) (underscores : Bool) : List Char → Nat → Except Fault Nat
  | [], n => .ok n
  | c :: cs, n =>
    if underscores ∧ c = '_' then magnitude base underscores cs n
    else match digit? c with
      | none => .error .syntactic
      | some d =>
        if base ≤ d then .error .syntactic
        else if 0x10000000000000000 ≤ n * base + d then .error .range
        else magnitude base underscores cs (n * base + d)

/-- the signed number with a given magnitude, if it has room in 64 bits -/
def signed (negative : Bool) (n : Nat) : Except Fault Int :=
  if negative then if 0x8000000000000000 < n then .error .range else .ok (-(n : Int))
  else if 0x8000000000000000 ≤ n then .error .range
  else .ok n

/-- a leading sign and what follows it; `true` is negative -/
def sign : List Char → Bool × List Char
  | '-' :: cs => (true, cs)
  | '+' :: cs => (false, cs)
  | cs => (false, cs)

/-- an integer in the plain form -/
def parse (s : String) : Except Fault Int := do
  let (negative, body) := sign s.toList
  if body = [] then .error .syntactic else signed negative (← magnitude 10 false body 0)

/-! ## The wide form -/

/-- the base in front of a number, and the digits after it -/
def base : List Char → Nat × List Char
  | '0' :: c :: d :: cs =>
    if c = 'x' ∨ c = 'X' then (16, d :: cs)
    else if c = 'o' ∨ c = 'O' then (8, d :: cs)
    else if c = 'b' ∨ c = 'B' then (2, d :: cs)
    else (8, c :: d :: cs)
  | '0' :: cs => (8, cs)
  | cs => (10, cs)

/-- whether every underscore stands between digits, or between a base and a digit; `afterDigit` is about what is before -/
def separated : Bool → List Char → Bool
  | _, [] => true
  | _, ['_'] => false
  | afterDigit, '_' :: c :: cs => afterDigit && c ≠ '_' && separated true (c :: cs)
  | _, _ :: cs => separated true cs

/-- an integer in the wide form -/
def parseWide (s : String) : Except Fault Int := do
  let (negative, body) := sign s.toList
  if body = [] then .error .syntactic
  else
    let (b, digits) := base body
    let n ← magnitude b true digits 0
    if separated (b ≠ 10) digits then signed negative n else .error .syntactic

end LispMachine.Text.Integer
