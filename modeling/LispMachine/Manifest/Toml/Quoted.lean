/-
Strings in a document.

A basic string is written in double quotes, with escapes; a literal one in single quotes, without. Three quotes open a
string that may go over several lines, in which a backslash at the end of a line joins it to the next word. Such a string
ends at the first three quotes after which no fourth follows; six in a row are refused, unless the first of five is
escaped.

The text is taken to be free of stray control characters, which are refused for the whole document beforehand.
-/
import LispMachine.Text.Integer

namespace LispMachine.Toml

def isSpace (c : Char) : Bool := c = ' ' || c = '\t'

def isBreak (c : Char) : Bool := c = '\n' || c = '\r'

/-! ## Escapes -/

/-- a number in hexadecimal digits -/
def hexValue? (ds : List Char) : Option Nat :=
  ds.foldlM (fun n c => do
    let d ← Text.Integer.digit? c
    if d < 16 then some (n * 16 + d) else none) 0

/-- the character with a number in `n` hexadecimal digits, and what follows them -/
def escapedCode (n : Nat) (cs : List Char) : Option (Char × List Char) := do
  if cs.length < n then none
  else
    let v ← hexValue? (cs.take n)
    if h : v.isValidChar then some (Char.ofNatAux v h, cs.drop n) else none

/-- the character an escape stands for, after its backslash, and what follows it -/
def escaped : List Char → Option (Char × List Char)
  | 'b' :: cs => some ('\x08', cs)
  | 't' :: cs => some ('\t', cs)
  | 'n' :: cs => some ('\n', cs)
  | 'f' :: cs => some ('\x0c', cs)
  | 'r' :: cs => some ('\r', cs)
  | 'e' :: cs => some ('\x1b', cs)
  | '"' :: cs => some ('"', cs)
  | '\\' :: cs => some ('\\', cs)
  | 'x' :: cs => escapedCode 2 cs
  | 'u' :: cs => escapedCode 4 cs
  | 'U' :: cs => escapedCode 8 cs
  | _ => none

/-! ## Strings of one line -/

/-- a string up to its closing quote; the fuel bounds its length, `acc` holds what was read, the latest first -/
def shortString (quote : Char) : Nat → List Char → List Char → Option (String × List Char)
  | 0, _, _ => none
  | _ + 1, [], _ => none
  | fuel + 1, c :: cs, acc =>
    if c = quote then some (String.ofList acc.reverse, cs)
    else if c = '\\' ∧ quote = '"' then do
      let (d, cs) ← escaped cs
      shortString quote fuel cs (d :: acc)
    else if isBreak c then none
    else shortString quote fuel cs (c :: acc)

/-! ## Strings of several lines -/

/-- what follows the blanks after a backslash, if a line ends among them -/
def joined? (cs : List Char) : Option (List Char) :=
  let blank (c : Char) : Bool := isSpace c || isBreak c
  if (cs.takeWhile blank).contains '\n' then some (cs.dropWhile blank) else none

/-- whether three more quotes and a fourth are too many, after a source text given from its end -/
def tooManyQuotes (quote : Char) : List Char → Bool
  | a :: b :: rest => a = quote && b = quote && !(quote = '"' && rest.head? = some '\\')
  | _ => false

/-- a string up to its three closing quotes; `source` is its written form so far and `acc` what it stands for, both with
the latest first -/
def longString (quote : Char) : Nat → List Char → List Char → List Char → Option (String × List Char)
  | 0, _, _, _ => none
  | _ + 1, [], _, _ => none
  | fuel + 1, c :: cs, source, acc =>
    if c = quote ∧ cs.take 2 = [quote, quote] then
      if (cs.drop 2).head? ≠ some quote then some (String.ofList acc.reverse, cs.drop 2)
      else if tooManyQuotes quote source then none
      else longString quote fuel cs (c :: source) (c :: acc)
    else if c = '\\' ∧ quote = '"' then
      match joined? cs with
      | some rest => longString quote fuel rest [] acc
      | none => do
        let (d, rest) ← escaped cs
        longString quote fuel rest ((cs.take (cs.length - rest.length)).reverse ++ c :: source) (d :: acc)
    else longString quote fuel cs (c :: source) (c :: acc)

/-- a line break right after the opening quotes does not count -/
def dropFirstBreak : List Char → List Char
  | '\n' :: cs => cs
  | '\r' :: '\n' :: cs => cs
  | cs => cs

/-- a string whose first quote has been read -/
def stringAfter (quote : Char) (cs : List Char) : Option (String × List Char) :=
  if cs.take 2 = [quote, quote] then longString quote cs.length (dropFirstBreak (cs.drop 2)) [] []
  else shortString quote (cs.length + 1) cs []

end LispMachine.Toml
