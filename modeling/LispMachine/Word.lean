/-
The 64-bit word of a value.

A word whose top twelve bits are not `0x7FF` is a double. The others carry a tag in bits 48 to 51 and a payload in the
low 48 bits; tags 0 and 8 are left to the doubles, so that the positive infinity and the canonical not-a-number stand
for themselves. Six tags carry a heap handle; an error's handle is shifted by three bits to make room for its mood. A
reference carries a two-bit kind over 46 bits of location, for a stack slot a 16-bit stack id over a 30-bit index. An
immediate carries a 16-bit sub-tag over a 32-bit value. Tags 10 to 15 decode to nothing.

`decode (encode v) = some v` for every value within these bounds; every double that is not a number has one word. What a
word is can be told from its bits alone, without decoding it.
-/
import LispMachine.Value

namespace LispMachine

/-- a value packed into 64 bits -/
abbrev Word := UInt64

namespace Word

/-! ## Fields -/

def canonicalNaN : Word := 0x7FF8000000000000

/-- the word with a given tag and payload -/
def tagged (tag payload : Nat) : Word := UInt64.ofNat (0x7FF0000000000000 + tag * 0x1000000000000 + payload)

def tag (w : Word) : Nat := w.toNat / 0x1000000000000 % 16

def payload (w : Word) : Nat := w.toNat % 0x1000000000000

/-- what stands in a word where the handle of an object stands, whatever the word is -/
def handle (w : Word) : Nat := if w.tag = 5 then w.payload / 8 else w.payload

/-- whether the word is a double -/
def isFloat (w : Word) : Bool :=
  w.toNat / 0x10000000000000 ≠ 0x7FF || w.tag = 0 || w.tag = 8

/-- the word of the double with the given bits: all that are not numbers share one -/
def ofDoubleBits (w : Word) : Word :=
  if w.toNat / 0x10000000000000 % 2048 = 0x7FF ∧ w.toNat % 0x10000000000000 ≠ 0 then canonicalNaN else w

/-! ## Encoding -/

/-- the location part of a reference's payload with its kind -/
def placePayload : Place → Nat
  | .stack id index => id * 0x40000000 + index
  | .box h => 0x400000000000 + h
  | .car h => 2 * 0x400000000000 + h
  | .cdr h => 3 * 0x400000000000 + h

def immediate (sub val : Nat) : Word := tagged 9 (sub * 0x100000000 + val)

def moodBits : Mood → Nat
  | .signaling => 0
  | .quiet => 1

def encode : Value → Word
  | .float x => ofDoubleBits x.toBits
  | .nil => immediate 0 0
  | .t => immediate 0 1
  | .unset => immediate 3 0
  | .int n => immediate 1 n.toUInt32.toNat
  | .uint n => immediate 2 n.toNat
  | .reserved sub val => immediate sub.toNat val.toNat
  | .cons h => tagged 1 h
  | .symbol h => tagged 2 h
  | .scope h => tagged 3 h
  | .function h => tagged 4 h
  | .error h mood => tagged 5 (h * 8 + moodBits mood)
  | .box h => tagged 6 h
  | .ref p => tagged 7 (placePayload p)

/-- the word with a given tag and payload, if the payload fits -/
def tagged? (tag payload : Nat) : Option Word :=
  if payload < 0x1000000000000 then some (tagged tag payload) else none

/-- the location part of a reference's payload with its kind, if it fits -/
def placePayload? : Place → Option Nat
  | .stack id index => if index < 0x40000000 then some (placePayload (.stack id index)) else none
  | p => some (placePayload p)

/-- the word of a value, if what it carries fits -/
def encode? : Value → Option Word
  | .cons h => tagged? 1 h
  | .symbol h => tagged? 2 h
  | .scope h => tagged? 3 h
  | .function h => tagged? 4 h
  | .error h mood => tagged? 5 (h * 8 + moodBits mood)
  | .box h => tagged? 6 h
  | .ref p => (placePayload? p).bind (tagged? 7)
  | v => some (encode v)

/-! ## Decoding -/

def decodePlace (payload : Nat) : Place :=
  let loc := payload % 0x400000000000
  match payload / 0x400000000000 with
  | 0 => .stack (loc / 0x40000000) (loc % 0x40000000)
  | 1 => .box loc
  | 2 => .car loc
  | _ => .cdr loc

def decodeImmediate (sub val : Nat) : Value :=
  match sub, val with
  | 0, 0 => .nil
  | 0, 1 => .t
  | 3, 0 => .unset
  | 1, n => .int (UInt32.ofNat n).toInt32
  | 2, n => .uint (UInt32.ofNat n)
  | s, n => .reserved (UInt16.ofNat s) (UInt32.ofNat n)

/-- the value with a given tag and payload; the tags 10 to 15 mean nothing -/
def decodeTagged (tag payload : Nat) : Option Value :=
  match tag with
  | 1 => some (.cons payload)
  | 2 => some (.symbol payload)
  | 3 => some (.scope payload)
  | 4 => some (.function payload)
  | 5 => some (.error (payload / 8) (if payload % 8 = 0 then .signaling else .quiet))
  | 6 => some (.box payload)
  | 7 => some (.ref (decodePlace payload))
  | 9 => some (decodeImmediate (payload / 0x100000000) (payload % 0x100000000))
  | _ => none

/-- the value a word stands for, if it stands for one -/
def decode (w : Word) : Option Value :=
  if w.isFloat then some (.float (Float.ofBits w)) else decodeTagged w.tag w.payload

/-! ## Looking at a word -/

/-- the variant of a word; none for a word that stands for no value -/
def kind? (w : Word) : Option Kind :=
  if w.isFloat then some .float
  else match w.tag with
    | 1 => some .cons
    | 2 => some .symbol
    | 3 => some .scope
    | 4 => some .function
    | 5 => some .error
    | 6 => some .box
    | 7 => some .reference
    | 9 => some .immediate
    | _ => none

def hasTag (w : Word) (tag : Nat) : Bool := !w.isFloat && w.tag = tag

def isCons (w : Word) : Bool := w.hasTag 1

def isSymbol (w : Word) : Bool := w.hasTag 2

def isError (w : Word) : Bool := w.hasTag 5

def isReference (w : Word) : Bool := w.hasTag 7

def isSignaling (w : Word) : Bool := w.isError && w.payload % 8 = 0

/-- whether the word names an object on the heap -/
def isHeap (w : Word) : Bool := w.kind?.any (· ∈ [.cons, .symbol, .scope, .function, .error, .box])

/-- the sub-tag and the value of an immediate -/
def immediate? (w : Word) : Option (Nat × Nat) :=
  if w.hasTag 9 then some (w.payload / 0x100000000, w.payload % 0x100000000) else none

/-- whether the word is an immediate with a given sub-tag -/
def hasSubTag (w : Word) (sub : Nat) : Bool := w.immediate?.any (·.1 = sub)

def isBool (w : Word) : Bool := w.hasSubTag 0

def isInt (w : Word) : Bool := w.hasSubTag 1

def isUint (w : Word) : Bool := w.hasSubTag 2

def isNil (w : Word) : Bool := w = immediate 0 0

def isUnset (w : Word) : Bool := w = immediate 3 0

/-- the bits of the double -/
def float? (w : Word) : Option Word := if w.isFloat then some w else none

def int? (w : Word) : Option Int32 := w.immediate?.bind fun (sub, val) =>
  if sub = 1 then some (UInt32.ofNat val).toInt32 else none

def uint? (w : Word) : Option UInt32 := w.immediate?.bind fun (sub, val) =>
  if sub = 2 then some (UInt32.ofNat val) else none

def place? (w : Word) : Option Place := if w.isReference then some (decodePlace w.payload) else none

/-! ## Moods -/

/-- the word of an error in a given mood; other words stay as they are -/
def inMood (w : Word) (mood : Mood) : Word :=
  if w.isError then tagged 5 (w.payload / 8 * 8 + moodBits mood) else w

/-! ## Text -/

/-- the sixteen hexadecimal digits of a word -/
def hex (w : Word) : String :=
  let digits := Nat.toDigits 16 w.toNat
  String.ofList (List.replicate (16 - digits.length) '0' ++ digits)

end Word

end LispMachine
