/-
Runes: what a byte string spells in UTF-8.

A rune is a character with its shortest encoding or one stray byte, a byte at which no encoded character starts. A stray
byte reads as the replacement character and is one byte wide, so no byte of the input is lost or read twice.
-/
namespace LispMachine.Text

inductive Rune where
  | char (c : Char)
  | stray (byte : UInt8)
deriving DecidableEq, Repr

namespace Rune

def replacement : Char := '\uFFFD'

/-- the character a rune reads as -/
def toChar : Rune → Char
  | .char c => c
  | .stray _ => replacement

/-- the number of bytes a rune takes up -/
def width : Rune → Nat
  | .char c => c.utf8Size
  | .stray _ => 1

theorem width_pos (r : Rune) : 0 < r.width := by
  cases r with
  | char c => exact c.utf8Size_pos
  | stray b => exact Nat.one_pos

/-! ## Decoding -/

/-- a continuation byte between `low` and `high`, as its six bits -/
def tail? (b : UInt8) (low high : Nat) : Option Nat :=
  if low ≤ b.toNat ∧ b.toNat ≤ high then some (b.toNat % 64) else none

/-- the encoded character at the start of `bytes`, with its width -/
def lead? (bytes : List UInt8) : Option (Char × Nat) :=
  match bytes with
  | [] => none
  | b :: rest =>
    let n := b.toNat
    if n < 0x80 then some (Char.ofNat n, 1)
    else if 0xC2 ≤ n ∧ n ≤ 0xDF then
      match rest with
      | b1 :: _ => do
        let x ← tail? b1 0x80 0xBF
        some (Char.ofNat (n % 32 * 64 + x), 2)
      | _ => none
    else if 0xE0 ≤ n ∧ n ≤ 0xEF then
      match rest with
      | b1 :: b2 :: _ => do
        let x ← tail? b1 (if n = 0xE0 then 0xA0 else 0x80) (if n = 0xED then 0x9F else 0xBF)
        let y ← tail? b2 0x80 0xBF
        some (Char.ofNat (n % 16 * 4096 + x * 64 + y), 3)
      | _ => none
    else if 0xF0 ≤ n ∧ n ≤ 0xF4 then
      match rest with
      | b1 :: b2 :: b3 :: _ => do
        let x ← tail? b1 (if n = 0xF0 then 0x90 else 0x80) (if n = 0xF4 then 0x8F else 0xBF)
        let y ← tail? b2 0x80 0xBF
        let z ← tail? b3 0x80 0xBF
        some (Char.ofNat (n % 8 * 262144 + x * 4096 + y * 64 + z), 4)
      | _ => none
    else none

/-- the runes of `bytes` after the first `skip` bytes, which belong to a rune already read -/
def decodeFrom : Nat → List UInt8 → List Rune
  | _, [] => []
  | skip + 1, _ :: bs => decodeFrom skip bs
  | 0, b :: bs =>
    match lead? (b :: bs) with
    | some (c, n) => .char c :: decodeFrom (n - 1) bs
    | none => .stray b :: decodeFrom 0 bs

/-- the runes a byte string spells -/
def decode (bytes : List UInt8) : List Rune := decodeFrom 0 bytes

/-- the runes of a text -/
def ofString (s : String) : List Rune := s.toList.map .char

end Rune

end LispMachine.Text
