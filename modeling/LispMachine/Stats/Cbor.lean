/-
The library for the concise binary object representation, as reports rely on it.

The library goes by types: it is given a value to write, or bytes and the type of the value that they are to give. What reports
rely on is how bytes and values belong together. Every item begins with a head, which has a major type and an argument (`Head`).
An integer is a head; a text, the items of a list and the fields of a record follow one. Each field stands behind its key. A time
is the number of its whole seconds, and the time that stands for none is null, as is a list that is absent. What is written is in
canonical form: heads are as short as can be, and the keys of a record ascend (`Writes`). What is read may have longer heads, but
has to be within the limits for nesting and for lengths (`Reads`).
-/
import LispMachine.Stats.Instant

namespace LispMachine

namespace Cbor

/-- a value as the library sees it -/
inductive Data where
  | int (n : Int64)
  | uint (n : UInt64)
  | text (s : String)
  | time (t : Instant)
  /-- a list, or the absence of one -/
  | list (items : Option (List Data))
  /-- the fields of a record, each with its key -/
  | record (fields : List (Nat × Data))

/-- the type of a value -/
inductive Shape where
  | int
  | uint
  | text
  | time
  | list (item : Shape)
  | record (fields : List (Nat × Shape))

end Cbor

/-- the library -/
structure Cbor where
  marshal : Cbor.Data → Option (List UInt8)
  unmarshal : Cbor.Shape → List UInt8 → Option Cbor.Data

namespace Cbor

/-! ## Bytes -/

/-- the number that bytes make, the highest first -/
def ofBigEndian (bs : List UInt8) : Nat := bs.foldl (fun n b => n * 256 + b.toNat) 0

/-- the bytes of a text -/
def utf8 (s : String) : List UInt8 := s.toUTF8.data.toList

/-- null is a head without anything behind it -/
def null : List UInt8 := [0xF6]

/-- the most elements of an array and entries of a map -/
def maxElements : Nat := 131072

/-- how deep arrays and maps may nest -/
def maxLevels : Nat := 32

/-- the bytes of a head: the argument is in the first of them if it is less than 24, or else in the one, two, four or eight
behind it -/
inductive Head (major arg : Nat) : List UInt8 → Prop where
  | within : arg < 24 → Head major arg [UInt8.ofNat (major * 32 + arg)]
  | behind {width : Nat} {bs : List UInt8} : width < 4 → bs.length = 1 <<< width → ofBigEndian bs = arg →
      Head major arg (UInt8.ofNat (major * 32 + (24 + width)) :: bs)

/-- the bytes of a head that is as short as can be -/
def Shortest (major arg : Nat) (bs : List UInt8) : Prop :=
  Head major arg bs ∧ ∀ other, Head major arg other → bs.length ≤ other.length

/-! ## Written forms -/

/-- a field of a record with the bytes of its value -/
structure Entry where
  key : Nat
  data : Data
  bytes : List UInt8

/-- the key of a field and its value -/
def Entry.written (e : Entry) : List UInt8 := UInt8.ofNat e.key :: e.bytes

/-- short keys, in ascending order -/
def Ascending (entries : List Entry) : Prop :=
  (∀ e ∈ entries, e.key < 24) ∧ (entries.map Entry.key).Pairwise (· < ·)

/-- the canonical form of a value -/
inductive Writes : Data → List UInt8 → Prop where
  | uint {n : UInt64} {bs : List UInt8} : Shortest 0 n.toNat bs → Writes (.uint n) bs
  | int {n : Int64} {k : Nat} {bs : List UInt8} : n.toInt = k → Shortest 0 k bs → Writes (.int n) bs
  | negative {n : Int64} {k : Nat} {bs : List UInt8} : n.toInt = -1 - k → Shortest 1 k bs → Writes (.int n) bs
  | text {s : String} {head : List UInt8} : Shortest 3 (utf8 s).length head → Writes (.text s) (head ++ utf8 s)
  | noTime : Writes (.time .none) null
  | time {t : Instant} {bs : List UInt8} : t ≠ .none → Writes (.int t.seconds) bs → Writes (.time t) bs
  | noList : Writes (.list none) null
  | list {items : List (Data × List UInt8)} {head : List UInt8} : Shortest 4 items.length head →
      (∀ i ∈ items, Writes i.1 i.2) →
      Writes (.list (some (items.map Prod.fst))) (head ++ (items.map Prod.snd).flatten)
  | record {entries : List Entry} {head : List UInt8} : Ascending entries → Shortest 5 entries.length head →
      (∀ e ∈ entries, Writes e.data e.bytes) →
      Writes (.record (entries.map fun e => (e.key, e.data))) (head ++ (entries.map Entry.written).flatten)

/-- bytes and the value of a type that they give, with so many levels left for lists and records -/
inductive Reads : Nat → Shape → List UInt8 → Data → Prop where
  | uint {levels : Nat} {n : UInt64} {bs : List UInt8} : Head 0 n.toNat bs → Reads levels .uint bs (.uint n)
  | int {levels : Nat} {n : Int64} {k : Nat} {bs : List UInt8} : n.toInt = k → Head 0 k bs → Reads levels .int bs (.int n)
  | negative {levels : Nat} {n : Int64} {k : Nat} {bs : List UInt8} : n.toInt = -1 - k → Head 1 k bs →
      Reads levels .int bs (.int n)
  | text {levels : Nat} {s : String} {head : List UInt8} : Head 3 (utf8 s).length head →
      Reads levels .text (head ++ utf8 s) (.text s)
  | noTime {levels : Nat} : Reads levels .time null (.time .none)
  | time {levels : Nat} {n : Int64} {bs : List UInt8} : Reads levels .int bs (.int n) →
      Reads levels .time bs (.time { seconds := n })
  | noList {levels : Nat} {s : Shape} : Reads levels (.list s) null (.list none)
  | list {levels : Nat} {s : Shape} {items : List (Data × List UInt8)} {head : List UInt8} : items.length ≤ maxElements →
      Head 4 items.length head → (∀ i ∈ items, Reads levels s i.2 i.1) →
      Reads (levels + 1) (.list s) (head ++ (items.map Prod.snd).flatten) (.list (some (items.map Prod.fst)))
  | record {levels : Nat} {entries : List (Shape × Entry)} {head : List UInt8} : Ascending (entries.map Prod.snd) →
      Head 5 entries.length head → (∀ e ∈ entries, Reads levels e.1 e.2.bytes e.2.data) →
      Reads (levels + 1) (.record (entries.map fun e => (e.2.key, e.1)))
        (head ++ (entries.map fun e => e.2.written).flatten) (.record (entries.map fun e => (e.2.key, e.2.data)))

/-- what the library is relied on for: it writes canonical forms, and reads whatever is within its limits -/
structure Conforms (c : Cbor) : Prop where
  marshal : ∀ {d bs}, Writes d bs → c.marshal d = some bs
  unmarshal : ∀ {s bs d}, Reads maxLevels s bs d → c.unmarshal s bs = some d

end Cbor

end LispMachine
