/-
Data items in the concise binary object representation.

An item begins with a head: a major type in the top three bits of the first byte, and an argument that is either in the
other five bits or in the one, two, four or eight bytes that follow, the highest first. Texts, byte strings, arrays and
maps may have an indefinite length, and then end in a break. Writing uses the shortest heads and definite lengths.
Reading takes any well-formed item whose nesting and sizes are within the limits.
-/
import LispMachine.Stats.Cbor

namespace LispMachine

/-- a data item -/
inductive Item where
  | uint (n : Nat)
  /-- the integer `-1 - n` -/
  | negative (n : Nat)
  | bytes (bs : List UInt8)
  /-- a text, in the chunks it came in -/
  | text (chunks : List (List UInt8))
  | array (items : List Item)
  /-- keys and values in turn -/
  | map (entries : List Item)
  | tag (n : Nat) (content : Item)
  | simple (n : Nat)
  | float (x : Float)

namespace Item

open Cbor (ofBigEndian utf8 maxLevels maxElements)

def null : Item := .simple 22

/-- null and undefined stand for nothing -/
def isNull : Item → Bool
  | .simple n => n = 22 ∨ n = 23
  | _ => false

/-- the item for an integer -/
def ofInt : Int → Item
  | .ofNat n => .uint n
  | .negSucc n => .negative n

def ofString (s : String) : Item := .text [utf8 s]

/-! ## Heads -/

/-- the `n` bytes of a number, the highest first -/
def bigEndian : Nat → Nat → List UInt8
  | 0, _ => []
  | n + 1, v => bigEndian n (v / 256) ++ [UInt8.ofNat v]

/-- the shortest head with a major type and an argument -/
def writeHead (major arg : Nat) : List UInt8 :=
  let first (info : Nat) : UInt8 := UInt8.ofNat (major * 32 + info)
  if arg < 24 then [first arg]
  else if arg < 256 then first 24 :: bigEndian 1 arg
  else if arg < 65536 then first 25 :: bigEndian 2 arg
  else if arg < 0x100000000 then first 26 :: bigEndian 4 arg
  else first 27 :: bigEndian 8 arg

/-- the first `n` bytes and the rest, if there are that many -/
def takeBytes (n : Nat) (bs : List UInt8) : Option (List UInt8 × List UInt8) :=
  if bs.length < n then none else some (bs.splitAt n)

/-- the number of bytes that hold the argument, for the five low bits of a head -/
def argSize? (info : Nat) : Option Nat :=
  if info < 24 then some 0
  else if info = 24 then some 1
  else if info = 25 then some 2
  else if info = 26 then some 4
  else if info = 27 then some 8
  else none

/-- the argument of a head whose first byte has been read -/
def readArg (info : Nat) (bs : List UInt8) : Option (Nat × List UInt8) := do
  let size ← argSize? info
  let (arg, rest) ← takeBytes size bs
  return (if size = 0 then info else ofBigEndian arg, rest)

/-! ## Writing -/

mutual

def write : Item → List UInt8
  | .uint n => writeHead 0 n
  | .negative n => writeHead 1 n
  | .bytes bs => writeHead 2 bs.length ++ bs
  | .text chunks => writeHead 3 chunks.flatten.length ++ chunks.flatten
  | .array items => writeHead 4 items.length ++ writeAll items
  | .map entries => writeHead 5 (entries.length / 2) ++ writeAll entries
  | .tag n content => writeHead 6 n ++ write content
  | .simple n => writeHead 7 n
  | .float x => UInt8.ofNat 0xFB :: bigEndian 8 x.toBits.toNat

def writeAll : List Item → List UInt8
  | [] => []
  | item :: items => write item ++ writeAll items

end

/-! ## Reading -/

/-- the byte that ends an item of indefinite length -/
def breakByte : UInt8 := 0xFF

/-- the double with the bits of a half -/
def ofHalf (bits : Nat) : Float :=
  let sign : Float := if bits / 32768 % 2 = 1 then -1.0 else 1.0
  let exponent : Nat := bits / 1024 % 32
  let fraction : Nat := bits % 1024
  let magnitude : Float :=
    if exponent = 0 then (Float.ofNat fraction).scaleB (-24)
    else if exponent = 31 then if fraction = 0 then 1.0 / 0.0 else 0.0 / 0.0
    else (Float.ofNat (1024 + fraction)).scaleB ((exponent : Int) - 25)
  sign * magnitude

/-- an item without content of its own, from its head -/
def ofSimpleHead (info arg : Nat) : Option Item :=
  if info < 24 then some (.simple arg)
  else if info = 24 then if arg < 32 then none else some (.simple arg)
  else if info = 25 then some (.float (ofHalf arg))
  else if info = 26 then some (.float (Float32.ofBits (UInt32.ofNat arg)).toFloat)
  else some (.float (Float.ofBits (UInt64.ofNat arg)))

/-- the chunks of a text or byte string of indefinite length -/
def readChunks (major : Nat) : Nat → List UInt8 → Option (List (List UInt8) × List UInt8)
  | 0, _ => none
  | _ + 1, [] => none
  | n + 1, b :: bs =>
    if b = breakByte then some ([], bs)
    else if b.toNat / 32 ≠ major then none
    else do
      let (length, bs) ← readArg (b.toNat % 32) bs
      let (chunk, bs) ← takeBytes length bs
      let (chunks, bs) ← readChunks major n bs
      return (chunk :: chunks, bs)

/-- `n` items with a reader for one -/
def readMany (one : List UInt8 → Option (Item × List UInt8)) : Nat → List UInt8 → Option (List Item × List UInt8)
  | 0, bs => some ([], bs)
  | n + 1, bs => do
    let (item, bs) ← one bs
    let (items, bs) ← readMany one n bs
    return (item :: items, bs)

/-- items up to a break, at most `n` of them, with a reader for one -/
def readUntilBreak (one : List UInt8 → Option (Item × List UInt8)) :
    Nat → List UInt8 → Option (List Item × List UInt8)
  | _, [] => none
  | 0, b :: bs => if b = breakByte then some ([], bs) else none
  | n + 1, b :: bs =>
    if b = breakByte then some ([], bs)
    else do
      let (item, bs) ← one (b :: bs)
      let (items, bs) ← readUntilBreak one n bs
      return (item :: items, bs)

/-- whether the next item is a tag -/
def startsTag : List UInt8 → Bool
  | b :: _ => b.toNat / 32 = 6
  | [] => false

/-- Read one item. The fuel bounds the nesting; `levels` are left for arrays, maps and tags directly inside tags. -/
def readWithin : Nat → Nat → List UInt8 → Option (Item × List UInt8)
  | 0, _, _ => none
  | _ + 1, _, [] => none
  | fuel + 1, levels, b :: bs =>
    let major := b.toNat / 32
    let info := b.toNat % 32
    if info = 31 then
      if major = 2 then (readChunks 2 (bs.length + 1) bs).map fun (chunks, bs) => (.bytes chunks.flatten, bs)
      else if major = 3 then (readChunks 3 (bs.length + 1) bs).map fun (chunks, bs) => (.text chunks, bs)
      else if levels = 0 then none
      else if major = 4 then
        (readUntilBreak (readWithin fuel (levels - 1)) maxElements bs).map fun (items, bs) => (.array items, bs)
      else if major = 5 then do
        let (entries, bs) ← readUntilBreak (readWithin fuel (levels - 1)) (2 * maxElements) bs
        if entries.length % 2 = 0 then some (.map entries, bs) else none
      else none
    else do
      let (arg, bs) ← readArg info bs
      match major with
      | 0 => some (.uint arg, bs)
      | 1 => some (.negative arg, bs)
      | 2 => (takeBytes arg bs).map fun (content, bs) => (.bytes content, bs)
      | 3 => (takeBytes arg bs).map fun (content, bs) => (.text [content], bs)
      | 4 =>
        if levels = 0 ∨ maxElements < arg then none
        else (readMany (readWithin fuel (levels - 1)) arg bs).map fun (items, bs) => (.array items, bs)
      | 5 =>
        if levels = 0 ∨ maxElements < arg then none
        else (readMany (readWithin fuel (levels - 1)) (2 * arg) bs).map fun (entries, bs) => (.map entries, bs)
      | 6 =>
        if startsTag bs then
          if levels = 0 then none
          else (readWithin fuel (levels - 1) bs).map fun (content, bs) => (.tag arg content, bs)
        else (readWithin fuel levels bs).map fun (content, bs) => (.tag arg content, bs)
      | _ => (ofSimpleHead info arg).map fun item => (item, bs)

/-- read a text of bytes that is exactly one item -/
def read? (bs : List UInt8) : Option Item :=
  match readWithin (bs.length + 1) maxLevels bs with
  | some (item, []) => some item
  | _ => none

/-! ## What items stand for -/

/-- the tag that only says that its content is in this representation -/
def selfDescribed : Nat := 55799

/-- whether a tag with a fixed meaning has content of the right type -/
def tagAdmits (n : Nat) (content : Item) : Bool :=
  match n, content with
  | 0, .text _ => true
  | 0, _ => false
  | 1, .uint _ | 1, .negative _ | 1, .float _ => true
  | 1, _ => false
  | 2, .bytes _ | 3, .bytes _ => true
  | 2, _ | 3, _ => false
  | _, _ => true

/-- the item behind its tags, whatever they are -/
def withoutTags : Item → Item
  | .tag _ content => withoutTags content
  | item => item

/-- the item behind its tags; a byte string tagged as a number is that number -/
def untagged : Item → Option Item
  | .tag n content =>
    if n = selfDescribed then untagged content
    else if !tagAdmits n content then none
    else match n, content with
      | 2, .bytes bs => if ofBigEndian bs < 0x10000000000000000 then some (.uint (ofBigEndian bs)) else none
      | 3, .bytes bs => if ofBigEndian bs < 0x8000000000000000 then some (.negative (ofBigEndian bs)) else none
      | _, content => untagged content
  | item => some item

/-- the text of chunks that are each well encoded -/
def chunksText? (chunks : List (List UInt8)) : Option String := do
  let texts ← chunks.mapM fun chunk => String.fromUTF8? ⟨chunk.toArray⟩
  return String.join texts

/-- the integer an item stands for; null stands for zero -/
def toInt? (item : Item) : Option Int := do
  match ← untagged item with
  | .uint n => some n
  | .negative n => some (-1 - (n : Int))
  | .simple n => if isNull (.simple n) then some 0 else if n = 20 ∨ n = 21 then none else some n
  | _ => none

/-- a signed integer of 64 bits -/
def toInt64? (item : Item) : Option Int64 := do
  let n ← toInt? item
  if -0x8000000000000000 ≤ n ∧ n < 0x8000000000000000 then some (Int64.ofInt n) else none

/-- an unsigned integer of 64 bits -/
def toUInt64? (item : Item) : Option UInt64 := do
  let n ← toInt? item
  if 0 ≤ n ∧ n < 0x10000000000000000 then some (UInt64.ofNat n.toNat) else none

/-- a text; null stands for the empty one -/
def toString? (item : Item) : Option String := do
  match ← untagged item with
  | .text chunks => chunksText? chunks
  | item => if item.isNull then some "" else none

/-! ## Records

A record is a map whose keys are integers. A key may also be a text; one that spells an integer in decimal counts as
that integer. Keys that name no field are passed over. -/

/-- the entries of a map as pairs -/
def pairs : List Item → List (Item × Item)
  | k :: v :: rest => (k, v) :: pairs rest
  | _ => []

/-- the field a key names, or none if it cannot be a key at all; a large positive integer is taken in 64 bits -/
def fieldName? : Item → Option String
  | .uint n => some (toString (Int64.ofNat n).toInt)
  | .negative n => if n < 0x8000000000000000 then some (toString (-1 - (n : Int))) else none
  | .text chunks => chunksText? chunks
  | _ => none

/-- the fields of a record by name, or none if a key cannot be one; null is a record without fields -/
def toRecord? (item : Item) : Option (List (String × Item)) := do
  match ← untagged item with
  | .map entries => (pairs entries).mapM fun (k, v) => (fieldName? k).map fun name => (name, v)
  | item => if item.isNull then some [] else none

/-- a field of a record; of fields with one name the first counts, and a missing one is null -/
def field (record : List (String × Item)) (k : Nat) : Item := (record.lookup (toString k)).getD null

end Item

end LispMachine
