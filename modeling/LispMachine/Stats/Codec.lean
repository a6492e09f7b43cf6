/-
An executable codec for the concise binary object representation.

A value is written as one data item, and bytes are read as one item that is then taken for a value of the given type. More can
be read than is ever written: numbers and texts may have tags, a record may lack fields or have others, and null stands for the
value that has nothing in it.
-/
import LispMachine.Stats.Item

namespace LispMachine

/-- the time an item without tags gives -/
def Instant.ofPlain? : Item → Option Instant
  | .uint n => some { seconds := Int64.ofNat n }
  | .negative n => if n < 0x8000000000000000 then some { seconds := Int64.ofInt (-1 - (n : Int)) } else Option.none
  | .float x => some (Instant.ofFloat x)
  | .text chunks => (Item.chunksText? chunks).bind Instant.parse?
  | item => if item.isNull then some Instant.none else Option.none

/-- the time an item gives, which may have tags; of these only the outermost has to fit what it stands before -/
def Instant.ofItem? : Item → Option Instant
  | .tag n content =>
    if n = Item.selfDescribed then Instant.ofItem? content
    else if Item.tagAdmits n content then Instant.ofPlain? content.withoutTags
    else Option.none
  | item => Instant.ofPlain? item

namespace Item

open Cbor (Data Shape)

/-! ## Writing -/

mutual

def ofData : Data → Item
  | .int n => ofInt n.toInt
  | .uint n => .uint n.toNat
  | .text s => ofString s
  | .time t => if t = Instant.none then null else ofInt t.seconds.toInt
  | .list none => null
  | .list (some items) => .array (ofDataList items)
  | .record fields => .map (ofFields fields)

def ofDataList : List Data → List Item
  | [] => []
  | d :: ds => ofData d :: ofDataList ds

/-- keys and values in turn -/
def ofFields : List (Nat × Data) → List Item
  | [] => []
  | (k, d) :: fields => .uint k :: ofData d :: ofFields fields

end

/-! ## Reading -/

mutual

/-- the value of a type that an item gives -/
def toData? : Shape → Item → Option Data
  | .int, item => item.toInt64?.map .int
  | .uint, item => item.toUInt64?.map .uint
  | .text, item => item.toString?.map .text
  | .time, item => (Instant.ofItem? item).map .time
  | .list s, item => do
    match ← item.untagged with
    | .array items => return .list (some (← items.mapM (toData? s)))
    | item => if item.isNull then some (.list none) else none
  | .record fields, item => do return .record (← toFields? fields (← item.toRecord?))

def toFields? : List (Nat × Shape) → List (String × Item) → Option (List (Nat × Data))
  | [], _ => some []
  | (k, s) :: fields, record => do
    let d ← toData? s (field record k)
    let ds ← toFields? fields record
    return (k, d) :: ds

end

def codec : Cbor where
  marshal d := some (ofData d).write
  unmarshal s bs := (read? bs).bind (toData? s)

end Item

end LispMachine
