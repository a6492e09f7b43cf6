/-
The executable codec conforms to what a library is relied on for.

Of a value that has a canonical form the codec writes that form (`write_ofData`). Bytes that give a value of some type are the
form of an item that the codec takes for this value (`exists_item`); keys are looked up by their names, and short ones have
different names.
-/
import LispMachine.Proofs.Items
import LispMachine.Stats.Codec

namespace LispMachine

namespace Cbor

/-- there are only so many short keys -/
theorem length_le_of_short {keys : List Nat} (hshort : ∀ k ∈ keys, k < 24) (hsorted : keys.Pairwise (· < ·)) :
    keys.length ≤ 24 := by
  have hsub : keys ⊆ List.range 24 := fun k hk => List.mem_range.2 (hshort k hk)
  have hnodup : keys.Nodup := hsorted.imp Nat.ne_of_lt
  exact (hnodup.subperm hsub).length_le.trans (by rw [List.length_range])

theorem Ascending.length_le {entries : List Entry} (hkeys : Ascending entries) : entries.length ≤ maxElements := by
  have hle := length_le_of_short (List.forall_mem_map.2 hkeys.1) hkeys.2
  rw [List.length_map] at hle
  exact hle.trans (by decide)

end Cbor

namespace Item

open Cbor (Data Shape Entry Head Shortest Writes Reads Ascending utf8 maxElements maxLevels)

/-! ## Writing -/

theorem ofDataList_eq (ds : List Data) : ofDataList ds = ds.map ofData := by
  induction ds with
  | nil => rfl
  | cons d ds ih => rw [ofDataList, ih, List.map_cons]

theorem writeAll_eq (items : List Item) : writeAll items = (items.map write).flatten := by
  induction items with
  | nil => rfl
  | cons i items ih => rw [writeAll, ih, List.map_cons, List.flatten_cons]

theorem ofInt_of_neg {n : Int} {k : Nat} (h : n = -1 - k) : ofInt n = .negative k := by
  have heq : n = .negSucc k := by omega
  rw [heq]
  rfl

/-- the keys and values of a record are written in turn -/
theorem writeAll_ofFields {entries : List Entry} (hkeys : ∀ e ∈ entries, e.key < 24)
    (hentries : ∀ e ∈ entries, (ofData e.data).write = e.bytes) :
    writeAll (ofFields (entries.map fun e => (e.key, e.data))) = (entries.map Entry.written).flatten := by
  induction entries with
  | nil => rfl
  | cons e entries ih =>
    rw [List.forall_mem_cons] at hkeys hentries
    have hkey : write (.uint e.key) = [UInt8.ofNat e.key] := by
      rw [write, writeHead]
      simp [hkeys.1]
    rw [List.map_cons, List.map_cons, List.flatten_cons, ofFields, writeAll, writeAll, ih hkeys.2 hentries.2, hkey, hentries.1]
    rfl

theorem length_ofFields (fields : List (Nat × Data)) : (ofFields fields).length = 2 * fields.length := by
  induction fields with
  | nil => rfl
  | cons f fields ih =>
    obtain ⟨k, d⟩ := f
    rw [ofFields, List.length_cons, List.length_cons, List.length_cons, ih]
    omega

/-- of a value in canonical form that form is written -/
theorem write_ofData {d : Data} {bs : List UInt8} (h : Writes d bs) : (ofData d).write = bs := by
  induction h with
  | uint hhead => exact hhead.eq_writeHead.symm
  | int hn hhead => rw [ofData, hn]; exact hhead.eq_writeHead.symm
  | negative hn hhead => rw [ofData, ofInt_of_neg hn]; exact hhead.eq_writeHead.symm
  | text hhead =>
    rw [ofData, ofString, write, hhead.eq_writeHead]
    simp
  | noTime => rfl
  | time hsome _ ih => rw [ofData, if_neg hsome]; exact ih
  | noList => rfl
  | @list items head hhead _ ih =>
    have hitems : ((items.map Prod.fst).map ofData).map write = items.map Prod.snd := by
      rw [List.map_map, List.map_map]
      exact List.map_congr_left ih
    rw [ofData, ofDataList_eq, write, writeAll_eq, hitems, List.length_map, List.length_map, hhead.eq_writeHead]
  | @record entries head hkeys hhead _ ih =>
    rw [ofData, write, writeAll_ofFields hkeys.1 ih, length_ofFields, List.length_map,
      Nat.mul_div_cancel_left _ (by decide), hhead.eq_writeHead]

/-! ## Reading -/

theorem toInt?_uint (k : Nat) : (uint k).toInt? = some (k : Int) := rfl

theorem toInt?_negative (k : Nat) : (negative k).toInt? = some (-1 - (k : Int)) := rfl

theorem toInt64?_of {item : Item} {n : Int} (hint : item.toInt? = some n)
    (hrange : -0x8000000000000000 ≤ n ∧ n < 0x8000000000000000) : item.toInt64? = some (Int64.ofInt n) :=
  Option.bind_eq_some_iff.2 ⟨n, hint, if_pos hrange⟩

theorem toUInt64?_of {item : Item} {n : Int} (hint : item.toInt? = some n) (hrange : 0 ≤ n ∧ n < 0x10000000000000000) :
    item.toUInt64? = some (UInt64.ofNat n.toNat) :=
  Option.bind_eq_some_iff.2 ⟨n, hint, if_pos hrange⟩

theorem toInt64?_eq {item : Item} {n : Int64} (hint : item.toInt? = some n.toInt) : item.toInt64? = some n := by
  have hread := toInt64?_of hint ⟨n.le_toInt, n.toInt_lt⟩
  rwa [Int64.ofInt_toInt] at hread

theorem toUInt64?_uint (x : UInt64) : (uint x.toNat).toUInt64? = some x := by
  have hlt := x.toNat_lt
  have hread := toUInt64?_of (toInt?_uint x.toNat) ⟨Int.natCast_nonneg _, by omega⟩
  rwa [Int.toNat_natCast, UInt64.ofNat_toNat] at hread

theorem toString?_text (s : String) : (text [utf8 s]).toString? = some s := by
  have hutf8 : String.fromUTF8? s.toByteArray = some s := dif_pos s.isValidUTF8
  simp [toString?, utf8, untagged, chunksText?, hutf8]

/-- the field that a short key names -/
theorem fieldName?_uint {k : Nat} (hk : k < 24) : fieldName? (.uint k) = some (toString k) := by
  have hsame : (Int64.ofNat k).toInt = k := Int64.toInt_ofNat_of_lt (by omega)
  rw [fieldName?, hsame]
  rfl

/-- short keys have different names -/
theorem toString_inj_short : ∀ j < 24, ∀ k < 24, toString j = toString k → j = k := by decide +kernel

/-- a field is found under its key -/
theorem field_of_ascending {entries : List (Shape × Entry)} {item : Shape × Entry → Item}
    (hkeys : Ascending (entries.map Prod.snd)) {e : Shape × Entry} (he : e ∈ entries) :
    field (entries.map fun e => (toString e.2.key, item e)) e.2.key = item e := by
  obtain ⟨hshort, hsorted⟩ := hkeys
  rw [List.forall_mem_map] at hshort
  rw [List.map_map, List.pairwise_map] at hsorted
  unfold field
  induction entries with
  | nil => cases he
  | cons f entries ih =>
    rw [List.pairwise_cons] at hsorted
    rw [List.map_cons, List.lookup_cons]
    rcases List.mem_cons.1 he with rfl | he
    · simp
    · have hne : toString e.2.key ≠ toString f.2.key := fun heq => by
        have hsame := toString_inj_short _ (hshort e (List.mem_cons_of_mem f he)) _ (hshort f List.mem_cons_self) heq
        have hlt := hsorted.1 e he
        simp only [Function.comp_apply] at hlt
        omega
      rw [beq_eq_false_iff_ne.2 hne]
      exact ih he (fun e he => hshort e (List.mem_cons_of_mem f he)) hsorted.2

/-- the bytes of a field's key and of its value, with their items -/
def fieldForms (item : Shape × Entry → Item) (e : Shape × Entry) : List (List UInt8 × Item) :=
  [([UInt8.ofNat e.2.key], .uint e.2.key), (e.2.bytes, item e)]

variable {item : Shape × Entry → Item}

theorem length_fieldForms (entries : List (Shape × Entry)) :
    (entries.flatMap (fieldForms item)).length = 2 * entries.length := by
  induction entries with
  | nil => rfl
  | cons e entries ih =>
    rw [List.flatMap_cons, List.length_append, ih, List.length_cons, fieldForms, List.length_cons, List.length_singleton]
    omega

theorem bytes_fieldForms (entries : List (Shape × Entry)) :
    ((entries.flatMap (fieldForms item)).map Prod.fst).flatten = (entries.map fun e => e.2.written).flatten := by
  induction entries with
  | nil => rfl
  | cons e entries ih =>
    rw [List.flatMap_cons, List.map_append, List.flatten_append, ih, List.map_cons, List.flatten_cons]
    simp [fieldForms, Entry.written]

/-- the record that keys and values in turn are -/
theorem toRecord?_fieldForms {entries : List (Shape × Entry)} (hkeys : ∀ e ∈ entries, e.2.key < 24) :
    (Item.map ((entries.flatMap (fieldForms item)).map Prod.snd)).toRecord? =
      some (entries.map fun e => (toString e.2.key, item e)) := by
  have hpairs : pairs ((entries.flatMap (fieldForms item)).map Prod.snd) =
      entries.map fun e => (Item.uint e.2.key, item e) := by
    clear hkeys
    induction entries with
    | nil => rfl
    | cons e entries ih => rw [List.flatMap_cons, List.map_append, List.map_cons, ← ih]; rfl
  simp only [toRecord?, untagged, Option.bind_eq_bind, Option.bind_some, hpairs]
  clear hpairs
  induction entries with
  | nil => rfl
  | cons e entries ih =>
    rw [List.forall_mem_cons] at hkeys
    rw [List.map_cons, List.mapM_cons, fieldName?_uint hkeys.1, ih hkeys.2]
    rfl

theorem toFields?_eq {entries : List (Shape × Entry)} {record : List (String × Item)}
    (h : ∀ e ∈ entries, toData? e.1 (field record e.2.key) = some e.2.data) :
    toFields? (entries.map fun e => (e.2.key, e.1)) record = some (entries.map fun e => (e.2.key, e.2.data)) := by
  induction entries with
  | nil => rfl
  | cons e entries ih =>
    rw [List.forall_mem_cons] at h
    rw [List.map_cons, List.map_cons, toFields?, h.1, ih h.2]
    rfl

theorem mapM_toData? {s : Shape} {items : List (Data × List UInt8)} {item : Data × List UInt8 → Item}
    (h : ∀ i ∈ items, toData? s (item i) = some i.1) : (items.map item).mapM (toData? s) = some (items.map Prod.fst) := by
  induction items with
  | nil => rfl
  | cons i items ih =>
    rw [List.forall_mem_cons] at h
    rw [List.map_cons, List.map_cons, List.mapM_cons, h.1, ih h.2]
    rfl

/-- the time that an integer gives -/
theorem ofItem?_uint {n : Int64} {k : Nat} (hn : n.toInt = k) : Instant.ofItem? (.uint k) = some { seconds := n } := by
  have hsame : Int64.ofNat k = n := by rw [← Int64.ofInt_toInt n, hn]; rfl
  rw [← hsame]
  rfl

theorem ofItem?_negative {n : Int64} {k : Nat} (hn : n.toInt = -1 - k) :
    Instant.ofItem? (.negative k) = some { seconds := n } := by
  have hlow := n.le_toInt
  have hsame : Int64.ofInt (-1 - (k : Int)) = n := by rw [← hn, Int64.ofInt_toInt]
  have hread : Instant.ofItem? (.negative k) = some { seconds := Int64.ofInt (-1 - (k : Int)) } := if_pos (by omega)
  rw [hread, hsame]

/-- bytes that give a value are the form of an item that stands for it -/
theorem exists_item {levels : Nat} {s : Shape} {bs : List UInt8} {d : Data} (h : Reads levels s bs d) :
    ∃ item, Forms levels bs item ∧ toData? s item = some d := by
  have hitem : Nonempty Item := ⟨null⟩
  induction h with
  | @uint _ n _ hhead => exact ⟨_, .uint hhead, congrArg (Option.map Data.uint) (toUInt64?_uint n)⟩
  | @int _ n k _ hn hhead =>
    have hint : (uint k).toInt? = some n.toInt := hn ▸ toInt?_uint k
    exact ⟨_, .uint hhead, congrArg (Option.map Data.int) (toInt64?_eq hint)⟩
  | @negative _ n k _ hn hhead =>
    have hint : (negative k).toInt? = some n.toInt := hn ▸ toInt?_negative k
    exact ⟨_, .negative hhead, congrArg (Option.map Data.int) (toInt64?_eq hint)⟩
  | @text _ s _ hhead => exact ⟨_, .text hhead, congrArg (Option.map Data.text) (toString?_text s)⟩
  | noTime => exact ⟨_, .null, rfl⟩
  | time hint _ =>
    cases hint with
    | int hn hhead => exact ⟨_, .uint hhead, congrArg (Option.map Data.time) (ofItem?_uint hn)⟩
    | negative hn hhead => exact ⟨_, .negative hhead, congrArg (Option.map Data.time) (ofItem?_negative hn)⟩
  | noList => exact ⟨_, .null, rfl⟩
  | @list levels s items head hlength hhead _ ih =>
    choose! item hform hdata using ih
    have hforms : ∀ f ∈ items.map fun i => (i.2, item i), Forms levels f.1 f.2 := List.forall_mem_map.2 hform
    have harray := Forms.array (by rwa [List.length_map]) (by rwa [List.length_map]) hforms
    rw [List.map_map, List.map_map] at harray
    refine ⟨_, harray, ?_⟩
    have hitems : (items.map item).mapM (toData? s) = some (items.map Prod.fst) := mapM_toData? hdata
    rw [toData?]
    simp only [untagged, Option.bind_eq_bind, Option.bind_some]
    exact Option.bind_eq_some_iff.2 ⟨_, hitems, rfl⟩
  | @record levels entries head hkeys hhead _ ih =>
    choose! item hform hdata using ih
    have hshort : ∀ e ∈ entries, e.2.key < 24 := List.forall_mem_map.1 hkeys.1
    have hforms : ∀ f ∈ entries.flatMap (fieldForms item), Forms levels f.1 f.2 := by
      intro f hf
      obtain ⟨e, he, hf⟩ := List.mem_flatMap.1 hf
      rcases List.mem_cons.1 hf with rfl | hf
      · have hkey : Head 0 e.2.key [UInt8.ofNat (0 * 32 + e.2.key)] := .within (hshort e he)
        rw [Nat.zero_mul, Nat.zero_add] at hkey
        exact .uint hkey
      · obtain rfl := List.mem_singleton.1 hf
        exact hform e he
    have hmap := Forms.map (length_fieldForms entries) (List.length_map _ ▸ hkeys.length_le) hhead hforms
    rw [bytes_fieldForms] at hmap
    refine ⟨_, hmap, ?_⟩
    have hvalues : ∀ e ∈ entries,
        toData? e.1 (field (entries.map fun e => (toString e.2.key, item e)) e.2.key) = some e.2.data := fun e he => by
      rw [field_of_ascending hkeys he]
      exact hdata e he
    have hfields := toFields?_eq hvalues
    rw [toData?, toRecord?_fieldForms hshort]
    simp only [Option.bind_eq_bind, Option.bind_some, hfields]
    rfl

/-- The codec writes canonical forms, and reads whatever is within the limits. -/
theorem codec_conforms : codec.Conforms where
  marshal h := congrArg some (write_ofData h)
  unmarshal h := by
    obtain ⟨item, hform, hdata⟩ := exists_item h
    exact Option.bind_eq_some_iff.2 ⟨item, hform.read?_eq, hdata⟩

end Item

end LispMachine
