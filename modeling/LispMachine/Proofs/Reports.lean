/-
Reports, written and read back by a library.

A report is handed to a library as nested records whose fields are integers of either sign, texts and times. What is written for
each of them is read back: an integer of 64 bits whatever its size, a text, and of a time its whole seconds. So is a list, item by
item, and a record, field by field (`comesBack_list`, `comesBack_record`). So a report comes back field for field
(`Report.unmarshal?_marshal?`), with the list of passes present or absent as it was, whatever library does the work as long as it
writes canonical forms and reads what is within its limits. The executable codec is such a library (`Item.codec_conforms`).
-/
import LispMachine.Proofs.Conformance
import LispMachine.Stats.Report

namespace LispMachine

/-! ## Fields -/

namespace Cbor

/-- the canonical form of a value is read back, with so many levels left, as another value -/
def ComesBack (levels : Nat) (s : Shape) (d d' : Data) : Prop := ∃ bs, Writes d bs ∧ Reads levels s bs d'

variable {levels : Nat}

theorem comesBack_uint (n : UInt64) : ComesBack levels .uint (.uint n) (.uint n) :=
  have ⟨bs, hbs⟩ := exists_shortest n.toNat_lt
  ⟨bs, .uint hbs, .uint hbs.1⟩

theorem comesBack_int (n : Int64) : ComesBack levels .int (.int n) (.int n) := by
  have hlow := n.le_toInt
  have hhigh := n.toInt_lt
  rcases lt_or_ge n.toInt 0 with hneg | hpos
  · have hn : n.toInt = -1 - ((-1 - n.toInt).toNat : Int) := by omega
    obtain ⟨bs, hbs⟩ : ∃ bs, Shortest 1 (-1 - n.toInt).toNat bs := exists_shortest (by unfold argLimit; omega)
    exact ⟨bs, .negative hn hbs, .negative hn hbs.1⟩
  · have hn : n.toInt = (n.toInt.toNat : Int) := by omega
    obtain ⟨bs, hbs⟩ : ∃ bs, Shortest 0 n.toInt.toNat bs := exists_shortest (by unfold argLimit; omega)
    exact ⟨bs, .int hn hbs, .int hn hbs.1⟩

/-- a text whose length fits into a head, as that of any text does that a memory of 64-bit addresses can hold -/
def Writable (s : String) : Prop := s.utf8ByteSize < argLimit

instance (s : String) : Decidable (Writable s) := inferInstanceAs (Decidable (_ < _))

theorem comesBack_text {s : String} (hs : Writable s) : ComesBack levels .text (.text s) (.text s) :=
  have ⟨head, hhead⟩ : ∃ head, Shortest 3 (utf8 s).length head := exists_shortest hs
  ⟨head ++ utf8 s, .text hhead, .text hhead.1⟩

end Cbor

/-- the time at the whole second -/
def Instant.atSecond (t : Instant) : Instant := { seconds := t.seconds }

namespace Cbor

variable {levels : Nat}

theorem comesBack_time (t : Instant) : ComesBack levels .time (.time t) (.time t.atSecond) := by
  by_cases hnone : t = .none
  · subst hnone
    exact ⟨null, .noTime, .noTime⟩
  · obtain ⟨bs, hwrites, hreads⟩ := @comesBack_int levels t.seconds
    exact ⟨bs, .time hnone hwrites, .time hreads⟩

/-! ## Lists and records -/

theorem comesBack_noList {s : Shape} : ComesBack levels (.list s) (.list none) (.list none) := ⟨null, .noList, .noList⟩

theorem comesBack_list {α : Type} {s : Shape} {items : List α} {data back : α → Data} (hlength : items.length ≤ maxElements)
    (hitems : ∀ i ∈ items, ComesBack levels s (data i) (back i)) :
    ComesBack (levels + 1) (.list s) (.list (some (items.map data))) (.list (some (items.map back))) := by
  choose! bs hwrites hreads using hitems
  obtain ⟨head, hhead⟩ : ∃ head, Shortest 4 items.length head := exists_shortest (lt_of_le_of_lt hlength (by decide))
  have hwritten := @Writes.list (items.map fun i => (data i, bs i)) head (by rwa [List.length_map])
    (List.forall_mem_map.2 hwrites)
  have hread := @Reads.list levels s (items.map fun i => (back i, bs i)) head (by rwa [List.length_map])
    (by rw [List.length_map]; exact hhead.1) (List.forall_mem_map.2 hreads)
  rw [List.map_map, List.map_map] at hwritten hread
  exact ⟨_, hwritten, hread⟩

/-- a field of a record, with what is written and what is read back -/
structure Field where
  key : Nat
  shape : Shape
  data : Data
  back : Data

/-- a record is written and read back field by field -/
theorem comesBack_record {fields : List Field} (hshort : ∀ f ∈ fields, f.key < 24)
    (hsorted : (fields.map Field.key).Pairwise (· < ·)) (hfields : ∀ f ∈ fields, ComesBack levels f.shape f.data f.back) :
    ComesBack (levels + 1) (.record (fields.map fun f => (f.key, f.shape))) (.record (fields.map fun f => (f.key, f.data)))
      (.record (fields.map fun f => (f.key, f.back))) := by
  choose! bs hwrites hreads using hfields
  have hlength : fields.length < argLimit := by
    have hle := length_le_of_short (List.forall_mem_map.2 hshort) hsorted
    rw [List.length_map] at hle
    exact lt_of_le_of_lt hle (by decide)
  obtain ⟨head, hhead⟩ : ∃ head, Shortest 5 fields.length head := exists_shortest hlength
  have hwritten := @Writes.record (fields.map fun f => ⟨f.key, f.data, bs f⟩) head
    ⟨List.forall_mem_map.2 hshort, by rw [List.map_map]; exact hsorted⟩ (by rwa [List.length_map])
    (List.forall_mem_map.2 hwrites)
  have hread := @Reads.record levels (fields.map fun f => (f.shape, ⟨f.key, f.back, bs f⟩)) head
    ⟨by rw [List.map_map]; exact List.forall_mem_map.2 hshort, by rw [List.map_map, List.map_map]; exact hsorted⟩
    (by rw [List.length_map]; exact hhead.1) (List.forall_mem_map.2 hreads)
  simp only [List.map_map] at hwritten hread
  exact ⟨_, hwritten, hread⟩

end Cbor

/-! ## Passes -/

open Cbor (ComesBack Writable comesBack_uint comesBack_int comesBack_text comesBack_time)

/-- the pass with its time at the whole second -/
def PassReport.atSecond (p : PassReport) : PassReport := { p with started := p.started.atSecond }

theorem PassReport.comesBack (p : PassReport) (htrigger : Writable p.trigger) {levels : Nat} :
    ComesBack (levels + 1) PassReport.shape p.data p.atSecond.data := by
  refine @Cbor.comesBack_record levels [⟨1, .uint, .uint p.epoch, .uint p.epoch⟩,
    ⟨2, .text, .text p.trigger, .text p.trigger⟩, ⟨3, .int, .int p.roots, .int p.roots⟩, ⟨4, .int, .int p.swept, .int p.swept⟩,
    ⟨5, .int, .int p.survivors, .int p.survivors⟩, ⟨6, .int, .int p.threshold, .int p.threshold⟩,
    ⟨7, .int, .int p.duration, .int p.duration⟩, ⟨8, .time, .time p.started, .time p.started.atSecond⟩] ?_ ?_ ?_
  · simp
  · simp
  · simp only [List.forall_mem_cons, List.not_mem_nil, false_imp_iff, implies_true, and_true]
    exact ⟨comesBack_uint _, comesBack_text htrigger, comesBack_int _, comesBack_int _, comesBack_int _, comesBack_int _,
      comesBack_int _, comesBack_time _⟩

/-! ## Reports -/

namespace Report

/-- the report with the times of its passes at their whole seconds -/
def atSecond (r : Report) : Report := { r with passes := r.passes.map (·.map PassReport.atSecond) }

/-- a report that a reader accepts: its list of passes is within the limit, and its texts fit into memory -/
structure Readable (r : Report) : Prop where
  passes : ∀ ps, r.passes = some ps → ps.length ≤ Cbor.maxElements
  allocator : Writable r.allocator
  triggers : ∀ ps, r.passes = some ps → ∀ p ∈ ps, Writable p.trigger

variable {r : Report}

theorem Readable.comesBack_passes (hr : r.Readable) {levels : Nat} : ComesBack (levels + 2) (.list PassReport.shape)
    (.list (r.passes.map (·.map PassReport.data))) (.list (r.atSecond.passes.map (·.map PassReport.data))) := by
  unfold atSecond
  cases h : r.passes with
  | none => exact Cbor.comesBack_noList
  | some ps =>
    simp only [Option.map_some, List.map_map]
    exact Cbor.comesBack_list (hr.passes ps h) fun p hp => p.comesBack (hr.triggers ps h p hp)

theorem Readable.comesBack (hr : r.Readable) {levels : Nat} : ComesBack (levels + 3) Report.shape r.data r.atSecond.data := by
  refine @Cbor.comesBack_record (levels + 2) [⟨1, .int, .int r.alive, .int r.alive⟩, ⟨2, .int, .int r.symbols, .int r.symbols⟩,
    ⟨3, .uint, .uint r.epoch, .uint r.epoch⟩, ⟨4, .int, .int r.threshold, .int r.threshold⟩,
    ⟨5, .text, .text r.allocator, .text r.allocator⟩,
    ⟨6, .list PassReport.shape, .list (r.passes.map (·.map PassReport.data)),
      .list (r.atSecond.passes.map (·.map PassReport.data))⟩] ?_ ?_ ?_
  · simp
  · simp
  · simp only [List.forall_mem_cons, List.not_mem_nil, false_imp_iff, implies_true, and_true]
    exact ⟨comesBack_int _, comesBack_int _, comesBack_uint _, comesBack_int _, comesBack_text hr.allocator, hr.comesBack_passes⟩

theorem mapM_ofData? (ps : List PassReport) : (ps.map PassReport.data).mapM PassReport.ofData? = some ps := by
  induction ps with
  | nil => rfl
  | cons p ps ih =>
    rw [List.map_cons, List.mapM_cons, ih]
    rfl

/-- the record for a report gives its fields -/
theorem ofData?_data (r : Report) : Report.ofData? r.data = some r := by
  obtain ⟨alive, symbols, epoch, threshold, allocator, passes⟩ := r
  cases passes with
  | none => rfl
  | some ps =>
    simp only [data, ofData?, Option.map_some, mapM_ofData?]
    rfl

/-- **Reports survive writing and reading.** Take any library that writes the canonical forms of values and reads what is within
its limits. Every report that a reader accepts, however large or small its numbers are, has a written form, from which it is read
back field for field, each of its passes in order; a list of passes that is absent stays absent and an empty one stays empty. Only
the times come back at their whole seconds. -/
theorem unmarshal?_marshal? (c : Cbor) (hc : c.Conforms) (r : Report) (hr : r.Readable) :
    ∃ bs, r.marshal? c = some bs ∧ Report.unmarshal? c bs = some r.atSecond := by
  obtain ⟨bs, hwrites, hreads⟩ := @Readable.comesBack r hr 29
  refine ⟨bs, hc.marshal hwrites, ?_⟩
  unfold unmarshal?
  rw [hc.unmarshal hreads]
  exact ofData?_data r.atSecond

/-- a report with the least and the greatest numbers there are, a pass before the year 1, and one at no time -/
def extreme : Report where
  alive := Int64.minValue
  symbols := -25
  epoch := 0xFFFFFFFFFFFFFFFF
  threshold := Int64.maxValue
  allocator := "λ"
  passes := some [
    { epoch := 0x100000000, trigger := "explicit", roots := 23, swept := 24, survivors := 255, threshold := 256,
      duration := -65537, started := ⟨-62135596801, 999999999⟩ },
    { trigger := "", started := .none }]

theorem unmarshal?_marshal?_extreme : Item.codec.Conforms ∧ extreme.Readable ∧
    ∃ bs, extreme.marshal? Item.codec = some bs ∧ Report.unmarshal? Item.codec bs = some extreme.atSecond := by
  have hreadable : extreme.Readable := by
    refine ⟨?_, by decide, ?_⟩
    · rintro _ ⟨⟩
      decide
    · rintro _ ⟨⟩
      decide
  exact ⟨Item.codec_conforms, hreadable, unmarshal?_marshal? Item.codec Item.codec_conforms extreme hreadable⟩

end Report

end LispMachine
