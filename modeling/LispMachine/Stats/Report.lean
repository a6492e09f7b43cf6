/-
Reports on the heap and the collector, and their written form.

A report is written as a record with the keys 1 to 6, and each pass of its history as a record with the keys 1 to 8. The bytes
of these are a library's.
-/
import LispMachine.Machine.Collector
import LispMachine.Stats.Codec

namespace LispMachine

/-- a pass as a report shows it -/
structure PassReport where
  epoch : UInt64 := 0
  trigger : String := ""
  roots : Int64 := 0
  swept : Int64 := 0
  survivors : Int64 := 0
  threshold : Int64 := 0
  /-- in nanoseconds -/
  duration : Int64 := 0
  started : Instant := Instant.none
deriving DecidableEq

/-- the state of the heap and the collector -/
structure Report where
  alive : Int64 := 0
  symbols : Int64 := 0
  epoch : UInt64 := 0
  threshold : Int64 := 0
  allocator : String := ""
  passes : Option (List PassReport) := none
deriving DecidableEq

/-! ## Writing -/

def PassReport.data (p : PassReport) : Cbor.Data :=
  .record [(1, .uint p.epoch), (2, .text p.trigger), (3, .int p.roots), (4, .int p.swept), (5, .int p.survivors),
    (6, .int p.threshold), (7, .int p.duration), (8, .time p.started)]

def Report.data (r : Report) : Cbor.Data :=
  .record [(1, .int r.alive), (2, .int r.symbols), (3, .uint r.epoch), (4, .int r.threshold), (5, .text r.allocator),
    (6, .list (r.passes.map (·.map PassReport.data)))]

/-- a report as a library writes it -/
def Report.marshal? (c : Cbor) (r : Report) : Option (List UInt8) := c.marshal r.data

/-- the written form of a report -/
def Report.encode (r : Report) : List UInt8 := (Item.ofData r.data).write

/-! ## Reading -/

def PassReport.shape : Cbor.Shape :=
  .record [(1, .uint), (2, .text), (3, .int), (4, .int), (5, .int), (6, .int), (7, .int), (8, .time)]

def Report.shape : Cbor.Shape :=
  .record [(1, .int), (2, .int), (3, .uint), (4, .int), (5, .text), (6, .list PassReport.shape)]

def PassReport.ofData? : Cbor.Data → Option PassReport
  | .record [(_, .uint epoch), (_, .text trigger), (_, .int roots), (_, .int swept), (_, .int survivors), (_, .int threshold),
      (_, .int duration), (_, .time started)] =>
    some ⟨epoch, trigger, roots, swept, survivors, threshold, duration, started⟩
  | _ => none

def Report.ofData? : Cbor.Data → Option Report
  | .record [(_, .int alive), (_, .int symbols), (_, .uint epoch), (_, .int threshold), (_, .text allocator),
      (_, .list passes)] => do
    let passes ← match passes with
      | none => some none
      | some ps => (ps.mapM PassReport.ofData?).map some
    return ⟨alive, symbols, epoch, threshold, allocator, passes⟩
  | _ => none

/-- the report that a library reads from bytes -/
def Report.unmarshal? (c : Cbor) (bs : List UInt8) : Option Report := (c.unmarshal Report.shape bs).bind Report.ofData?

def Report.decode? (bs : List UInt8) : Option Report := Report.unmarshal? Item.codec bs

/-! ## The machine's report -/

/-- a pass for a report; the machine measures no time -/
def Pass.report (p : Pass) : PassReport where
  epoch := UInt64.ofNat p.epoch
  trigger := p.trigger.name
  roots := Int64.ofNat p.roots
  swept := Int64.ofNat p.swept
  survivors := Int64.ofNat p.survivors
  threshold := Int64.ofNat p.threshold

def Machine.report (m : Machine) : Report where
  alive := Int64.ofNat m.heap.alive
  symbols := Int64.ofNat m.symbols.length
  epoch := UInt64.ofNat m.collector.epoch
  threshold := Int64.ofNat m.collector.threshold
  allocator := m.allocator.name
  passes := some (m.collector.history.toList.map Pass.report)

end LispMachine
