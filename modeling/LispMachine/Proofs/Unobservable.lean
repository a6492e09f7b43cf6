/-
Collection passes cannot be observed.

A source text is run on two new machines that differ in the least number of objects from which on passes are taken. The two take
passes at different times and give their objects different handles, but what they print as results and errors is the same, line
by line, and they end alike with the same objects, whatever these are called. This fails only where a run could look at passes or
at what they are for: by asking for one, by filling the heap, or by assigning to program text while it is being evaluated. Each of
these is told of in a journal, and a journal never loses what has once been put there.
-/
import LispMachine.Machine.Settings
import LispMachine.Proofs.Tandem.Installing

namespace LispMachine

/-! ## New machines -/

namespace Machine

/-- a new machine with settings of its own -/
def fresh (config : Config) (allocator : AllocatorMode) (c : Collector) : Machine :=
  { initial with config := config, allocator := allocator, collector := c }

variable {config config' : Config} {allocator : AllocatorMode} {c c' : Collector}

theorem thread_fresh (th : ThreadId) : (fresh config allocator c).thread th = .blank := rfl

theorem useCount_fresh (h : Handle) : (fresh config allocator c).useCount h = 0 := by
  unfold useCount
  have huses : (fresh config allocator c).uses = #[] := rfl
  rw [huses]
  simp

/-- the only object of a new machine is the error for a full heap -/
theorem slot_fresh {h : Handle} {s : Slot} (hs : (fresh config allocator c).heap.slot? h = some s) :
    h = exhaustedError.handle ∧ s = ⟨.error { kind := exhaustedError.kind }, 1, exhaustedError.serial, false⟩ := by
  have hs' := Heap.slot?_eq_some.1 hs
  match h, hs' with
  | 0, hs' => cases hs'
  | 1, hs' => cases hs'; exact ⟨rfl, rfl⟩
  | n + 2, hs' => simp [fresh, initial] at hs'

theorem kind_fresh {h : Handle} {k : Kind} (hk : (fresh config allocator c).heap.kind? h = some k) : k = .error := by
  obtain ⟨cell, hc, rfl⟩ := Heap.kind?_eq_some.1 hk
  obtain ⟨s, hs, rfl⟩ := Heap.cell?_eq_some.1 hc
  obtain ⟨-, rfl⟩ := slot_fresh hs
  rfl

theorem sound_heap_fresh (hepoch : 1 ≤ c.epoch) : (fresh config allocator c).heap.Sound c.epoch where
  tidy :=
    { registered := fun h => by
        constructor
        · intro hin
          obtain rfl : h = exhaustedError.handle := by simpa [fresh, initial] using hin
          rfl
        · intro hsome
          obtain ⟨s, hs⟩ := Option.isSome_iff_exists.1 hsome
          obtain ⟨rfl, -⟩ := slot_fresh hs
          exact Array.mem_singleton.2 rfl
      nodup := List.nodup_singleton _
      stamped := fun h s hs => by obtain ⟨-, rfl⟩ := slot_fresh hs; exact hepoch
      vacant := fun h hin => by cases hin
      distinct := List.nodup_nil
      serial_lt := fun h s hs => by obtain ⟨-, rfl⟩ := slot_fresh hs; exact Nat.one_pos
      serial_inj := fun g h s s' hs hs' _ => (slot_fresh hs).1.trans (slot_fresh hs').1.symm }
  held h cell hc t k ht := by
    obtain ⟨s, hs, rfl⟩ := Heap.cell?_eq_some.1 hc
    obtain ⟨-, rfl⟩ := slot_fresh hs
    rcases ht with hn | _
    cases hn with
    | errorName hn => cases hn
    | first hn => cases hn
    | second hn => cases hn
  wellMade h s hs := by
    obtain ⟨-, rfl⟩ := slot_fresh hs
    exact ⟨fun _ _ h => (by cases h), fun _ _ _ h => (by cases h), fun _ _ _ h => (by cases h), fun _ h => (by cases h)⟩

theorem sound_fresh (hepoch : 1 ≤ c.epoch) (hmarking : c.marking = false) : (fresh config allocator c).Sound where
  store := sound_heap_fresh hepoch
  symbols _ _ hin := by cases hin
  interned h hk := by cases kind_fresh hk
  exhausted := ⟨1, rfl⟩
  used _ hh := absurd (useCount_fresh _) hh
  scopes th ho := by rw [thread_fresh] at ho; cases ho
  inside th ho := by rw [thread_fresh] at ho; cases ho
  readable th ho := by rw [thread_fresh] at ho; cases ho
  owners id th := by
    rw [thread_fresh]
    exact ⟨nofun, fun h => by cases h.1⟩
  unowned _ hin := by cases hin
  unlike := List.nodup_nil
  global _ hg := by cases hg
  marking := hmarking
  clean hin := by cases hin

theorem agree_fresh (hcapacity : config.stackCapacity = config'.stackCapacity) :
    (fresh config allocator c).Agree (fresh config' allocator c') where
  store :=
    { births := rfl
      cells := fun h h' s s' hs hs' _ => by
        obtain ⟨-, rfl⟩ := slot_fresh hs
        obtain ⟨-, rfl⟩ := slot_fresh hs'
        exact ⟨⟨.error ⟨rfl, .none, .nil, .nil⟩, nofun⟩, rfl⟩ }
  symbols := .nil
  gensyms := rfl
  globalScope := .none
  uses _ _ _ := (useCount_fresh _).trans (useCount_fresh _).symm
  size := rfl
  threads _ := .blank _
  stackOwners := rfl
  freeStacks := rfl
  capacity := hcapacity
  lines := rfl
  budget := rfl

theorem abreast_fresh (hcapacity : config.stackCapacity = config'.stackCapacity) (hepoch : 1 ≤ c.epoch)
    (hmarking : c.marking = false) (hepoch' : 1 ≤ c'.epoch) (hmarking' : c'.marking = false) :
    (fresh config allocator c).Abreast (fresh config' allocator c') :=
  ⟨sound_fresh hepoch hmarking, sound_fresh hepoch' hmarking', agree_fresh hcapacity⟩

end Machine

/-! ## Runs of a source text -/

/-- an event by which passes may show: a store into program text, an object refused by a full heap, a pass that was asked for -/
def Event.disturbs : Event → Bool
  | .assigned text => text
  | .refused => true
  | .passed trigger => trigger = .explicit
  | .overflowed | .missed | .caught .. => false

theorem Event.disturbs_of_spoils {e : Event} (h : Tandem.Spoils false e) : e.disturbs = true := by
  rcases h with rfl | ⟨-, rfl | rfl⟩ <;> rfl

/-- the collector of a new machine under given settings -/
def Request.collector (r : Request) : Collector :=
  { Machine.initial.collector.setMinThreshold r.config.threshold with running := r.background }

/-- a source text read, evaluated and printed by a new machine under given settings -/
def Machine.session (r : Request) (fuel : Nat) (showPrompt : Bool) (c : Source.Cursor) : Outcome Unit :=
  (do Act.configure r; Act.replRun fuel showPrompt c : Act Unit).run .initial

/-- two runs that look the same from outside -/
structure SameOutside (o o' : Outcome Unit) : Prop where
  /-- both end without an error, with the same fault, or with errors -/
  ends : match o, o' with
    | .ok _ _, .ok _ _ => True
    | .error e _, .error e' _ => e.Akin e'
    | _, _ => False
  /-- the same results and errors are printed in the same order -/
  lines : (Outcome.machine o).console.lines = (Outcome.machine o').console.lines
  /-- objects made at the same time are the same on both sides, and so are the symbols and what they name -/
  objects : (Outcome.machine o).Agree (Outcome.machine o')

theorem SameOutside.of_ended {o o' : Outcome Unit} (h : Machine.Ended o o') : SameOutside o o' := by
  cases h with
  | ok h => exact ⟨trivial, h.agree.lines, h.agree⟩
  | error he h => exact ⟨he, h.agree.lines, h.agree⟩

/-- passes do not show: only thresholds being different, a source text comes to the same on both machines, unless one of
the runs has asked for a pass, filled the heap or stored into program text -/
theorem Machine.passes_unobservable (r : Request) (n n' : Int) (fuel : Nat) (showPrompt : Bool) (c : Source.Cursor) :
    (∃ e ∈ (Outcome.machine (session { r with threshold := n } fuel showPrompt c)).journal, e.disturbs = true) ∨
    (∃ e ∈ (Outcome.machine (session { r with threshold := n' } fuel showPrompt c)).journal, e.disturbs = true) ∨
    SameOutside (session { r with threshold := n } fuel showPrompt c) (session { r with threshold := n' } fuel showPrompt c) := by
  have hrun (r : Request) : session r fuel showPrompt c =
      (Act.replRun fuel showPrompt c).run (fresh r.config r.allocator r.collector) := rfl
  have hspoils {m : Machine} : (∃ e ∈ m.journal, Tandem.Spoils false e) → ∃ e ∈ m.journal, e.disturbs = true :=
    fun ⟨e, he, hs⟩ => ⟨e, he, Event.disturbs_of_spoils hs⟩
  have habreast : (fresh { r with threshold := n }.config r.allocator { r with threshold := n }.collector).Abreast
      (fresh { r with threshold := n' }.config r.allocator { r with threshold := n' }.collector) :=
    abreast_fresh rfl (Nat.le_refl 1) rfl (Nat.le_refl 1) rfl
  rw [hrun, hrun]
  rcases habreast.replRun rfl rfl fuel showPrompt c with hs | hend
  · exact hs.elim (fun h => .inl (hspoils h)) fun h => .inr (.inl (hspoils h))
  · exact .inr (.inr (.of_ended hend))

/-- with a low threshold a pass is taken, and nothing by which it could show -/
example : (Outcome.machine (Machine.session { threshold := 200 } 1 false (Source.Cursor.ofString "1"))).journal =
    [.passed .threshold] := by decide +kernel

end LispMachine
