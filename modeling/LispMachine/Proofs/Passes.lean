/-
The accounts of the collector.

The collector counts epochs and passes, keeps the records of the latest passes in a window that moves on by one record for each
pass, and sets the threshold for the next one; the heap counts its objects beside the list of them. `Machine.Accounted` says what
all this has come to after a run with given passes. A move keeps it as it is (`Accounted.move`), whatever is allocated, stored,
configured or marked, and a completed pass brings it up to date (`Accounted.pass`); so it holds at every moment of a run
(`Takes.accounted`).

A pass that cannot read its roots never comes to its end: the collector stays in its first phase, and its epoch is that of the
pass it is in. Otherwise it is idle between passes (`Takes.idle_or_broken`). `Machine.pass_accounting` puts the accounts together.
-/
import Mathlib.Data.List.DropRight
import LispMachine.Proofs.Interning

namespace LispMachine

namespace Heap

variable {hp hp' : Heap} {n k : Nat}

/-! ## Stamps -/

/-- no object has a stamp from after an epoch -/
def Dated (hp : Heap) (epoch : Nat) : Prop := ∀ h s, hp.slot? h = some s → s.epoch ≤ epoch

namespace Dated

theorem mono (h : hp.Dated n) (hle : n ≤ k) : hp.Dated k := fun t s hs => (h t s hs).trans hle

theorem insert (h : hp.Dated n) (ho : hp.InOrder) (c : Cell) (text : Bool) : (hp.insert c n text).Dated n := by
  intro t s hs
  rw [ho.slot?_insert] at hs
  split at hs
  · cases hs
    exact le_rfl
  · exact h t s hs

theorem write (h : hp.Dated n) (t : Handle) (c : Cell) : (hp.write t c).Dated n := by
  intro u s hs
  rw [slot?_write] at hs
  split at hs
  · obtain ⟨old, hold, rfl⟩ := Option.map_eq_some_iff.1 hs
    exact h t old hold
  · exact h u s hs

theorem restamped (h : hp.Dated n) (hr : hp.Restamped n hp') : hp'.Dated n := by
  intro t s hs
  obtain ⟨old, hold, rfl | rfl⟩ := hr.slot_before hs
  · exact h t s hold
  · exact le_rfl

theorem detachAll (h : hp.Dated n) (kept : List Handle) : (kept.foldl Heap.detach hp).Dated n := by
  induction kept generalizing hp with
  | nil => exact h
  | cons t kept ih =>
    refine ih ?_
    unfold Heap.detach
    split
    · exact h
    · split
      · split
        · exact h.write _ _
        · exact h
      · exact h

theorem sweep (h : hp.Dated n) (epoch : Nat) : (hp.sweep epoch).1.Dated n := by
  have hreleased : ((hp.doomed epoch).foldl release hp).Dated n := by
    intro t s hs
    rw [slot?_releaseAll] at hs
    split at hs
    · cases hs
    · exact h t s hs
  rw [sweep_eq]
  exact hreleased.detachAll (hp.registry.filter (hp.isMarked epoch)).toList

end Dated

end Heap

/-! ## The window of records -/

theorem rtake_min {α : Type} (l : List α) (n : Nat) : l.rtake (min l.length n) = l.rtake n := by
  rw [List.rtake, List.rtake]
  congr 1
  omega

/-- a window on the last `n + 1` of a sequence of records moves on by one record: the oldest is dropped if it was full -/
theorem toList_window {α : Type} {window : Array α} {records : List α} {n : Nat} (h : window.toList = records.rtake (n + 1))
    (x : α) : ((if window.size = n + 1 then window.extract 1 (n + 1) else window).push x).toList =
      (records ++ [x]).rtake (n + 1) := by
  have hsize : window.size = min records.length (n + 1) := by
    rw [← Array.length_toList, h, List.rtake, List.length_drop]
    omega
  rw [List.rtake_concat_succ, Array.toList_push]
  congr 1
  split
  · rename_i hfull
    have hmoved : (records.drop (records.length - (n + 1))).drop 1 = records.rtake n := by
      rw [List.drop_drop, List.rtake]
      congr 1
      omega
    rw [Array.toList_extract, List.extract_eq_take_drop, h, List.rtake, hmoved, List.take_of_length_le]
    rw [List.rtake, List.length_drop]
    omega
  · have hshort : records.length ≤ n := by omega
    rw [h, List.rtake, List.rtake, Nat.sub_eq_zero_of_le hshort, Nat.sub_eq_zero_of_le (hshort.trans n.le_succ)]

namespace Machine

variable {m m' : Machine} {log : List Taken}

/-! ## A pass -/

/-- what a pass that is completed leaves of the heap and the collector -/
structure Completed (m m' : Machine) (p : Pass) : Prop where
  heap : m'.heap = (m.markedHeap.sweep (m.collector.epoch + 1)).1
  collector : m'.collector = { m.collector with
    epoch := m.collector.epoch + 1, threshold := p.threshold, marking := false }.record p
  epoch : p.epoch = m.collector.epoch + 1
  survivors : p.survivors = m'.heap.registry.size
  swept : p.swept + p.survivors = m.heap.registry.size
  threshold : p.threshold = max m.collector.minThreshold (2 * p.survivors)

theorem completed_collect {t : Trigger} {p : Pass} (h : (Act.collect t).run m = .ok p m') : m.Completed m' p := by
  have hbroken : brokenStack? { m with journal := .passed t :: m.journal } = m.brokenStack? := rfl
  simp only [Act.collect, Act.checkRoots, Act.run_bind, Act.run_note, Act.run_get, hbroken] at h
  cases hs : m.brokenStack? with
  | some s => rw [hs] at h; cases h
  | none =>
    rw [hs] at h
    cases h
    have hcounts := m.markedHeap.sweep_counts (m.collector.epoch + 1)
    rw [← Heap.counted, markedHeap_restamped.registry] at hcounts
    exact ⟨rfl, rfl, rfl, Heap.counted _, hcounts, rfl⟩

/-- a pass that can read all its roots is completed, and the next one can read them -/
theorem collect_readable (h : m.brokenStack? = none) (t : Trigger) :
    ∃ p m', (Act.collect t).run m = .ok p m' ∧ m'.brokenStack? = none ∧ m'.collector.phase = m.collector.phase := by
  have hbroken : brokenStack? { m with journal := .passed t :: m.journal } = none := h
  simp only [Act.collect, Act.checkRoots, Act.run_bind, Act.run_note, Act.run_get, hbroken]
  exact ⟨_, _, rfl, h, rfl⟩

/-! ## Moves and passes -/

/-- the collector's accounts agree with the passes that a run has completed -/
structure Accounted (log : List Taken) (m : Machine) : Prop where
  dated : m.heap.Dated m.collector.epoch
  passes : m.collector.passes = log.length
  history : m.collector.history.toList = (log.map Taken.record).rtake Collector.historyLimit
  completed : ∀ t ∈ log, t.before.Completed t.after t.record
  epoch : m.collector.phase = .idle → m.collector.epoch = log.length + 1
  numbered : m.collector.phase = .idle → (log.map Taken.record).map Pass.epoch = List.range' 2 log.length

namespace Accounted

theorem initial : Machine.initial.Accounted [] where
  dated h s hs := by
    have hlt : h < 2 := Heap.slot?_lt hs
    interval_cases h
    · cases hs
    · cases hs
      exact le_rfl
  passes := rfl
  history := (List.rtake_nil _).symm
  completed := List.forall_mem_nil _
  epoch _ := rfl
  numbered _ := rfl

/-- the accounts as they were, for objects that have been stamped no later -/
theorem keep (h : m.Accounted log) (hdated : m'.heap.Dated m'.collector.epoch) (hpasses : m'.collector.passes = m.collector.passes)
    (hhistory : m'.collector.history = m.collector.history)
    (hepoch : m'.collector.phase = .idle → m.collector.phase = .idle ∧ m'.collector.epoch = m.collector.epoch) :
    m'.Accounted log where
  dated := hdated
  passes := hpasses.trans h.passes
  history := hhistory ▸ h.history
  completed := h.completed
  epoch hidle := (hepoch hidle).2.trans (h.epoch (hepoch hidle).1)
  numbered hidle := h.numbered (hepoch hidle).1

/-- what is no pass leaves the accounts as they are -/
theorem move (h : m.Accounted log) (ho : m.heap.InOrder) (hmove : m.Move m') : m'.Accounted log := by
  have hsame : m.collector.phase = .idle → m.collector.phase = .idle ∧ m.collector.epoch = m.collector.epoch := fun hidle => ⟨hidle, rfl⟩
  cases hmove with
  | beside hheap _ _ hcollector =>
    refine h.keep ?_ (by rw [hcollector]) (by rw [hcollector]) (by rw [hcollector]; exact hsame)
    rw [hheap, hcollector]
    exact h.dated
  | allocate c text _ _ => exact h.keep (h.dated.insert ho c text) rfl rfl hsame
  | intern name _ _ => exact h.keep (h.dated.insert ho _ _) rfl rfl hsame
  | write new _ _ _ => exact h.keep (h.dated.write _ _) rfl rfl hsame
  | mark work => exact h.keep (h.dated.restamped (Heap.mark_restamped ..)) rfl rfl hsame
  | restrict n => exact h.keep h.dated rfl rfl hsame
  | relax q => exact h.keep h.dated rfl rfl hsame
  | minimum n => exact h.keep h.dated rfl rfl hsame
  | broken _ hheap _ _ hcollector =>
    -- from now on the collector is not idle
    refine h.keep ?_ (by rw [hcollector]) (by rw [hcollector]) (by rw [hcollector]; exact nofun)
    rw [hheap, hcollector]
    exact h.dated.mono (Nat.le_succ _)

/-- a pass that is completed comes into the accounts -/
theorem pass (h : m.Accounted log) {p : Pass} (hpass : m.Completed m' p) : m'.Accounted (log ++ [⟨m, m', p⟩]) := by
  have hphase : m'.collector.phase = m.collector.phase := by rw [hpass.collector]; rfl
  have hepoch : m'.collector.epoch = m.collector.epoch + 1 := by rw [hpass.collector]; rfl
  refine ⟨?_, ?_, ?_, ?_, fun hidle => ?_, fun hidle => ?_⟩
  · rw [hpass.heap, hepoch]
    exact ((h.dated.mono (Nat.le_succ _)).restamped markedHeap_restamped).sweep _
  · rw [hpass.collector, List.length_append, ← h.passes]
    rfl
  · rw [hpass.collector, List.map_append]
    exact toList_window (n := 255) h.history p
  · exact List.forall_mem_append.2 ⟨h.completed, List.forall_mem_singleton.2 hpass⟩
  · rw [hepoch, h.epoch (hphase ▸ hidle), List.length_append]
    rfl
  · rw [List.map_append, List.map_append, h.numbered (hphase ▸ hidle), List.length_append, List.length_singleton,
      List.range'_concat]
    simp only [List.map_cons, List.map_nil, hpass.epoch, h.epoch (hphase ▸ hidle)]
    congr 2
    omega

end Accounted

/-- the accounts are right at every moment of a run -/
theorem Takes.accounted (h : initial.Takes log m) : m.Accounted log := by
  induction h with
  | refl => exact .initial
  | move hbefore hmove ih => exact ih.move (hbefore.steps.interned interned_initial).order hmove
  | pass _ hrun ih => exact ih.pass (completed_collect hrun)

/-! ## Between passes -/

/-- the collector is idle, unless some time before there was a root that could not be read -/
theorem Takes.idle_or_broken {start : Machine} (h : start.Takes log m) (hidle : start.collector.phase = .idle) :
    m.collector.phase = .idle ∨ ∃ log₀ m₀, log₀ <+: log ∧ start.Takes log₀ m₀ ∧ m₀.brokenStack?.isSome := by
  induction h with
  | refl => exact .inl hidle
  | @move log m₁ _ hbefore hmove ih =>
    refine ih.elim (fun hidle => ?_) .inr
    cases hmove with
    | beside _ _ _ hcollector => exact .inl (by rw [hcollector]; exact hidle)
    | broken hbroken => exact .inr ⟨log, m₁, List.prefix_refl _, hbefore, hbroken⟩
    | _ => exact .inl hidle
  | pass _ hrun ih =>
    refine ih.imp (fun hidle => ?_) fun ⟨log₀, m₀, hlog, hbefore, hbroken⟩ =>
      ⟨log₀, m₀, hlog.trans (List.prefix_append ..), hbefore, hbroken⟩
    rw [(completed_collect hrun).collector]
    exact hidle

/-- when it has been looked whether a pass is due there are no more objects than the threshold allows -/
theorem alive_le_of_maybeCollect (hrunning : m.collector.running = false) {b : Bool} (h : Act.maybeCollect.run m = .ok b m') :
    m'.heap.alive ≤ m'.collector.threshold := by
  unfold Act.maybeCollect at h
  rw [Act.bind_ok (Act.run_get m)] at h
  split at h
  · cases h
    assumption
  · rw [hrunning, if_neg Bool.false_ne_true] at h
    cases hr : (Act.collect .threshold).run m with
    | error e m₁ =>
      rw [Act.bind_error hr] at h
      cases h
    | ok p m₁ =>
      rw [Act.bind_ok hr] at h
      cases h
      have hpass := completed_collect hr
      have hthreshold : m'.collector.threshold = p.threshold := by rw [hpass.collector]; rfl
      rw [hthreshold, hpass.threshold, hpass.survivors, Heap.alive, Heap.counted]
      omega

/-- **The collector's accounts.** Take a machine at any moment of a run, and the passes that have been completed so far, whether they
were asked for or were due. The collector counts them all. Its history is the list of the records of the last 256 of them, or of all
if there are fewer, in their order. Each record tells of the objects that were registered when the pass began how many it released and
how many are left, and the threshold that it gives is the larger of the least threshold configured at that moment and twice the number
of those that are left. Every registered object has a stamp from the current epoch or before. Between passes, when the collector is
idle, the epoch is one more than the number of passes, and the epochs in the history are consecutive and end with the current one. It is
idle but for a pass that never ends, one that came upon a root that cannot be read. And whenever it has been looked whether a pass is
due, and no background collector takes the passes, there are no more objects than the threshold. -/
theorem pass_accounting (hrun : initial.Takes log m) :
    m.collector.passes = log.length ∧
    m.collector.history.toList = (log.map Taken.record).rtake (min log.length 256) ∧
    (∀ t ∈ log, t.record.swept + t.record.survivors = t.before.heap.registry.size ∧
      t.record.survivors = t.after.heap.registry.size ∧
      t.record.threshold = max t.before.collector.minThreshold (2 * t.record.survivors) ∧
      t.after.collector.threshold = t.record.threshold) ∧
    (∀ h ∈ m.heap.registry, ∃ s, m.heap.slot? h = some s ∧ s.epoch ≤ m.collector.epoch) ∧
    (m.collector.phase = .idle → m.collector.epoch = log.length + 1 ∧ m.collector.history.toList.map Pass.epoch =
      List.range' (m.collector.epoch + 1 - min log.length 256) (min log.length 256)) ∧
    (m.collector.phase = .idle ∨ ∃ log₀ m₀, log₀ <+: log ∧ initial.Takes log₀ m₀ ∧ m₀.brokenStack?.isSome) ∧
    (m.collector.running = false → ∀ b m', Act.maybeCollect.run m = .ok b m' → m'.heap.alive ≤ m'.collector.threshold) := by
  have haccounted := hrun.accounted
  have horder : m.heap.InOrder := (hrun.steps.interned interned_initial).order
  have hwindow : m.collector.history.toList = (log.map Taken.record).rtake (min log.length 256) := by
    rw [haccounted.history, ← rtake_min, List.length_map]
    rfl
  refine ⟨haccounted.passes, hwindow, fun t ht => ?_, fun h hh => ?_, fun hidle => ?_, hrun.idle_or_broken rfl, fun hrunning b m' =>
    alive_le_of_maybeCollect hrunning⟩
  · have hpass := haccounted.completed t ht
    have hset : t.after.collector.threshold = t.record.threshold := by rw [hpass.collector]; rfl
    exact ⟨hpass.swept, hpass.survivors, hpass.threshold, hset⟩
  · obtain ⟨s, hs⟩ := Option.isSome_iff_exists.1 ((horder.registered h).1 hh)
    exact ⟨s, hs, haccounted.dated h s hs⟩
  · have hepoch := haccounted.epoch hidle
    have hmissing : 2 + (log.length - min log.length 256) = log.length + 1 + 1 - min log.length 256 := by omega
    have hleft : log.length - (log.length - min log.length 256) = min log.length 256 := by omega
    refine ⟨hepoch, ?_⟩
    rw [hwindow, List.rtake, List.map_drop, haccounted.numbered hidle, List.drop_range', List.length_map, hepoch, mul_one,
      hmissing, hleft]

/-- the least threshold is set to one and an object is made that nothing holds: the pass that is then due, and one that is asked
for after it -/
theorem pass_accounting_due : ∃ log m, initial.Takes log m ∧ m.collector.phase = .idle ∧ log.length = 2 ∧
    m.collector.epoch = 3 ∧ m.collector.passes = 2 ∧ m.collector.history.toList.map Pass.epoch = [2, 3] ∧
    (∀ t ∈ log, t.record.swept + t.record.survivors = t.before.heap.registry.size) ∧
    ∀ b m', Act.maybeCollect.run m = .ok b m' → m'.heap.alive ≤ m'.collector.threshold := by
  let eager : Machine := { initial with collector := initial.collector.setMinThreshold 1 }
  let crowded : Machine := { eager with heap := eager.heap.insert (.box .nil) eager.collector.epoch false }
  have heager : initial.Takes [] eager := .move .refl (.minimum _ 1)
  have hcrowded : initial.Takes [] crowded := .move heager (.allocate _ _ _ nofun rfl)
  obtain ⟨p, m₁, hdue, hreadable, hidle₁⟩ := collect_readable (m := crowded) rfl .threshold
  obtain ⟨q, m₂, hasked, -, hidle₂⟩ := collect_readable hreadable .explicit
  have hrun := (hcrowded.pass hdue).pass hasked
  have hidle : m₂.collector.phase = .idle := hidle₂.trans hidle₁
  have hrunning : m₂.collector.running = false := by
    rw [(completed_collect hasked).collector, (completed_collect hdue).collector]
    rfl
  obtain ⟨hpasses, -, hrecords, -, hbetween, -, hthreshold⟩ := pass_accounting hrun
  obtain ⟨hepoch, hconsecutive⟩ := hbetween hidle
  rw [hepoch] at hconsecutive
  exact ⟨_, _, hrun, hidle, rfl, hepoch, hpasses, hconsecutive, fun t ht => (hrecords t ht).1, hthreshold hrunning⟩

end Machine

end LispMachine
