/-
Sound machines, and what they hold for good.

A handle is held firmly if a chain of references that no store can cut leads to it from the pins, the scopes in use, the
symbols or the error for a full heap: the parts of program text, scopes, functions and errors do not change, but for bindings
that are added to scopes. What is held firmly survives a pass. `Keeps m m'` says that a run from `m` to `m'` has left what it
had entered and dropped what it had pinned, so that all that was held firmly still is.
-/
import LispMachine.Proofs.Tandem.Twins
import LispMachine.Proofs.Threads

namespace LispMachine

/-! ## Firm hold -/

/-- an object of which the parts do not change -/
def Slot.IsFirm (s : Slot) : Prop :=
  (s.text = true ∧ s.cell.kind = .cons) ∨ s.cell.kind = .scope ∨ s.cell.kind = .function ∨ s.cell.kind = .error

/-- what may become of an object: a scope gets more bindings, and a stack-backed one may move into a box -/
structure Slot.Stable (s s' : Slot) : Prop where
  label : s'.label = s.label
  fixed : s.IsFirm → s.cell.kind ≠ .scope → s'.cell = s.cell
  scope : ∀ sc, s.cell = .scope sc → ∃ sc', s'.cell = .scope sc' ∧ sc'.name = sc.name ∧ sc'.parent = sc.parent ∧
    ∀ e ∈ sc.table, ∃ r, (e.1, r) ∈ sc'.table ∧ ∀ t k, e.2.Names t k → r = e.2

namespace Slot.Stable

variable {s s' s'' : Slot}

theorem refl (s : Slot) : s.Stable s where
  label := rfl
  fixed _ _ := rfl
  scope sc hsc := ⟨sc, hsc, rfl, rfl, fun e he => ⟨e.2, he, fun _ _ _ => rfl⟩⟩

/-- what is not held firmly may hold anything -/
theorem of_not_firm {c : Cell} (hk : c.kind = s.cell.kind) (hs : ¬ s.IsFirm) : s.Stable { s with cell := c } where
  label := by simp [Slot.label, hk]
  fixed hf := absurd hf hs
  scope sc hsc := absurd (.inr (.inl (by rw [hsc]; rfl))) hs

theorem isFirm (h : s.Stable s') (hs : s.IsFirm) : s'.IsFirm := by
  obtain ⟨-, htext, hkind⟩ : s'.serial = s.serial ∧ s'.text = s.text ∧ s'.cell.kind = s.cell.kind := by
    simpa [Slot.label] using h.label
  unfold IsFirm
  rw [htext, hkind]
  exact hs

theorem mentions (h : s.Stable s') (hs : s.IsFirm) {t : Handle} {k : Kind} (hm : s.cell.Mentions t k) :
    s'.cell.Mentions t k := by
  by_cases hk : s.cell.kind = .scope
  · obtain ⟨sc, hsc⟩ : ∃ sc, s.cell = .scope sc := by
      cases hc : s.cell <;> rw [hc] at hk <;> cases hk
      exact ⟨_, rfl⟩
    obtain ⟨sc', hsc', hname, hparent, htable⟩ := h.scope sc hsc
    rw [hsc] at hm
    rw [hsc']
    cases hm with
    | names hn =>
      refine .names ?_
      cases hn with
      | scopeName hn => exact .scopeName (hname.trans hn)
      | parent hp => exact .parent (hparent.trans hp)
      | bound hr =>
        obtain ⟨r, hr', -⟩ := htable _ hr
        exact .bound hr'
      | binding hr hn =>
        obtain ⟨r, hr', hsame⟩ := htable _ hr
        obtain rfl := hsame t k hn
        exact .binding hr' hn
  · rw [h.fixed hs hk]
    exact hm

theorem trans (h : s.Stable s') (h' : s'.Stable s'') : s.Stable s'' where
  label := h'.label.trans h.label
  fixed hs hk := by
    have hkind : s'.cell.kind = s.cell.kind := congrArg (·.2.2) h.label
    rw [h'.fixed (h.isFirm hs) (hkind ▸ hk), h.fixed hs hk]
  scope sc hsc := by
    obtain ⟨sc', hsc', hname, hparent, htable⟩ := h.scope sc hsc
    obtain ⟨sc'', hsc'', hname', hparent', htable'⟩ := h'.scope sc' hsc'
    refine ⟨sc'', hsc'', hname'.trans hname, hparent'.trans hparent, fun e he => ?_⟩
    obtain ⟨r, hr, hsame⟩ := htable e he
    obtain ⟨r', hr', hsame'⟩ := htable' _ hr
    refine ⟨r', hr', fun t k hn => ?_⟩
    obtain rfl := hsame t k hn
    exact hsame' t k hn

end Slot.Stable

namespace Machine

/-- a handle that is held for as long as nothing is left or dropped -/
inductive Firm (m : Machine) : Handle → Prop where
  | pin {th : ThreadId} {v : Value} {h : Handle} {k : Kind} :
      (m.thread th).isOpen = true → v ∈ (m.thread th).pins → v.Names h k → Firm m h
  | inUse {h : Handle} : m.useCount h ≠ 0 → Firm m h
  | symbol {name : String} {h : Handle} : (name, h) ∈ m.symbols → Firm m h
  | exhausted : Firm m exhaustedError.handle
  | step {h t : Handle} {s : Slot} {k : Kind} :
      Firm m h → m.heap.slot? h = some s → s.IsFirm → s.cell.Mentions t k → Firm m t

/-! ## Sound machines -/

structure Sound (m : Machine) : Prop where
  store : m.heap.Sound m.collector.epoch
  symbols : ∀ name h, (name, h) ∈ m.symbols → m.heap.kind? h = some .symbol
  interned : ∀ h, m.heap.kind? h = some .symbol → ∃ name, (name, h) ∈ m.symbols
  exhausted : ∃ epoch, m.heap.slot? exhaustedError.handle =
    some ⟨.error { kind := exhaustedError.kind }, epoch, exhaustedError.serial, false⟩
  used : ∀ h, m.useCount h ≠ 0 → m.heap.kind? h = some .scope
  scopes : ∀ th, (m.thread th).isOpen = true → ∀ h ∈ (m.thread th).scopes, m.useCount h ≠ 0
  inside : ∀ th, (m.thread th).isOpen = true → (m.thread th).scopes.size ≠ 0
  readable : ∀ th, (m.thread th).isOpen = true → (m.thread th).stack.beyond = 0
  owners : ∀ (id : Nat) (th : ThreadId), (m.stackOwners[id]?).join = some th ↔
    (m.thread th).isOpen = true ∧ (m.thread th).stack.id = id
  unowned : ∀ id ∈ m.freeStacks, m.stackOwners[id]? = some none
  unlike : m.freeStacks.Nodup
  global : ∀ g, m.globalScope = some g → m.useCount g ≠ 0
  marking : m.collector.marking = false
  clean : .missed ∉ m.journal

variable {m m' m'' : Machine}

theorem Sound.collectable (hm : m.Sound) : m.Collectable where
  typed := hm.store.typed
  registered := hm.store.tidy.registered
  nodup := hm.store.tidy.nodup
  stamped := hm.store.tidy.stamped
  readable t ht hopen := by
    obtain ⟨th, rfl⟩ := thread_of_mem ht
    exact hm.readable th hopen

/-- what is spoken of by a reachable object is reachable -/
theorem Sound.reachable_mentions (hm : m.Sound) {h t : Handle} {c : Cell} {k : Kind} (hr : m.Reachable h)
    (hc : m.cell? h = some c) (ht : c.Mentions t k) : m.Reachable t := by
  cases ht with
  | names hn => exact .step hr hc hn
  | param hp =>
    obtain ⟨name, hname⟩ := hm.interned t (hm.store.held h _ hc t .symbol (.param hp))
    exact .root (.symbol hname)

/-- a pass keeps what is held firmly -/
theorem Firm.reachable (hm : m.Sound) {h : Handle} (hf : m.Firm h) : m.Reachable h := by
  induction hf with
  | pin hopen hv hn => exact .root (.pin (mem_threads hopen) hopen hv hn)
  | inUse hu => exact .root (.inUse hu)
  | symbol hs => exact .root (.symbol hs)
  | exhausted => exact .root .exhausted
  | step _ hs _ ht ih => exact hm.reachable_mentions ih (Heap.cell?_of_slot? hs) ht

/-! ## What a run keeps -/

/-- a run has left what it had entered and dropped what it had pinned, apart from results -/
structure Keeps (m m' : Machine) : Prop where
  threads : ∀ th, (m'.thread th).isOpen = (m.thread th).isOpen ∧
    (m.thread th).pins.toList <+: (m'.thread th).pins.toList ∧ (m'.thread th).scopes = (m.thread th).scopes
  uses : ∀ h, m'.useCount h = m.useCount h
  global : m'.globalScope = m.globalScope
  symbols : m.symbols <:+ m'.symbols
  stable : ∀ h s, m.Firm h → m.heap.slot? h = some s → ∃ s', m'.heap.slot? h = some s' ∧ s.Stable s'

/-- a run that has only added to the machine -/
structure Adds (m m' : Machine) : Prop extends Keeps m m' where
  grows : m.heap.Grows m'.heap
  stack : ∀ th, (m'.thread th).stack = (m.thread th).stack

namespace Keeps

theorem refl (m : Machine) : m.Keeps m where
  threads _ := ⟨rfl, List.prefix_rfl, rfl⟩
  uses _ := rfl
  global := rfl
  symbols := List.suffix_rfl
  stable _ s _ hs := ⟨s, hs, .refl s⟩

theorem firm (h : m.Keeps m') {t : Handle} (hf : m.Firm t) : m'.Firm t := by
  induction hf with
  | pin hopen hv hn =>
    obtain ⟨hopen', hpins, -⟩ := h.threads _
    exact .pin (hopen'.trans hopen) (Array.mem_toList_iff.1 (hpins.subset (Array.mem_toList_iff.2 hv))) hn
  | inUse hu => exact .inUse (by rwa [h.uses])
  | symbol hs => exact .symbol (h.symbols.subset hs)
  | exhausted => exact .exhausted
  | step hf hs hfirm ht ih =>
    obtain ⟨s', hs', hstable⟩ := h.stable _ _ hf hs
    exact .step ih hs' (hstable.isFirm hfirm) (hstable.mentions hfirm ht)

theorem trans (h : m.Keeps m') (h' : m'.Keeps m'') : m.Keeps m'' where
  threads th := by
    obtain ⟨hopen, hpins, hscopes⟩ := h.threads th
    obtain ⟨hopen', hpins', hscopes'⟩ := h'.threads th
    exact ⟨hopen'.trans hopen, hpins.trans hpins', hscopes'.trans hscopes⟩
  uses t := (h'.uses t).trans (h.uses t)
  global := h'.global.trans h.global
  symbols := h.symbols.trans h'.symbols
  stable t s hf hs := by
    obtain ⟨s', hs', hstable⟩ := h.stable t s hf hs
    obtain ⟨s'', hs'', hstable'⟩ := h'.stable t s' (h.firm hf) hs'
    exact ⟨s'', hs'', hstable.trans hstable'⟩

end Keeps

namespace Adds

theorem refl (m : Machine) : m.Adds m := { Keeps.refl m with grows := .refl _, stack := fun _ => rfl }

theorem trans (h : m.Adds m') (h' : m'.Adds m'') : m.Adds m'' :=
  { h.toKeeps.trans h'.toKeeps with
    grows := h.grows.trans h'.grows
    stack := fun th => (h'.stack th).trans (h.stack th) }

/-- a machine that has only grown keeps everything -/
theorem of_grows (hgrows : m.heap.Grows m'.heap)
    (hthreads : ∀ th, (m'.thread th).isOpen = (m.thread th).isOpen ∧
      (m.thread th).pins.toList <+: (m'.thread th).pins.toList ∧
      (m'.thread th).scopes = (m.thread th).scopes ∧ (m'.thread th).stack = (m.thread th).stack)
    (huses : m'.uses = m.uses) (hglobal : m'.globalScope = m.globalScope) (hsymbols : m.symbols <:+ m'.symbols) :
    m.Adds m' where
  threads th := by
    obtain ⟨h₁, h₂, h₃, -⟩ := hthreads th
    exact ⟨h₁, h₂, h₃⟩
  uses h := by unfold useCount; rw [huses]
  global := hglobal
  symbols := hsymbols
  stable h s _ hs := ⟨s, hgrows h s hs, .refl s⟩
  grows := hgrows
  stack th := (hthreads th).2.2.2

end Adds

/-! ## Passes -/

/-- the machine after a pass: as it was, but for objects that nothing led to -/
structure Pruned (m m' : Machine) : Prop where
  store : m.heap.Pruned m'.heap
  rooted : ∀ h, m.Root h → (m.heap.slot? h).isSome → (m'.heap.slot? h).isSome
  others : m' = { m with heap := m'.heap, collector := m'.collector, journal := m'.journal }

theorem Sound.pruned (hm : m.Sound) : m.Pruned m := ⟨hm.store.pruned, fun _ _ => id, rfl⟩

section

variable (hm : m.Sound) (trigger : Trigger)
include hm

theorem Sound.slot?_collected {h : Handle} {s' : Slot} (hs' : (m.collected trigger).heap.slot? h = some s') :
    m.Reachable h ∧ ∃ s, m.heap.slot? h = some s ∧ s' = { s with epoch := m.collector.epoch + 1 } :=
  hm.collectable.slot?_collected hs'

theorem Sound.collected_slot? {h : Handle} {s : Slot} (hs : m.heap.slot? h = some s) (hr : m.Reachable h) :
    (m.collected trigger).heap.slot? h = some { s with epoch := m.collector.epoch + 1 } := by
  have hsome : (m.collectedHeap.slot? h).isSome := hm.collectable.isSome_collected.2 ⟨by simp [hs], hr⟩
  obtain ⟨s', hs'⟩ := Option.isSome_iff_exists.1 hsome
  obtain ⟨-, u, hu, rfl⟩ := hm.collectable.slot?_collected hs'
  obtain rfl := Option.some.inj (hs.symm.trans hu)
  exact hs'

theorem Sound.pruned_collected : m.Pruned (m.collected trigger) where
  store := by
    refine ⟨?_, fun h s' hs' => ?_, fun h c t k hc ht => ?_⟩
    · exact (Heap.births_releaseAll ..).trans markedHeap_restamped.births
    · obtain ⟨-, s, hs, rfl⟩ := hm.slot?_collected trigger hs'
      exact ⟨s, hs, rfl, rfl, rfl⟩
    · obtain ⟨s', hs', rfl⟩ := Heap.cell?_eq_some.1 hc
      obtain ⟨hr, s, hs, rfl⟩ := hm.slot?_collected trigger hs'
      have hcell := Heap.cell?_of_slot? hs
      obtain ⟨u, hu⟩ := Option.isSome_iff_exists.1 (Heap.isSome_of_kind? (hm.store.held h _ hcell t k ht))
      rw [hm.collected_slot? trigger hu (hm.reachable_mentions hr hcell ht)]
      rfl
  rooted h hroot hs := hm.collectable.isSome_collected.2 ⟨hs, .root hroot⟩
  others := rfl

theorem Sound.keeps_collected : m.Keeps (m.collected trigger) where
  threads _ := ⟨rfl, List.prefix_rfl, rfl⟩
  uses _ := rfl
  global := rfl
  symbols := List.suffix_rfl
  stable h s hf hs := by
    refine ⟨_, hm.collected_slot? trigger hs (hf.reachable hm), rfl, fun _ _ => rfl, fun sc hsc => ?_⟩
    exact (Slot.Stable.refl s).scope sc hsc

theorem Sound.tidy_collected : (m.collected trigger).heap.Tidy (m.collector.epoch + 1) := by
  have ht := hm.store.tidy
  have hc := hm.collectable
  have hslot {h : Handle} {s' : Slot} (hs' : (m.collected trigger).heap.slot? h = some s') :
      ∃ s, m.heap.slot? h = some s ∧ s' = { s with epoch := m.collector.epoch + 1 } :=
    (hm.slot?_collected trigger hs').2
  have hregistry : ∀ h, h ∈ (m.collected trigger).heap.registry ↔ ((m.collected trigger).heap.slot? h).isSome := by
    intro h
    rw [← Array.mem_toList_iff, show (m.collected trigger).heap = m.collectedHeap from rfl, hc.registry_collected,
      hc.isSome_collected]
    simp [hc.registered]
  have hsize : (m.collected trigger).heap.slots.size = m.heap.slots.size := by
    exact (Heap.size_releaseAll ..).trans markedHeap_restamped.size
  have hfree : (m.collected trigger).heap.free =
      (m.markedHeap.doomed (m.collector.epoch + 1)).reverse ++ m.heap.free := by
    exact (Heap.free_releaseAll ..).trans (by rw [markedHeap_restamped.free])
  have hdoomed : ∀ h ∈ m.markedHeap.doomed (m.collector.epoch + 1), (m.heap.slot? h).isSome ∧ ¬ m.Reachable h := by
    intro h hh
    have hin : (m.heap.slot? h).isSome := by
      rw [Heap.mem_doomed, markedHeap_restamped.registry, hc.registered] at hh
      exact hh.1
    exact ⟨hin, (hc.mem_doomed_iff hin).1 hh⟩
  refine ⟨hregistry, ?_, fun h s' hs' => ?_, fun h hh => ?_, ?_, fun h s' hs' => ?_, fun g h u u' hu hu' hser => ?_⟩
  · rw [show (m.collected trigger).heap = m.collectedHeap from rfl, hc.registry_collected]
    exact hc.nodup.filter _
  · obtain ⟨s, -, rfl⟩ := hslot hs'
    exact le_rfl
  · rw [hsize]
    rw [hfree, List.mem_append, List.mem_reverse] at hh
    have hgone (hno : ¬((m.heap.slot? h).isSome ∧ m.Reachable h)) : (m.collected trigger).heap.slot? h = none := by
      rw [← Option.not_isSome_iff_eq_none, show (m.collected trigger).heap = m.collectedHeap from rfl, hc.isSome_collected]
      exact hno
    rcases hh with hh | hh
    · obtain ⟨hin, hno⟩ := hdoomed h hh
      obtain ⟨s, hs⟩ := Option.isSome_iff_exists.1 hin
      exact ⟨Heap.slot?_lt hs, hgone fun h => hno h.2⟩
    · obtain ⟨hlt, hnone⟩ := ht.vacant h hh
      exact ⟨hlt, hgone fun h => by simp [hnone] at h⟩
  · rw [hfree, List.nodup_append]
    refine ⟨List.nodup_reverse.2 ?_, ht.distinct, fun h hh g hg heq => ?_⟩
    · unfold Heap.doomed
      rw [markedHeap_restamped.registry]
      exact hc.nodup.filter _
    · subst heq
      have := (hdoomed h (List.mem_reverse.1 hh)).1
      simp [(ht.vacant h hg).2] at this
  · obtain ⟨s, hs, rfl⟩ := hslot hs'
    rw [(hm.pruned_collected trigger).store.births]
    exact ht.serial_lt h s hs
  · obtain ⟨s, hs, rfl⟩ := hslot hu
    obtain ⟨s', hs', rfl⟩ := hslot hu'
    exact ht.serial_inj g h s s' hs hs' hser

theorem Sound.collect : (m.collected trigger).Sound := by
  have hpruned := hm.pruned_collected trigger
  have hkind {h : Handle} {k : Kind} (hk : m.heap.kind? h = some k) (hr : m.Reachable h) :
      (m.collected trigger).heap.kind? h = some k := by
    obtain ⟨c, hc, rfl⟩ := Heap.kind?_eq_some.1 hk
    obtain ⟨s, hs, rfl⟩ := Heap.cell?_eq_some.1 hc
    exact Heap.kind?_eq_some.2 ⟨_, Heap.cell?_of_slot? (hm.collected_slot? trigger hs hr), rfl⟩
  have hcell {h : Handle} {s' : Slot} (hs' : (m.collected trigger).heap.slot? h = some s') :
      m.Reachable h ∧ ∃ s, m.heap.slot? h = some s ∧ s' = { s with epoch := m.collector.epoch + 1 } :=
    hm.slot?_collected trigger hs'
  have htext {h : Handle} {s : Slot} {v : Value} (hs : m.heap.slot? h = some s) (hr : m.Reachable h)
      (hn : ∀ t, v.Names t .cons → s.cell.Names t .cons) (hv : v.IsText m.heap) :
      v.IsText (m.collected trigger).heap := by
    cases v with
    | cons t =>
      obtain ⟨u, hu, hflag⟩ := hv
      exact ⟨_, hm.collected_slot? trigger hu
        (hm.reachable_mentions hr (Heap.cell?_of_slot? hs) (.names (hn t (.cons t)))), hflag⟩
    | _ => exact hv
  refine
    { store := ⟨hm.tidy_collected trigger, fun h c hc t k ht => ?_, fun h s' hs' => ?_⟩
      symbols := fun name h hs => hkind (hm.symbols name h hs) (.root (.symbol hs))
      interned := fun h hk => ?_
      exhausted := ?_
      used := fun h hu => hkind (hm.used h hu) (.root (.inUse hu))
      scopes := hm.scopes
      inside := hm.inside
      readable := hm.readable
      owners := hm.owners
      unowned := hm.unowned
      unlike := hm.unlike
      global := hm.global
      marking := rfl
      clean := by simpa [collected] using hm.clean }
  · obtain ⟨s', hs', rfl⟩ := Heap.cell?_eq_some.1 hc
    obtain ⟨hr, s, hs, rfl⟩ := hcell hs'
    have hc := Heap.cell?_of_slot? hs
    exact hkind (hm.store.held h _ hc t k ht) (hm.reachable_mentions hr hc ht)
  · obtain ⟨hr, s, hs, rfl⟩ := hcell hs'
    have hw := hm.store.wellMade h s hs
    refine ⟨fun a d hc hflag => ?_, fun f list outer hc hb => ?_, hw.primitive, hw.keys⟩
    · obtain ⟨ha, hd⟩ := hw.text a d hc hflag
      exact ⟨htext hs hr (fun t ht => hc ▸ .car ht) ha, htext hs hr (fun t ht => hc ▸ .cdr ht) hd⟩
    · exact htext hs hr (fun t ht => hc ▸ .body hb ht) (hw.body f list outer hc hb)
  · obtain ⟨c, hc, hk⟩ := Heap.kind?_eq_some.1 hk
    obtain ⟨s', hs', rfl⟩ := Heap.cell?_eq_some.1 hc
    obtain ⟨-, s, hs, rfl⟩ := hcell hs'
    exact hm.interned h (Heap.kind?_eq_some.2 ⟨_, Heap.cell?_of_slot? hs, hk⟩)
  · obtain ⟨epoch, hs⟩ := hm.exhausted
    exact ⟨_, hm.collected_slot? trigger hs (.root .exhausted)⟩

end

end Machine

end LispMachine
