/-
Single steps of two machines in tandem: what is changed on one side has its like on the other.

A step changes one thread, the heap, or what is noted beside them; each keeps both machines sound and in agreement.
-/
import LispMachine.Proofs.Tandem.Situation

namespace LispMachine

variable {ρ ρ' : Kind → Handle → Handle → Prop}

/-! ## Threads -/

namespace Machine

variable {m m' : Machine} {th : ThreadId}

/-- what an open thread of a sound machine may be -/
structure Fits (m : Machine) (th : ThreadId) (t : Thread) : Prop where
  id : t.stack.id = (m.thread th).stack.id
  isOpen : t.isOpen = true
  scopes : ∀ h ∈ t.scopes, m.useCount h ≠ 0
  inside : t.scopes.size ≠ 0
  readable : t.stack.beyond = 0

theorem Sound.fits (hm : m.Sound) (ho : (m.thread th).isOpen = true) : m.Fits th (m.thread th) :=
  ⟨rfl, ho, hm.scopes th ho, hm.inside th ho, hm.readable th ho⟩

/-- one thread changes -/
theorem Sound.onThread (hm : m.Sound) (ho : (m.thread th).isOpen = true) {f : Thread → Thread}
    (hf : m.Fits th (f (m.thread th))) : (m.onThread th f).Sound :=
  { hm with
    scopes := fun t h => by
      rw [thread_onThread ho] at h ⊢
      split at h
      · rename_i heq; rw [if_pos heq]; exact hf.scopes
      · rename_i hne; rw [if_neg hne]; exact hm.scopes t h
    inside := fun t h => by
      rw [thread_onThread ho] at h ⊢
      split at h
      · rename_i heq; rw [if_pos heq]; exact hf.inside
      · rename_i hne; rw [if_neg hne]; exact hm.inside t h
    readable := fun t h => by
      rw [thread_onThread ho] at h ⊢
      split at h
      · rename_i heq; rw [if_pos heq]; exact hf.readable
      · rename_i hne; rw [if_neg hne]; exact hm.readable t h
    owners := fun id t => by
      rw [thread_onThread ho]
      split
      · rename_i heq
        subst heq
        have howner := hm.owners id t
        rw [ho] at howner
        rw [hf.isOpen, hf.id]
        exact howner
      · exact hm.owners id t }

theorem Agree.onThread (ha : m.Agree m') (ho : (m.thread th).isOpen = true) (ho' : (m'.thread th).isOpen = true)
    {f f' : Thread → Thread} (hf : (f (m.thread th)).Like (m.Corr m') (f' (m'.thread th))) :
    (m.onThread th f).Agree (m'.onThread th f') :=
  { ha with
    size := by simp only [Machine.onThread, Array.size_modify]; exact ha.size
    threads := fun t => by
      rw [thread_onThread ho, thread_onThread ho']
      split
      · exact hf
      · exact ha.threads t }

/-- a change of one thread that leaves scopes and pins in place -/
theorem keeps_onThread (ho : (m.thread th).isOpen = true) {f : Thread → Thread}
    (hopen : (f (m.thread th)).isOpen = true)
    (hpins : (m.thread th).pins.toList <+: (f (m.thread th)).pins.toList)
    (hscopes : (f (m.thread th)).scopes = (m.thread th).scopes) : m.Keeps (m.onThread th f) where
  threads t := by
    rw [thread_onThread ho]
    split
    · rename_i heq; subst heq; exact ⟨hopen.trans ho.symm, hpins, hscopes⟩
    · exact ⟨rfl, List.prefix_rfl, rfl⟩
  uses _ := rfl
  global := rfl
  symbols := List.suffix_rfl
  stable _ s _ hs := ⟨s, hs, .refl s⟩

theorem adds_onThread (ho : (m.thread th).isOpen = true) {f : Thread → Thread}
    (hopen : (f (m.thread th)).isOpen = true)
    (hpins : (m.thread th).pins.toList <+: (f (m.thread th)).pins.toList)
    (hscopes : (f (m.thread th)).scopes = (m.thread th).scopes)
    (hstack : (f (m.thread th)).stack = (m.thread th).stack) : m.Adds (m.onThread th f) :=
  { keeps_onThread ho hopen hpins hscopes with
    grows := .refl _
    stack := fun t => by
      rw [thread_onThread ho]
      split
      · rename_i heq; subst heq; exact hstack
      · rfl }

end Machine

/-! ## Cells that are alike are alike in what they hold -/

section

variable {hp hp' : Heap}

theorem Value.Like.holds {v v' : Value} (h : v.Like (hp.Corr hp') v') :
    (∀ t k, v.Names t k → hp.kind? t = some k) ∧ ∀ t k, v'.Names t k → hp'.kind? t = some k := by
  constructor
  · intro t k hn
    cases h <;> cases hn <;> exact (Heap.Corr.kind? ‹_›).1
  · intro t k hn
    cases h <;> cases hn <;> exact (Heap.Corr.kind? ‹_›).2

theorem Value.Leads.holds {v v' : Value} (h : v.Leads (hp.Corr hp') v') :
    (∀ t k, v.Names t k → hp.kind? t = some k) ∧ ∀ t k, v'.Names t k → hp'.kind? t = some k := by
  constructor
  · intro t k hn
    cases h <;> cases hn <;> exact (Heap.Corr.kind? ‹_›).1
  · intro t k hn
    cases h <;> cases hn <;> exact (Heap.Corr.kind? ‹_›).2

/-- the handles of an optional name -/
theorem optionRel_holds {o o' : Option Handle} {k : Kind} (h : Option.Rel (hp.Corr hp' k) o o') :
    (∀ t, o = some t → hp.kind? t = some k) ∧ ∀ t, o' = some t → hp'.kind? t = some k := by
  cases h with
  | some hc => exact ⟨fun t ht => by cases ht; exact hc.kind?.1, fun t ht => by cases ht; exact hc.kind?.2⟩
  | none => simp

theorem forall₂_holds {hs hs' : List Handle} {k : Kind} (h : List.Forall₂ (hp.Corr hp' k) hs hs') :
    (∀ t ∈ hs, hp.kind? t = some k) ∧ ∀ t ∈ hs', hp'.kind? t = some k := by
  induction h with
  | nil => simp
  | cons hc _ ih =>
    exact ⟨List.forall_mem_cons.2 ⟨hc.kind?.1, ih.1⟩, List.forall_mem_cons.2 ⟨hc.kind?.2, ih.2⟩⟩

theorem Function.Like.holds {f f' : Function} (h : f.Like (hp.Corr hp') f') :
    hp.Holds (.function f) ∧ hp'.Holds (.function f') := by
  obtain ⟨hname, hparams, hbody⟩ := h
  have hsource := hparams.source.holds
  have hsymbols := forall₂_holds hparams.symbols
  have hnames := optionRel_holds hname
  constructor
  · rintro t k (hn | hp)
    · cases hn with
      | functionName hn => exact hnames.1 t hn
      | params hn => exact hsource.1 t k hn
      | body hb hn =>
        rw [hb] at hbody
        generalize f'.body = b at hbody
        cases hbody with
        | forms hl _ => exact hl.holds.1 t k hn
      | captured hb =>
        rw [hb] at hbody
        generalize f'.body = b at hbody
        cases hbody with
        | forms _ ho => cases ho with
          | scope hc => exact hc.kind?.1
    · exact hsymbols.1 t hp
  · rintro t k (hn | hp)
    · cases hn with
      | functionName hn => exact hnames.2 t hn
      | params hn => exact hsource.2 t k hn
      | body hb hn =>
        rw [hb] at hbody
        generalize f.body = b at hbody
        cases hbody with
        | forms hl _ => exact hl.holds.2 t k hn
      | captured hb =>
        rw [hb] at hbody
        generalize f.body = b at hbody
        cases hbody with
        | forms _ ho => cases ho with
          | scope hc => exact hc.kind?.2
    · exact hsymbols.2 t hp

theorem Scope.Like.holds {s s' : Scope} (h : s.Like (hp.Corr hp') s') :
    hp.Holds (.scope s) ∧ hp'.Holds (.scope s') := by
  obtain ⟨hname, hparent, htable, -⟩ := h
  have hnames := optionRel_holds hname
  have hbound : (∀ e ∈ s.table, hp.kind? e.1 = some .symbol ∧ ∀ t k, e.2.Names t k → hp.kind? t = some k) ∧
      ∀ e ∈ s'.table, hp'.kind? e.1 = some .symbol ∧ ∀ t k, e.2.Names t k → hp'.kind? t = some k := by
    generalize s.table = table, s'.table = table' at htable
    induction htable with
    | nil => simp
    | cons he _ ih =>
      have hl := he.2.holds
      exact ⟨List.forall_mem_cons.2 ⟨⟨he.1.kind?.1, hl.1⟩, ih.1⟩, List.forall_mem_cons.2 ⟨⟨he.1.kind?.2, hl.2⟩, ih.2⟩⟩
  constructor
  · rintro t k (hn | hn)
    cases hn with
    | scopeName hn => exact hnames.1 t hn
    | parent hp =>
      rw [hp] at hparent
      generalize s'.parent = p at hparent
      cases hparent with
      | scope hc => exact hc.kind?.1
    | bound hr => exact (hbound.1 _ hr).1
    | binding hr hn => exact (hbound.1 _ hr).2 t k hn
  · rintro t k (hn | hn)
    cases hn with
    | scopeName hn => exact hnames.2 t hn
    | parent hp =>
      rw [hp] at hparent
      generalize s.parent = p at hparent
      cases hparent with
      | scope hc => exact hc.kind?.2
    | bound hr => exact (hbound.2 _ hr).1
    | binding hr hn => exact (hbound.2 _ hr).2 t k hn

theorem Cell.Same.holds {c c' : Cell} (h : c.Same (hp.Corr hp') c') : hp.Holds c ∧ hp'.Holds c' := by
  obtain ⟨hlike, hscope⟩ := h
  cases hlike with
  | cons ha hd =>
    refine ⟨?_, ?_⟩
    · rintro t k (hn | hn)
      cases hn with
      | car hn => exact ha.holds.1 t k hn
      | cdr hn => exact hd.holds.1 t k hn
    · rintro t k (hn | hn)
      cases hn with
      | car hn => exact ha.holds.2 t k hn
      | cdr hn => exact hd.holds.2 t k hn
  | symbol name =>
    refine ⟨?_, ?_⟩
    · rintro t k (hn | hn)
      cases hn
    · rintro t k (hn | hn)
      cases hn
  | scope _ => exact (hscope _ _ rfl rfl).holds
  | function hf => exact hf.holds
  | error he =>
    obtain ⟨-, hname, hfirst, hsecond⟩ := he
    refine ⟨?_, ?_⟩
    · rintro t k (hn | hn)
      cases hn with
      | errorName hn => exact (optionRel_holds hname).1 t hn
      | first hn => exact hfirst.holds.1 t k hn
      | second hn => exact hsecond.holds.1 t k hn
    · rintro t k (hn | hn)
      cases hn with
      | errorName hn => exact (optionRel_holds hname).2 t hn
      | first hn => exact hfirst.holds.2 t k hn
      | second hn => exact hsecond.holds.2 t k hn
  | box hv =>
    refine ⟨?_, ?_⟩
    · rintro t k (hn | hn)
      cases hn with
      | content hn => exact hv.holds.1 t k hn
    · rintro t k (hn | hn)
      cases hn with
      | content hn => exact hv.holds.2 t k hn

end

/-! ## Allocation -/

namespace Heap

variable {hp hp' : Heap} {epoch epoch' : Nat}

/-- handles that correspond after an allocation did so before, or are the new ones -/
theorem corr_of_insert (ht : hp.Tidy epoch) (ht' : hp'.Tidy epoch') (ha : hp.Agree hp') {c c' : Cell} {text : Bool}
    {k : Kind} {h h' : Handle} (hc : (hp.insert c epoch text).Corr (hp'.insert c' epoch' text) k h h') :
    hp.Corr hp' k h h' ∨ h = hp.nextHandle ∧ h' = hp'.nextHandle := by
  obtain ⟨s, s', hs, hs', hserial, hk, hk'⟩ := hc
  rw [ht.slot?_insert] at hs
  rw [ht'.slot?_insert] at hs'
  split at hs <;> split at hs'
  · exact .inr ⟨‹_›, ‹_›⟩
  · obtain rfl := Option.some.inj hs
    exact absurd (ht'.serial_lt _ _ hs') (by simp [← hserial, ha.births])
  · obtain rfl := Option.some.inj hs'
    exact absurd (ht.serial_lt _ _ hs) (by simp [hserial, ha.births])
  · exact .inl ⟨s, s', hs, hs', hserial, hk, hk'⟩

/-- the kind of an object after an allocation -/
theorem kind?_insert (ht : hp.Tidy epoch) (c : Cell) (text : Bool) (h : Handle) :
    (hp.insert c epoch text).kind? h = if h = hp.nextHandle then some c.kind else hp.kind? h := by
  unfold kind? cell?
  rw [ht.slot?_insert]
  split <;> rfl

end Heap

namespace Machine

/-- the machine with one more object -/
def alloc (m : Machine) (c : Cell) (text : Bool) : Machine := { m with heap := m.heap.insert c m.collector.epoch text }

/-- the machine with one more symbol -/
def withSymbol (m : Machine) (name : String) : Machine :=
  { m.alloc (.symbol name) false with symbols := (name, m.heap.nextHandle) :: m.symbols }

variable {m m' : Machine}

theorem adds_alloc (hm : m.Sound) (c : Cell) (text : Bool) : m.Adds (m.alloc c text) :=
  .of_grows (hm.store.tidy.grows_insert c text) (fun _ => ⟨rfl, List.prefix_rfl, rfl, rfl⟩) rfl rfl List.suffix_rfl

theorem adds_withSymbol (hm : m.Sound) (name : String) : m.Adds (m.withSymbol name) :=
  .of_grows (hm.store.tidy.grows_insert _ false) (fun _ => ⟨rfl, List.prefix_rfl, rfl, rfl⟩) rfl rfl (List.suffix_cons _ _)

theorem Sound.alloc (hm : m.Sound) {c : Cell} {text : Bool} (hk : c.kind ≠ .symbol) (hc : m.heap.Holds c)
    (hw : (⟨c, m.collector.epoch, m.heap.births, text⟩ : Slot).WellMade m.heap) : (m.alloc c text).Sound :=
  have hl := (hm.store.tidy.grows_insert c text).labelled
  { hm with
    store := hm.store.insert hc hw
    symbols := fun name h hs => hl.kind? (hm.symbols name h hs)
    interned := fun h hh => by
      simp only [Machine.alloc, Heap.kind?_insert hm.store.tidy] at hh
      split at hh
      · exact absurd (Option.some.inj hh) hk
      · exact hm.interned h hh
    exhausted := by
      obtain ⟨epoch, hs⟩ := hm.exhausted
      exact ⟨epoch, hm.store.tidy.grows_insert c text _ _ hs⟩
    used := fun h hu => hl.kind? (hm.used h hu) }

theorem Sound.withSymbol (hm : m.Sound) (name : String) : (m.withSymbol name).Sound :=
  have hl := (hm.store.tidy.grows_insert (.symbol name) false).labelled
  { hm with
    store := hm.store.insert (by rintro t k (hn | hn); cases hn) <| by
      refine ⟨fun a d h => ?_, fun f list outer h => ?_, fun f p special h => ?_, fun sc h => ?_⟩
      · cases h
      · cases h
      · cases h
      · cases h
    symbols := fun n h hs => by
      rcases List.mem_cons.1 hs with heq | hs
      · obtain ⟨-, rfl⟩ := Prod.mk.inj heq
        exact (Heap.kind?_insert hm.store.tidy _ _ _).trans (if_pos rfl)
      · exact hl.kind? (hm.symbols n h hs)
    interned := fun h hh => by
      simp only [Machine.withSymbol, Machine.alloc, Heap.kind?_insert hm.store.tidy] at hh
      split at hh
      · rename_i heq
        exact ⟨name, heq ▸ List.mem_cons_self⟩
      · obtain ⟨n, hn⟩ := hm.interned h hh
        exact ⟨n, List.mem_cons_of_mem _ hn⟩
    exhausted := by
      obtain ⟨epoch, hs⟩ := hm.exhausted
      exact ⟨epoch, hm.store.tidy.grows_insert _ false _ _ hs⟩
    used := fun h hu => hl.kind? (hm.used h hu) }

/-- what corresponds after an allocation: what did before, and the new objects -/
theorem corr_alloc (hm : m.Sound) (hm' : m'.Sound) {c c' : Cell} {text : Bool} {k : Kind} {h h' : Handle}
    (hc : m.Corr m' k h h') : (m.alloc c text).Corr (m'.alloc c' text) k h h' :=
  hc.mono (hm.store.tidy.grows_insert c text).labelled (hm'.store.tidy.grows_insert c' text).labelled

theorem Agree.alloc (hm : m.Sound) (hm' : m'.Sound) (ha : m.Agree m') {c c' : Cell} {text : Bool}
    (hc : c.Same (m.Corr m') c') : (m.alloc c text).Agree (m'.alloc c' text) :=
  have hmono : ∀ k h h', m.Corr m' k h h' → (m.alloc c text).Corr (m'.alloc c' text) k h h' :=
    fun _ _ _ => corr_alloc hm hm'
  have hvacant {m : Machine} (hm : m.Sound) : m.useCount m.heap.nextHandle = 0 := by
    by_contra hne
    have := Heap.isSome_of_kind? (hm.used _ hne)
    simp [hm.store.tidy.slot?_nextHandle] at this
  { ha with
    store := ha.store.insert hm.store.tidy hm'.store.tidy hc
    symbols := ha.symbols.imp fun _ _ he => ⟨he.1, hmono _ _ _ he.2⟩
    globalScope := optionRel_mono (hmono _) ha.globalScope
    uses := fun h h' hh => by
      rcases Heap.corr_of_insert hm.store.tidy hm'.store.tidy ha.store hh with hh | ⟨rfl, rfl⟩
      · exact ha.uses h h' hh
      · exact (hvacant hm).trans (hvacant hm').symm
    threads := fun th => (ha.threads th).mono hmono }

theorem Agree.withSymbol (hm : m.Sound) (hm' : m'.Sound) (ha : m.Agree m') (name : String) :
    (m.withSymbol name).Agree (m'.withSymbol name) :=
  have halloc : (m.alloc (.symbol name) false).Agree (m'.alloc (.symbol name) false) :=
    ha.alloc hm hm' ((Cell.Like.symbol name).same (by simp [Cell.kind]))
  { halloc with
    symbols := .cons ⟨rfl, Heap.corr_insert hm.store.tidy hm'.store.tidy ha.store rfl rfl⟩ halloc.symbols }

/-! ## Stores -/

/-- the machine with other contents of an object -/
def written (m : Machine) (h : Handle) (c : Cell) : Machine := { m with heap := m.heap.write h c }

variable {h h' : Handle} {s s' : Slot} {c c' : Cell}

theorem keeps_written (hs : m.heap.slot? h = some s) (hstable : s.Stable { s with cell := c }) :
    m.Keeps (m.written h c) where
  threads _ := ⟨rfl, List.prefix_rfl, rfl⟩
  uses _ := rfl
  global := rfl
  symbols := List.suffix_rfl
  stable g u _ hu := by
    simp only [Machine.written, Heap.slot?_write]
    split
    · rename_i heq
      subst heq
      obtain rfl := Option.some.inj (hs.symm.trans hu)
      exact ⟨_, by rw [hs]; rfl, hstable⟩
    · exact ⟨u, hu, .refl u⟩

theorem Sound.written (hm : m.Sound) (hs : m.heap.slot? h = some s) (hk : c.kind = s.cell.kind) (he : c.kind ≠ .error)
    (hc : m.heap.Holds c) (hw : ({ s with cell := c } : Slot).WellMade m.heap) : (m.written h c).Sound :=
  have hl := Heap.labelled_write hs hk
  { hm with
    store := hm.store.write hs hk hc hw
    symbols := fun name g hg => hl.kind? (hm.symbols name g hg)
    interned := fun g hg => by
      refine hm.interned g ?_
      obtain ⟨d, hd, hkind⟩ := Heap.kind?_eq_some.1 hg
      obtain ⟨u, hu, rfl⟩ := Heap.cell?_eq_some.1 hd
      rw [Machine.written, Heap.slot?_write] at hu
      split at hu
      · rename_i heq
        rw [hs] at hu
        obtain rfl := Option.some.inj hu
        exact Heap.kind?_eq_some.2 ⟨_, Heap.cell?_of_slot? (heq ▸ hs), hk.symm.trans hkind⟩
      · exact Heap.kind?_eq_some.2 ⟨_, Heap.cell?_of_slot? hu, hkind⟩
    exhausted := by
      obtain ⟨epoch, hx⟩ := hm.exhausted
      refine ⟨epoch, ?_⟩
      rw [Machine.written, Heap.slot?_write, if_neg]
      · exact hx
      · intro heq
        rw [heq, hs] at hx
        obtain rfl := Option.some.inj hx
        exact he hk
    used := fun g hu => hl.kind? (hm.used g hu) }

theorem Agree.written (hm : m.Sound) (hm' : m'.Sound) (ha : m.Agree m') (hs : m.heap.slot? h = some s)
    (hs' : m'.heap.slot? h' = some s') (hserial : s.serial = s'.serial) (hk : c.kind = s.cell.kind)
    (hk' : c'.kind = s'.cell.kind) (hc : c.Same (m.Corr m') c') : (m.written h c).Agree (m'.written h' c') :=
  have hmono : ∀ k g g', m.Corr m' k g g' → (m.written h c).Corr (m'.written h' c') k g g' :=
    fun _ _ _ => .mono (Heap.labelled_write hs hk) (Heap.labelled_write hs' hk')
  { ha with
    store := ha.store.write hm.store.tidy hm'.store.tidy hs hs' hserial hk hk' hc
    symbols := ha.symbols.imp fun _ _ he => ⟨he.1, hmono _ _ _ he.2⟩
    globalScope := optionRel_mono (hmono _) ha.globalScope
    uses := fun g g' hg => by
      refine ha.uses g g' ?_
      obtain ⟨u, u', hu, hu', hser, hkind, hkind'⟩ := hg
      rw [Machine.written, Heap.slot?_write] at hu hu'
      have hback {m : Machine} {g h : Handle} {s u : Slot} {c : Cell} (hs : m.heap.slot? h = some s) (hk : c.kind = s.cell.kind)
          (hu : (if g = h then (m.heap.slot? h).map fun s => { s with cell := c } else m.heap.slot? g) = some u) :
          ∃ v, m.heap.slot? g = some v ∧ v.serial = u.serial ∧ v.cell.kind = u.cell.kind := by
        split at hu
        · rename_i heq
          rw [hs] at hu
          obtain rfl := Option.some.inj hu
          exact ⟨s, heq ▸ hs, rfl, hk.symm⟩
        · exact ⟨u, hu, rfl, rfl⟩
      obtain ⟨v, hv, hser₁, hk₁⟩ := hback hs hk hu
      obtain ⟨v', hv', hser₂, hk₂⟩ := hback hs' hk' hu'
      exact ⟨v, v', hv, hv', by rw [hser₁, hser₂, hser], by rw [hk₁, hkind], by rw [hk₂, hkind']⟩
    threads := fun th => (ha.threads th).mono hmono }

/-! ## Scopes in use -/

/-- the machine with another count of uses of a scope -/
def withUses (m : Machine) (h : Handle) (n : Nat) : Machine := { m with uses := Act.setUses m.uses h n }

/-- a scope is in use at least once -/
theorem Sound.withUses (hm : m.Sound) {h : Handle} {n : Nat} (hn : n ≠ 0) (hk : m.heap.kind? h = some .scope) :
    (m.withUses h n).Sound :=
  have hcount (g : Handle) (hg : m.useCount g ≠ 0) : (m.withUses h n).useCount g ≠ 0 := by
    rw [Machine.withUses, useCount_setUses]
    split
    · exact hn
    · exact hg
  { hm with
    used := fun g hg => by
      rw [Machine.withUses, useCount_setUses] at hg
      split at hg
      · rename_i heq; exact heq ▸ hk
      · exact hm.used g hg
    scopes := fun t ho g hg => hcount g (hm.scopes t ho g hg)
    global := fun g hg => hcount g (hm.global g hg) }

theorem Agree.withUses {epoch epoch' : Nat} (ht : m.heap.Tidy epoch) (ht' : m'.heap.Tidy epoch') (ha : m.Agree m')
    {h h' : Handle} (hc : m.Corr m' .scope h h') (n : Nat) :
    (m.withUses h n).Agree (m'.withUses h' n) :=
  { ha with
    uses := fun g g' hg => by
      have hiff := Heap.Corr.unique ht ht' hg hc
      rw [Machine.withUses, Machine.withUses, useCount_setUses, useCount_setUses]
      simp only [hiff]
      split
      · rfl
      · exact ha.uses g g' hg }

/-! ## Passes -/

/-- passes on both sides, or on one, leave two machines in agreement -/
theorem Agree.pruned {m₁ m₁' : Machine} (ha : m.Agree m') (hm : m.Sound) (hm' : m'.Sound) (hp : m.Pruned m₁)
    (hp' : m'.Pruned m₁') : m₁.Agree m₁' := by
  have hroot {k : Kind} {h h' : Handle} (hc : m.Corr m' k h h') (hr : m.Root h) (hr' : m'.Root h') : m₁.Corr m₁' k h h' :=
    hc.pruned hp.store hp'.store (hp.rooted h hr (Heap.isSome_of_kind? hc.kind?.1))
      (hp'.rooted h' hr' (Heap.isSome_of_kind? hc.kind?.2))
  have hback {k : Kind} {h h' : Handle} (hc : m₁.Corr m₁' k h h') : m.Corr m' k h h' := by
    obtain ⟨u, u', hu, hu', hserial, hk, hk'⟩ := hc
    obtain ⟨s, hs, hcell, hser, -⟩ := hp.store.kept h u hu
    obtain ⟨s', hs', hcell', hser', -⟩ := hp'.store.kept h' u' hu'
    exact ⟨s, s', hs, hs', by rw [hser, hser', hserial], by rw [hcell, hk], by rw [hcell', hk']⟩
  have hcount (h : Handle) : m₁.useCount h = m.useCount h := by rw [hp.others]; rfl
  have hcount' (h : Handle) : m₁'.useCount h = m'.useCount h := by rw [hp'.others]; rfl
  have hthread (th : ThreadId) : m₁.thread th = m.thread th := by rw [hp.others]; rfl
  have hthread' (th : ThreadId) : m₁'.thread th = m'.thread th := by rw [hp'.others]; rfl
  refine
    { store := ha.store.pruned hp.store hp'.store
      symbols := ?_
      gensyms := by rw [hp.others, hp'.others]; exact ha.gensyms
      globalScope := ?_
      uses := fun h h' hc => by rw [hcount, hcount']; exact ha.uses h h' (hback hc)
      size := by rw [hp.others, hp'.others]; exact ha.size
      threads := fun th => ?_
      stackOwners := by rw [hp.others, hp'.others]; exact ha.stackOwners
      freeStacks := by rw [hp.others, hp'.others]; exact ha.freeStacks
      capacity := by rw [hp.others, hp'.others]; exact ha.capacity
      lines := by rw [hp.others, hp'.others]; exact ha.lines
      budget := by rw [hp.others, hp'.others]; exact ha.budget }
  · rw [show m₁.symbols = m.symbols by rw [hp.others], show m₁'.symbols = m'.symbols by rw [hp'.others]]
    exact forall₂_imp_mem ha.symbols fun e he e' he' h => ⟨h.1, hroot h.2 (.symbol he) (.symbol he')⟩
  · rw [show m₁.globalScope = m.globalScope by rw [hp.others], show m₁'.globalScope = m'.globalScope by rw [hp'.others]]
    have hg := ha.globalScope
    revert hg
    generalize ho : m.globalScope = o, ho' : m'.globalScope = o'
    rintro (hc | _)
    · exact .some (hroot hc (.inUse (hm.global _ ho)) (.inUse (hm'.global _ ho')))
    · exact .none
  · rw [hthread, hthread']
    refine ⟨(ha.threads th).isOpen, fun ho => ?_⟩
    have ho' : (m'.thread th).isOpen = true := (ha.threads th).isOpen ▸ ho
    have hin := mem_threads ho
    have hin' := mem_threads ho'
    obtain ⟨hid, hcapacity, hitems, hdepth, hscopes, hpins⟩ := (ha.threads th).alike ho
    refine ⟨hid, hcapacity, ?_, hdepth, ?_, ?_⟩
    · exact forall₂_imp_mem hitems fun v hv v' hv' h => h.mono_names fun k t t' ht ht' hc =>
        hroot hc (.slot hin ho (Array.mem_toList_iff.1 hv) ht) (.slot hin' ho' (Array.mem_toList_iff.1 hv') ht')
    · exact forall₂_imp_mem hscopes fun g hg g' hg' hc =>
        hroot hc (.scope hin ho (Array.mem_toList_iff.1 hg)) (.scope hin' ho' (Array.mem_toList_iff.1 hg'))
    · exact forall₂_imp_mem hpins fun v hv v' hv' h => h.mono_names fun k t t' ht ht' hc =>
        hroot hc (.pin hin ho (Array.mem_toList_iff.1 hv) ht) (.pin hin' ho' (Array.mem_toList_iff.1 hv') ht')

end Machine

end LispMachine
