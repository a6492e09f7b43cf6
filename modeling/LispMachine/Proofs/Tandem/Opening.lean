/-
Opening and closing a thread on two machines in tandem.

Two machines without a thread in common are abreast. A thread is opened on both of them, with the global scope once more in use; what
runs on it keeps what it has found, so that closing it brings the counts of uses back and the two are abreast again.
-/
import LispMachine.Proofs.Tandem.Sessions

namespace LispMachine

namespace Machine

/-- two sound machines that agree -/
structure Abreast (m m' : Machine) : Prop where
  sound : m.Sound
  sound' : m'.Sound
  agree : m.Agree m'

/-- an event is in a journal after which two machines are not compared -/
def Spoilt (same : Bool) (m m' : Machine) : Prop :=
  (∃ e ∈ m.journal, Tandem.Spoils same e) ∨ ∃ e ∈ m'.journal, Tandem.Spoils same e

variable {same : Bool}

theorem Spoilt.grow {m₁ m₁' m₂ m₂' : Machine} (h : Spoilt same m₁ m₁') (hm : m₁.journal <:+ m₂.journal)
    (hm' : m₁'.journal <:+ m₂'.journal) : Spoilt same m₂ m₂' := by
  rcases h with ⟨e, he, hs⟩ | ⟨e, he, hs⟩
  · exact .inl ⟨e, hm.subset he, hs⟩
  · exact .inr ⟨e, hm'.subset he, hs⟩

/-- a run that a full heap has ended -/
def Filled {α : Type} (o : Outcome α) : Prop := ∃ l, o = .error (.fault .exhausted) l ∧ .refused ∈ l.journal

theorem Filled.bind {α β : Type} {x : Act α} {m : Machine} (h : Filled (x.run m)) (f : α → Act β) :
    Filled ((x >>= f).run m) := by
  obtain ⟨l, hrun, hl⟩ := h
  exact ⟨l, Act.bind_error hrun, hl⟩

theorem Filled.attempt {α : Type} {x : Act α} {m : Machine} (h : Filled (x.run m)) : Filled ((Act.attempt x).run m) := by
  obtain ⟨l, hrun, hl⟩ := h
  refine ⟨l, ?_, hl⟩
  unfold Act.attempt
  rw [Act.run_bind, Act.run_observe, hrun]
  rfl

theorem Filled.spoilt {α : Type} {o o' : Outcome α} (h : Filled o ∨ Filled o') :
    Spoilt false (Outcome.machine o) (Outcome.machine o') := by
  have hspoils : Tandem.Spoils false .refused := .inr ⟨rfl, .inl rfl⟩
  rcases h with ⟨l, rfl, hl⟩ | ⟨l, rfl, hl⟩
  · exact .inl ⟨_, hl, hspoils⟩
  · exact .inr ⟨_, hl, hspoils⟩

variable {m m' : Machine}

theorem run_useScope (m : Machine) (h : Handle) :
    (Act.useScope h).run m = .ok () (m.withUses h (m.useCount h + 1)) := rfl

/-! ## The default global scope -/

/-- the machine with the default global scope under a handle -/
def withGlobalScope (m : Machine) (h : Handle) : Machine := { m with globalScope := some h }

/-- a new scope becomes the default global one -/
def rooted (m : Machine) (name : Handle) : Machine :=
  ((m.alloc (.scope { name := some name }) false).withUses m.heap.nextHandle 1).withGlobalScope m.heap.nextHandle

theorem Sound.rooted (hm : m.Sound) {name : Handle} (hname : m.heap.kind? name = some .symbol) : (m.rooted name).Sound := by
  have halloc : (m.alloc (.scope { name := some name }) false).Sound := by
    refine hm.alloc (by simp [Cell.kind]) ?_ ⟨by simp, by simp, by simp, by simp⟩
    rintro t k (hn | hn)
    cases hn with
    | scopeName hn => cases hn; exact hname
    | parent hp => cases hp
    | bound hr => cases hr
    | binding hr _ => cases hr
  have hkind : (m.alloc (.scope { name := some name }) false).heap.kind? m.heap.nextHandle = some .scope := by
    rw [Machine.alloc, Heap.kind?_insert hm.store.tidy, if_pos rfl]
    rfl
  have huses := halloc.withUses (n := 1) one_ne_zero hkind
  have hcount : ((m.alloc (.scope { name := some name }) false).withUses m.heap.nextHandle 1).useCount m.heap.nextHandle = 1 :=
    (useCount_setUses _ _ _ _).trans (if_pos rfl)
  exact { huses with
    global := fun g hg => by
      obtain rfl := Option.some.inj hg
      exact hcount.trans_ne one_ne_zero }

theorem Abreast.rooted (h : m.Abreast m') {name name' : Handle} (hname : m.Corr m' .symbol name name') :
    (m.rooted name).Abreast (m'.rooted name') ∧
      (m.rooted name).Corr (m'.rooted name') .scope m.heap.nextHandle m'.heap.nextHandle := by
  have hcorr : (m.rooted name).Corr (m'.rooted name') .scope m.heap.nextHandle m'.heap.nextHandle :=
    Heap.corr_insert h.sound.store.tidy h.sound'.store.tidy h.agree.store rfl rfl
  refine ⟨⟨h.sound.rooted hname.kind?.1, h.sound'.rooted hname.kind?.2, ?_⟩, hcorr⟩
  have hlike : Scope.Like (m.Corr m') { name := some name } { name := some name' } := ⟨.some hname, .none, .nil, rfl⟩
  have halloc : (m.alloc (.scope { name := some name }) false).Agree (m'.alloc (.scope { name := some name' }) false) :=
    h.agree.alloc h.sound h.sound' hlike.same
  have ht := h.sound.store.tidy.insert (.scope { name := some name }) false
  have ht' := h.sound'.store.tidy.insert (.scope { name := some name' }) false
  exact { halloc.withUses ht ht' hcorr 1 with globalScope := .some hcorr }

/-- making the default global scope once its name is there -/
def newGlobal (name : Handle) : Act Handle := do
  let h ← Act.allocate (.scope { name := some name })
  Act.useScope h
  modify fun m => m.withGlobalScope h
  return h

theorem run_defaultGlobal_some {g : Handle} (hg : m.globalScope = some g) : Act.defaultGlobal.run m = .ok g m := by
  unfold Act.defaultGlobal
  simp [Act.run_bind, hg]

theorem run_defaultGlobal_none {name : Handle} {m₁ : Machine} (hg : m.globalScope = none)
    (hi : (Act.intern "global-namespace").run m = .ok name m₁) : Act.defaultGlobal.run m = (newGlobal name).run m₁ := by
  unfold Act.defaultGlobal
  simp only [Act.run_bind, Act.run_get, hg, hi]
  rfl

theorem run_defaultGlobal_full (hg : m.globalScope = none) (hs : m.symbols.lookup "global-namespace" = none)
    (hfull : m.heap.isFull = true) :
    Act.defaultGlobal.run m = .error (.fault .exhausted) { m with journal := .refused :: m.journal } := by
  unfold Act.defaultGlobal
  simp only [Act.run_bind, Act.run_get, hg, Tandem.run_intern_full hs hfull]

theorem run_intern_some {s : String} {name : Handle} (hs : m.symbols.lookup s = some name) :
    (Act.intern s).run m = .ok name m := by
  simp [Act.intern, Act.run_bind, hs]

theorem run_newGlobal {name : Handle} (hfull : m.heap.isFull = false) : (newGlobal name).run m = .ok m.heap.nextHandle
    (((m.alloc (.scope { name := some name }) false).withUses m.heap.nextHandle (m.useCount m.heap.nextHandle + 1)).withGlobalScope
      m.heap.nextHandle) := by
  unfold newGlobal
  rw [Act.bind_ok (Tandem.run_allocate hfull), Act.bind_ok (run_useScope _ _)]
  rfl

theorem Sound.run_newGlobal (hm : m.Sound) {name : Handle} (hfull : m.heap.isFull = false) :
    (newGlobal name).run m = .ok m.heap.nextHandle (m.rooted name) := by
  have hvacant : m.useCount m.heap.nextHandle = 0 := by
    by_contra hne
    have := Heap.isSome_of_kind? (hm.used _ hne)
    simp [hm.store.tidy.slot?_nextHandle] at this
  rw [Machine.run_newGlobal hfull, hvacant]
  rfl

theorem run_newGlobal_full {name : Handle} (hfull : m.heap.isFull = true) :
    (newGlobal name).run m = .error (.fault .exhausted) { m with journal := .refused :: m.journal } := by
  unfold newGlobal
  rw [Act.bind_error (Tandem.run_allocate_full hfull)]

/-- the default global scopes of two machines -/
theorem Abreast.defaultGlobal (h : m.Abreast m') :
    (Filled (Act.defaultGlobal.run m) ∨ Filled (Act.defaultGlobal.run m')) ∨
    ∃ g g' l r, Act.defaultGlobal.run m = .ok g l ∧ Act.defaultGlobal.run m' = .ok g' r ∧ l.Abreast r ∧ l.Corr r .scope g g' ∧
      l.globalScope = some g ∧ r.globalScope = some g' ∧ (l.threads = m.threads ∧ l.freeStacks = m.freeStacks ∧
        l.stackOwners = m.stackOwners) ∧ r.threads = m'.threads ∧ r.freeStacks = m'.freeStacks ∧ r.stackOwners = m'.stackOwners := by
  have hmade {m m' : Machine} (h : m.Abreast m') {name name' : Handle} (hname : m.Corr m' .symbol name name') :
      (Filled ((newGlobal name).run m) ∨ Filled ((newGlobal name').run m')) ∨
        (newGlobal name).run m = .ok m.heap.nextHandle (m.rooted name) ∧
        (newGlobal name').run m' = .ok m'.heap.nextHandle (m'.rooted name') := by
    cases hl : m.heap.isFull with
    | true => exact .inl (.inl ⟨_, run_newGlobal_full hl, List.mem_cons_self⟩)
    | false =>
      cases hr : m'.heap.isFull with
      | true => exact .inl (.inr ⟨_, run_newGlobal_full hr, List.mem_cons_self⟩)
      | false => exact .inr ⟨h.sound.run_newGlobal hl, h.sound'.run_newGlobal hr⟩
  have hglobal := h.agree.globalScope
  generalize hg : m.globalScope = o, hg' : m'.globalScope = o' at hglobal
  cases hglobal with
  | @some g g' hc =>
    exact .inr ⟨g, g', m, m', run_defaultGlobal_some hg, run_defaultGlobal_some hg', h, hc, hg, hg', ⟨rfl, rfl, rfl⟩, rfl, rfl, rfl⟩
  | none =>
    have hlookup := h.agree.lookup_symbols "global-namespace"
    generalize hl : m.symbols.lookup "global-namespace" = l, hr : m'.symbols.lookup "global-namespace" = r at hlookup
    cases hlookup with
    | @some name name' hc =>
      rw [run_defaultGlobal_none hg (run_intern_some hl), run_defaultGlobal_none hg' (run_intern_some hr)]
      obtain ⟨habreast, hcorr⟩ := h.rooted hc
      exact (hmade h hc).imp_right fun hrun =>
        ⟨_, _, _, _, hrun.1, hrun.2, habreast, hcorr, rfl, rfl, ⟨rfl, rfl, rfl⟩, rfl, rfl, rfl⟩
    | none =>
      cases hf : m.heap.isFull with
      | true => exact .inl (.inl ⟨_, run_defaultGlobal_full hg hl hf, List.mem_cons_self⟩)
      | false =>
        cases hf' : m'.heap.isFull with
        | true => exact .inl (.inr ⟨_, run_defaultGlobal_full hg' hr hf', List.mem_cons_self⟩)
        | false =>
          have hsymbols : (m.withSymbol "global-namespace").Abreast (m'.withSymbol "global-namespace") :=
            ⟨h.sound.withSymbol _, h.sound'.withSymbol _, h.agree.withSymbol h.sound h.sound' _⟩
          have hc : (m.withSymbol "global-namespace").Corr (m'.withSymbol "global-namespace") .symbol
              m.heap.nextHandle m'.heap.nextHandle :=
            Heap.corr_insert h.sound.store.tidy h.sound'.store.tidy h.agree.store rfl rfl
          rw [run_defaultGlobal_none hg (Tandem.run_intern hl hf), run_defaultGlobal_none hg' (Tandem.run_intern hr hf')]
          obtain ⟨habreast, hcorr⟩ := hsymbols.rooted hc
          exact (hmade hsymbols hc).imp_right fun hrun =>
            ⟨_, _, _, _, hrun.1, hrun.2, habreast, hcorr, rfl, rfl, ⟨rfl, rfl, rfl⟩, rfl, rfl, rfl⟩

/-- the machine with the stack ids dealt out in another way -/
def dealt (m : Machine) (owners : Array (Option ThreadId)) (free : List Nat) : Machine :=
  { m with stackOwners := owners, freeStacks := free }

/-- the default global scope does not depend on the stack ids -/
theorem run_defaultGlobal_dealt (m : Machine) (owners : Array (Option ThreadId)) (free : List Nat) :
    Act.defaultGlobal.run (m.dealt owners free) = match Act.defaultGlobal.run m with
      | .ok g l => .ok g (l.dealt owners free)
      | .error e l => .error e (l.dealt owners free) := by
  have hmade (m : Machine) (name : Handle) : (newGlobal name).run (m.dealt owners free) = match (newGlobal name).run m with
      | .ok g l => .ok g (l.dealt owners free)
      | .error e l => .error e (l.dealt owners free) := by
    cases hf : m.heap.isFull with
    | true => rw [run_newGlobal_full hf, run_newGlobal_full (m := m.dealt owners free) hf]; rfl
    | false =>
      unfold newGlobal
      rw [Act.bind_ok (Tandem.run_allocate hf), Act.bind_ok (Tandem.run_allocate (m := m.dealt owners free) hf)]
      rfl
  cases hg : m.globalScope with
  | some g => rw [run_defaultGlobal_some hg, run_defaultGlobal_some (m := m.dealt owners free) hg]
  | none =>
    cases hl : m.symbols.lookup "global-namespace" with
    | some name =>
      rw [run_defaultGlobal_none hg (run_intern_some hl),
        run_defaultGlobal_none (m := m.dealt owners free) hg (run_intern_some hl)]
      exact hmade m name
    | none =>
      cases hf : m.heap.isFull with
      | true =>
        rw [run_defaultGlobal_full hg hl hf, run_defaultGlobal_full (m := m.dealt owners free) hg hl hf]
        rfl
      | false =>
        rw [run_defaultGlobal_none hg (Tandem.run_intern hl hf),
          run_defaultGlobal_none (m := m.dealt owners free) hg (Tandem.run_intern (m := m.dealt owners free) hl hf)]
        exact hmade (m.withSymbol "global-namespace") _

/-! ## Opening -/

/-- the stack id for the thread to be opened next -/
def nextStackId (m : Machine) : Nat := m.freeStacks.headD m.stackOwners.size

/-- the owners of the stack ids once the next one is taken -/
def ownersTaken (m : Machine) : Array (Option ThreadId) :=
  if m.freeStacks = [] then m.stackOwners.push (some m.threads.size)
  else m.stackOwners.setIfInBounds m.nextStackId (some m.threads.size)

/-- a thread as it is opened -/
def newThread (m : Machine) (g : Handle) (capacity : Nat) : Thread :=
  { stack := { id := m.nextStackId, capacity := capacity }, scopes := #[g] }

/-- the machine with one more thread -/
def joined (m : Machine) (g : Handle) (capacity : Nat) : Machine :=
  { m.withUses g (m.useCount g + 1) with
    freeStacks := m.freeStacks.tail
    stackOwners := m.ownersTaken
    threads := m.threads.push (m.newThread g capacity) }

variable {g g' : Handle} {capacity : Nat}

theorem thread_size (m : Machine) : m.thread m.threads.size = .blank := by simp [thread]

theorem thread_joined (m : Machine) (g : Handle) (capacity : Nat) (t : ThreadId) :
    (m.joined g capacity).thread t = if t = m.threads.size then m.newThread g capacity else m.thread t := by
  unfold joined thread
  rw [Array.getElem?_push]
  split
  · rfl
  · rfl

theorem useCount_joined (m : Machine) (g : Handle) (capacity : Nat) (h : Handle) :
    (m.joined g capacity).useCount h = if h = g then m.useCount g + 1 else m.useCount h :=
  useCount_setUses m g h (m.useCount g + 1)

theorem Sound.nextStackId_free (hm : m.Sound) : (m.stackOwners[m.nextStackId]?).join = none := by
  unfold nextStackId
  cases hf : m.freeStacks with
  | nil => simp
  | cons id free => simp [hm.unowned id (by simp [hf])]

theorem Sound.ownersTaken_get (hm : m.Sound) (id : Nat) :
    (m.ownersTaken[id]?).join = if id = m.nextStackId then some m.threads.size else (m.stackOwners[id]?).join := by
  unfold ownersTaken nextStackId
  cases hf : m.freeStacks with
  | nil =>
    by_cases hid : id = m.stackOwners.size
    · simp [hid]
    · simp [hid, Array.getElem?_push]
  | cons i free =>
    have hlt : i < m.stackOwners.size := (Array.getElem?_eq_some_iff.1 (hm.unowned i (by simp [hf]))).1
    by_cases hid : id = i
    · simp [hid, hlt]
    · simp [hid, Ne.symm hid]

theorem Sound.joined (hm : m.Sound) (hg : m.globalScope = some g) (capacity : Nat) : (m.joined g capacity).Sound := by
  have hcount (h : Handle) (hh : m.useCount h ≠ 0) : (m.joined g capacity).useCount h ≠ 0 := by
    rw [useCount_joined]
    split
    · exact Nat.succ_ne_zero _
    · exact hh
  refine
    { hm with
      used := fun h hh => hm.used h ?_
      scopes := fun t ho h hh => ?_
      inside := fun t ho => ?_
      readable := fun t ho => ?_
      owners := fun id t => ?_
      unowned := fun id hid => ?_
      unlike := hm.unlike.tail
      global := fun h hh => hcount h (hm.global h hh) }
  · rw [useCount_joined] at hh
    split at hh
    · rename_i heq; exact heq ▸ hm.global g hg
    · exact hh
  · rw [thread_joined] at ho hh
    split at hh
    · obtain rfl := Array.mem_singleton.1 hh
      exact hcount _ (hm.global _ hg)
    · rename_i hne
      rw [if_neg hne] at ho
      exact hcount _ (hm.scopes t ho h hh)
  · rw [thread_joined] at ho ⊢
    split
    · exact one_ne_zero
    · rename_i hne
      rw [if_neg hne] at ho
      exact hm.inside t ho
  · rw [thread_joined] at ho ⊢
    split
    · rfl
    · rename_i hne
      rw [if_neg hne] at ho
      exact hm.readable t ho
  · rw [thread_joined]
    change (m.ownersTaken[id]?).join = some t ↔ _
    rw [hm.ownersTaken_get]
    by_cases ht : t = m.threads.size
    · subst ht
      rw [if_pos rfl]
      split
      · rename_i hid; exact ⟨fun _ => ⟨rfl, hid.symm⟩, fun _ => rfl⟩
      · rename_i hid
        refine ⟨fun hown => ?_, fun h => absurd h.2.symm hid⟩
        have hclosed := ((hm.owners id _).1 hown).1
        rw [thread_size] at hclosed
        cases hclosed
    · rw [if_neg ht]
      split
      · rename_i hid
        subst hid
        refine ⟨fun h => absurd (Option.some.inj h).symm ht, fun h => ?_⟩
        have hown := (hm.owners _ t).2 h
        rw [hm.nextStackId_free] at hown
        cases hown
      · exact hm.owners id t
  · change m.ownersTaken[id]? = some none
    change id ∈ m.freeStacks.tail at hid
    have hold := hm.unowned id (List.mem_of_mem_tail hid)
    have hunlike := hm.unlike
    unfold ownersTaken nextStackId
    cases hf : m.freeStacks with
    | nil => rw [hf] at hid; cases hid
    | cons i free =>
      rw [hf] at hid hunlike
      have hne : i ≠ id := fun heq => (List.nodup_cons.1 hunlike).1 (heq ▸ hid)
      simpa [Array.getElem?_setIfInBounds, hne] using hold

theorem Agree.joined (ha : m.Agree m') (hm : m.Sound) (hm' : m'.Sound) (hc : m.Corr m' .scope g g') (capacity : Nat) :
    (m.joined g capacity).Agree (m'.joined g' capacity) := by
  have hcount := ha.uses g g' hc
  have hid : m.nextStackId = m'.nextStackId := by unfold nextStackId; rw [ha.freeStacks, ha.stackOwners]
  have huses := ha.withUses hm.store.tidy hm'.store.tidy hc (m.useCount g + 1)
  refine
    { huses with
      uses := fun h h' hh => ?_
      size := by simp [Machine.joined, ha.size]
      threads := fun t => ?_
      stackOwners := ?_
      freeStacks := congrArg List.tail ha.freeStacks }
  · rw [useCount_joined, useCount_joined, ← hcount, ← ha.uses h h' hh]
    simp only [Heap.Corr.unique hm.store.tidy hm'.store.tidy hh hc]
  · rw [thread_joined, thread_joined, ha.size]
    split
    · refine ⟨rfl, fun _ => ⟨hid, rfl, .nil, rfl, ?_, .nil⟩⟩
      exact .cons hc .nil
    · exact ha.threads t
  · change m.ownersTaken = m'.ownersTaken
    unfold ownersTaken
    rw [hid, ha.freeStacks, ha.stackOwners, ha.size]

/-! ## Closing -/

/-- a thread that has been closed -/
def shutThread (t : Thread) : Thread := { t with isOpen := false, scopes := #[], pins := #[] }

/-- the machine with a thread closed that had only the one scope -/
def shut (m : Machine) (th : ThreadId) (g : Handle) : Machine :=
  { (m.onThread th shutThread).withUses g (m.useCount g - 1) with
    stackOwners := m.stackOwners.setIfInBounds (m.thread th).stack.id none
    freeStacks := (m.thread th).stack.id :: m.freeStacks }

section

variable {m₁ : Machine} (hm : m.Sound) (hm₁ : m₁.Sound) (hg : m.globalScope = some g)
  (hk : (m.joined g capacity).Keeps m₁)

include hk

theorem isOpen_joined : (m₁.thread m.threads.size).isOpen = true := by
  rw [(hk.threads _).1, thread_joined, if_pos rfl]
  rfl

theorem scopes_joined : (m₁.thread m.threads.size).scopes = #[g] := by
  rw [(hk.threads _).2.2, thread_joined, if_pos rfl]
  rfl

theorem useCount_shut (h : Handle) : (m₁.shut m.threads.size g).useCount h = m.useCount h := by
  refine (useCount_setUses (m₁.onThread m.threads.size shutThread) g h (m₁.useCount g - 1)).trans ?_
  split
  · rename_i heq
    subst heq
    rw [hk.uses, useCount_joined, if_pos rfl, Nat.add_sub_cancel]
  · rename_i hne
    change m₁.useCount h = _
    rw [hk.uses, useCount_joined, if_neg hne]

theorem thread_shut (t : ThreadId) : (m₁.shut m.threads.size g).thread t =
    if t = m.threads.size then shutThread (m₁.thread m.threads.size) else m₁.thread t :=
  thread_onThread (isOpen_joined hk) shutThread t

include hm hm₁

theorem Sound.shut : (m₁.shut m.threads.size g).Sound := by
  have hopen {t : ThreadId} (ho : ((m₁.shut m.threads.size g).thread t).isOpen = true) :
      t ≠ m.threads.size ∧ (m₁.shut m.threads.size g).thread t = m₁.thread t := by
    rw [thread_shut hk] at ho ⊢
    split at ho
    · cases ho
    · rename_i hne; exact ⟨hne, if_neg hne⟩
  have hid := (hm₁.owners (m₁.thread m.threads.size).stack.id m.threads.size).2 ⟨isOpen_joined hk, rfl⟩
  have hlt : (m₁.thread m.threads.size).stack.id < m₁.stackOwners.size := by
    by_contra hge
    rw [Array.getElem?_eq_none (Nat.not_lt.1 hge)] at hid
    cases hid
  refine
    { hm₁ with
      used := fun h hh => hm₁.used h ?_
      scopes := fun t ho h hh => ?_
      inside := fun t ho => ?_
      readable := fun t ho => ?_
      owners := fun id t => ?_
      unowned := fun id hin => ?_
      unlike := ?_
      global := fun h hh => ?_ }
  · rw [useCount_shut hk] at hh
    rw [hk.uses, useCount_joined]
    split
    · exact Nat.succ_ne_zero _
    · exact hh
  · obtain ⟨hne, heq⟩ := hopen ho
    rw [heq] at ho hh
    obtain ⟨hopen₁, -, hscopes⟩ := hk.threads t
    rw [thread_joined, if_neg hne] at hopen₁ hscopes
    rw [useCount_shut hk]
    exact hm.scopes t (hopen₁.symm.trans ho) h (hscopes ▸ hh)
  · have heq := (hopen ho).2
    rw [heq] at ho ⊢
    exact hm₁.inside t ho
  · have heq := (hopen ho).2
    rw [heq] at ho ⊢
    exact hm₁.readable t ho
  · rw [thread_shut hk]
    change ((m₁.stackOwners.setIfInBounds _ none)[id]?).join = some t ↔ _
    rw [Array.getElem?_setIfInBounds]
    by_cases ht : t = m.threads.size
    · subst ht
      rw [if_pos rfl]
      refine ⟨fun hown => ?_, fun h => by cases h.1⟩
      split at hown
      · cases hown
      · rename_i hne
        exact absurd ((hm₁.owners id _).1 hown).2 hne
    · rw [if_neg ht, ← hm₁.owners id t]
      split
      · rename_i heq
        subst heq
        rw [hid]
        exact ⟨nofun, fun h => absurd (Option.some.inj h).symm ht⟩
      · rfl
  · change (m₁.stackOwners.setIfInBounds _ none)[id]? = some none
    rw [Array.getElem?_setIfInBounds]
    split
    · rfl
    · rename_i hne
      exact hm₁.unowned id ((List.mem_cons.1 hin).resolve_left (Ne.symm hne))
  · refine List.nodup_cons.2 ⟨fun hin => ?_, hm₁.unlike⟩
    rw [hm₁.unowned _ hin] at hid
    cases hid
  · rw [useCount_shut hk]
    exact hm.global h (hk.global.symm.trans hh)

end

/-- an open thread that has come out of all scopes but one is closed -/
theorem run_closing {m : Machine} {th : ThreadId} (ho : (m.thread th).isOpen = true) (hscopes : (m.thread th).scopes = #[g])
    (hcount : m.useCount g ≠ 0) (hown : (m.stackOwners[(m.thread th).stack.id]?).join = some th) :
    (Act.closeThread th).run m = .ok () (m.shut th g) := by
  have hunuse := Tandem.run_unuseScope (m := m.onThread th shutThread) hcount
  have hall : ((#[g] : Array Handle).toList.forM Act.unuseScope).run (m.onThread th shutThread) =
      .ok ⟨⟩ ((m.onThread th shutThread).withUses g (m.useCount g - 1)) := Act.bind_ok hunuse
  unfold Act.closeThread
  rw [Act.bind_ok (Act.run_get m)]
  simp only [ho, if_true, hscopes]
  have hshut : (modify fun m => m.onThread th shutThread : Act Unit).run m = .ok () (m.onThread th shutThread) := rfl
  refine (Act.bind_ok hshut).trans ?_
  refine (Act.bind_ok hall).trans ((Act.run_modify _ _).trans ?_)
  have hown : ((((m.onThread th shutThread).withUses g (m.useCount g - 1)).stackOwners)[(m.thread th).stack.id]?).join =
      some th := hown
  rw [if_pos hown]
  rfl

theorem run_closeThread {m₁ : Machine} (hm₁ : m₁.Sound) (hk : (m.joined g capacity).Keeps m₁) :
    (Act.closeThread m.threads.size).run m₁ = .ok () (m₁.shut m.threads.size g) := by
  refine run_closing (isOpen_joined hk) (scopes_joined hk) ?_ ((hm₁.owners _ _).2 ⟨isOpen_joined hk, rfl⟩)
  rw [hk.uses, useCount_joined, if_pos rfl]
  exact Nat.succ_ne_zero _

/-- closing a thread on both sides leaves two machines abreast -/
theorem Abreast.shut {m₁ m₁' : Machine} (h : m.Abreast m') (h₁ : m₁.Abreast m₁') (hk : (m.joined g capacity).Keeps m₁)
    (hk' : (m'.joined g' capacity).Keeps m₁') (hc : m₁.Corr m₁' .scope g g') :
    (m₁.shut m.threads.size g).Abreast (m₁'.shut m'.threads.size g') := by
  refine ⟨h.sound.shut h₁.sound hk, h.sound'.shut h₁.sound' hk', ?_⟩
  have hsize := h.agree.size
  have hid : (m₁.thread m.threads.size).stack.id = (m₁'.thread m'.threads.size).stack.id := by
    rw [← hsize]
    exact ((h₁.agree.threads _).alike (isOpen_joined hk)).id
  have hopen' : (m₁'.thread m.threads.size).isOpen = true := hsize ▸ isOpen_joined hk'
  have hclosed : (m₁.onThread m.threads.size shutThread).Agree (m₁'.onThread m.threads.size shutThread) :=
    h₁.agree.onThread (isOpen_joined hk) hopen' ⟨rfl, fun ho => by cases ho⟩
  have hcorr : (m₁.onThread m.threads.size shutThread).Corr (m₁'.onThread m.threads.size shutThread) .scope g g' := hc
  have hcount : m₁.useCount g = m₁'.useCount g' := h₁.agree.uses g g' hc
  have ht : (m₁.onThread m.threads.size shutThread).heap.Tidy _ := h₁.sound.store.tidy
  have ht' : (m₁'.onThread m.threads.size shutThread).heap.Tidy _ := h₁.sound'.store.tidy
  have huses := hclosed.withUses ht ht' hcorr (m₁.useCount g - 1)
  unfold Machine.shut
  rw [← hcount, ← hid, ← hsize]
  exact { huses with
    stackOwners := by rw [h₁.agree.stackOwners]
    freeStacks := by rw [h₁.agree.freeStacks] }

/-! ## Sessions -/

theorem run_takeStackId (hfew : m.freeStacks ≠ [] ∨ m.stackOwners.size < Act.stackIdLimit) :
    Act.takeStackId.run m = .ok m.nextStackId (m.dealt m.ownersTaken m.freeStacks.tail) := by
  unfold Act.takeStackId nextStackId ownersTaken
  rw [Act.bind_ok (Act.run_get m)]
  cases hf : m.freeStacks with
  | nil =>
    have hsize := hfew.resolve_left (· hf)
    simp only [Nat.not_le.2 hsize, if_false, List.tail_nil, if_true, List.headD_nil]
    rw [← hf]
    rfl
  | cons id free => simp [Act.run_bind, dealt, nextStackId, hf]

theorem run_takeStackId_none (hf : m.freeStacks = []) (hmany : Act.stackIdLimit ≤ m.stackOwners.size) :
    Act.takeStackId.run m = .error (.raised .tooManyStacks) m := by
  unfold Act.takeStackId
  rw [Act.bind_ok (Act.run_get m)]
  simp only [hf, hmany, if_true]
  rfl

/-- opening a thread, once its stack id and the global scope are there -/
theorem run_openThread {c : Int} {l : Machine}
    (hcapacity : (if c ≤ 0 then Stack.defaultCapacity else c.toNat) = capacity) (hsmall : capacity < Act.capacityLimit)
    (hfew : m.freeStacks ≠ [] ∨ m.stackOwners.size < Act.stackIdLimit) (hg : Act.defaultGlobal.run m = .ok g l)
    (hl : l.threads = m.threads ∧ l.freeStacks = m.freeStacks ∧ l.stackOwners = m.stackOwners) :
    (Act.openThread c).run m = .ok m.threads.size (l.joined g capacity) := by
  have hdealt : Act.defaultGlobal.run (m.dealt m.ownersTaken m.freeStacks.tail) =
      .ok g (l.dealt m.ownersTaken m.freeStacks.tail) := by rw [run_defaultGlobal_dealt, hg]
  have hid : l.nextStackId = m.nextStackId := by unfold nextStackId; rw [hl.2.1, hl.2.2]
  have howners : l.ownersTaken = m.ownersTaken := by unfold ownersTaken; rw [hid, hl.1, hl.2.1, hl.2.2]
  unfold Act.openThread
  simp only [hcapacity, Nat.not_le.2 hsmall, if_false]
  refine (Act.bind_ok (Act.run_get m)).trans ((Act.bind_ok (run_takeStackId hfew)).trans ((Act.bind_ok hdealt).trans ?_))
  refine (Act.bind_ok (run_useScope _ _)).trans ?_
  unfold joined newThread
  rw [howners, hid, hl.2.1]
  rfl

theorem run_openThread_large {c : Int} (hcapacity : (if c ≤ 0 then Stack.defaultCapacity else c.toNat) = capacity)
    (hlarge : Act.capacityLimit ≤ capacity) : (Act.openThread c).run m = .error (.raised (.stackTooLarge capacity)) m := by
  unfold Act.openThread
  simp only [hcapacity, hlarge, if_true]
  rfl

theorem run_openThread_none {c : Int} (hcapacity : (if c ≤ 0 then Stack.defaultCapacity else c.toNat) = capacity)
    (hsmall : capacity < Act.capacityLimit) (hf : m.freeStacks = []) (hmany : Act.stackIdLimit ≤ m.stackOwners.size) :
    (Act.openThread c).run m = .error (.raised .tooManyStacks) m := by
  unfold Act.openThread
  simp only [hcapacity, Nat.not_le.2 hsmall, if_false]
  exact (Act.bind_ok (Act.run_get m)).trans (Act.bind_error (run_takeStackId_none hf hmany))

/-- a heap too full for the global scope is too full for a thread -/
theorem Filled.openThread {c : Int} (hcapacity : (if c ≤ 0 then Stack.defaultCapacity else c.toNat) = capacity)
    (hsmall : capacity < Act.capacityLimit) (hfew : m.freeStacks ≠ [] ∨ m.stackOwners.size < Act.stackIdLimit)
    (h : Filled (Act.defaultGlobal.run m)) : Filled ((Act.openThread c).run m) := by
  obtain ⟨l, hrun, hl⟩ := h
  have hdealt : Act.defaultGlobal.run (m.dealt m.ownersTaken m.freeStacks.tail) =
      .error (.fault .exhausted) (l.dealt m.ownersTaken m.freeStacks.tail) := by rw [run_defaultGlobal_dealt, hrun]
  refine ⟨l.dealt m.ownersTaken m.freeStacks.tail, ?_, hl⟩
  unfold Act.openThread
  simp only [hcapacity, Nat.not_le.2 hsmall, if_false]
  exact (Act.bind_ok (Act.run_get m)).trans ((Act.bind_ok (run_takeStackId hfew)).trans (Act.bind_error hdealt))

/-- a thread opened on two machines: it is refused on both, or opened on both under one number -/
theorem Abreast.openDefaultThread (h : m.Abreast m') :
    (Filled (Act.openDefaultThread.run m) ∨ Filled (Act.openDefaultThread.run m')) ∨
    (∃ c, Act.openDefaultThread.run m = .error (.raised c) m ∧ Act.openDefaultThread.run m' = .error (.raised c) m') ∨
    ∃ (l r : Machine) (g g' : Handle) (capacity : Nat), l.Abreast r ∧ l.Corr r .scope g g' ∧
      l.globalScope = some g ∧ r.globalScope = some g' ∧
      Act.openDefaultThread.run m = .ok l.threads.size (l.joined g capacity) ∧
      Act.openDefaultThread.run m' = .ok r.threads.size (r.joined g' capacity) ∧ (m = m' → l = r) := by
  have hopen (m : Machine) : Act.openDefaultThread.run m = (Act.openThread m.config.stackCapacity).run m := rfl
  rw [hopen, hopen, ← h.agree.capacity]
  generalize hcapacity : (if (m.config.stackCapacity : Int) ≤ 0 then Stack.defaultCapacity
    else (m.config.stackCapacity : Int).toNat) = capacity
  rcases Nat.lt_or_ge capacity Act.capacityLimit with hsmall | hlarge
  · by_cases hfew : m.freeStacks ≠ [] ∨ m.stackOwners.size < Act.stackIdLimit
    · have hfew' : m'.freeStacks ≠ [] ∨ m'.stackOwners.size < Act.stackIdLimit := by
        rw [← h.agree.freeStacks, ← h.agree.stackOwners]
        exact hfew
      rcases h.defaultGlobal with hs | ⟨g, g', l, r, hl, hr, habreast, hc, hg, hg', hsame, hsame'⟩
      · exact .inl (hs.imp (.openThread hcapacity hsmall hfew) (.openThread hcapacity hsmall hfew'))
      · refine .inr (.inr ⟨l, r, g, g', capacity, habreast, hc, hg, hg', ?_, ?_, ?_⟩)
        · rw [hsame.1]; exact run_openThread hcapacity hsmall hfew hl hsame
        · rw [hsame'.1]; exact run_openThread hcapacity hsmall hfew' hr hsame'
        · rintro rfl
          rw [hl] at hr
          exact (EStateM.Result.ok.inj hr).2
    · obtain ⟨hf, hmany⟩ := not_or.1 hfew
      have hf := not_not.1 hf
      refine .inr (.inl ⟨.tooManyStacks, run_openThread_none hcapacity hsmall hf (Nat.not_lt.1 hmany), ?_⟩)
      refine run_openThread_none hcapacity hsmall (h.agree.freeStacks ▸ hf) ?_
      rw [← h.agree.stackOwners]
      exact Nat.not_lt.1 hmany
  · exact .inr (.inl ⟨_, run_openThread_large hcapacity hlarge, run_openThread_large hcapacity hlarge⟩)

/-! ## Runs side by side -/

end Machine

/-- the same fault, the end of the fuel on both sides, or any two errors -/
inductive Failure.Akin : Failure → Failure → Prop where
  | raised (c c' : Cause) : Akin (.raised c) (.raised c')
  | fault (f : Fault) : Akin (.fault f) (.fault f)
  | outOfFuel : Akin .outOfFuel .outOfFuel

theorem Failure.Akin.trans {e e' e'' : Failure} (h : e.Akin e') (h' : e'.Akin e'') : e.Akin e'' := by
  cases h <;> cases h'
  · exact .raised _ _
  · exact .fault _
  · exact .outOfFuel

theorem Failure.Akin.of_loose {S : Type} [Simulation S] {σ : S} {e e' : Failure} (h : Simulation.Failure.Loose σ e e') :
    e.Akin e' := by
  cases h with
  | improperList _ => exact .raised _ _
  | like h =>
    cases h with
    | raised _ => exact .raised _ _
    | fault _ => exact .fault _
    | outOfFuel => exact .outOfFuel

namespace Machine

variable {m m' l r : Machine}

/-- two runs that end alike on machines that are abreast -/
inductive Ended : Outcome Unit → Outcome Unit → Prop where
  | ok {l r : Machine} : l.Abreast r → Ended (.ok () l) (.ok () r)
  | error {e e' : Failure} {l r : Machine} : e.Akin e' → l.Abreast r → Ended (.error e l) (.error e' r)

/-- an action comes to the same on two machines, unless the comparison is spoilt or a heap is too full to begin -/
def Alongside (same : Bool) (x : Act Unit) (m m' : Machine) : Prop :=
  Spoilt same (Outcome.machine (x.run m)) (Outcome.machine (x.run m')) ∨ (Filled (x.run m) ∨ Filled (x.run m')) ∨
    Ended (x.run m) (x.run m')

variable {same : Bool}

/-- on two machines a full heap spoils the comparison -/
theorem Alongside.spoilt_or_ended {x : Act Unit} (h : Alongside false x m m') :
    Spoilt false (Outcome.machine (x.run m)) (Outcome.machine (x.run m')) ∨ Ended (x.run m) (x.run m') :=
  or_assoc.2 h |>.imp_left fun h => h.elim id Filled.spoilt

theorem Alongside.bind {x y : Act Unit} (heq : same = true → m = m') (hx : Alongside same x m m')
    (hy : ∀ l r, l.Abreast r → (same = true → l = r) → Alongside same y l r) : Alongside same (do x; y) m m' := by
  rcases hx with hs | hfull | hend
  · exact .inl (hs.grow (Simulation.bind_grows _ _ _) (Simulation.bind_grows _ _ _))
  · exact .inr (.inl (hfull.imp (·.bind _) (·.bind _)))
  · have hrun (hsame : same = true) : x.run m = x.run m' := by rw [heq hsame]
    unfold Alongside
    rw [Act.run_bind, Act.run_bind]
    generalize x.run m = o, x.run m' = o' at hend hrun
    cases hend with
    | ok h => exact hy _ _ h fun hsame => (EStateM.Result.ok.inj (hrun hsame)).2
    | error he h => exact .inr (.inr (.error he h))

/-- two machines in tandem whose new thread has the global scope -/
def Abreast.tandem {g g' : Handle} (h : l.Abreast r) (hc : l.Corr r .scope g g') (hg : l.globalScope = some g)
    (hg' : r.globalScope = some g') (capacity : Nat) (heq : same = true → l = r) : Tandem l.threads.size same where
  left := l.joined g capacity
  right := r.joined g' capacity
  sound := h.sound.joined hg capacity
  sound' := h.sound'.joined hg' capacity
  agree := h.agree.joined h.sound h.sound' hc capacity
  isOpen := isOpen_joined (.refl _)
  eq hsame := by
    have hone := heq hsame
    have hscope : some g = some g' := by rw [← hg, ← hg', hone]
    rw [hone, Option.some.inj hscope]

/-- what is run on a thread of its own comes to the same if it runs in step -/
theorem Abreast.session (h : m.Abreast m') (heq : same = true → m = m') (x : ThreadId → Act Unit)
    (hx : ∀ th (σ : Tandem th same), σ.left.globalScope ≠ none →
      Simulation.InStep Tandem.Balanced (fun _ e e' => e.Akin e') σ (x th) (x th) fun _ _ _ => True) :
    Alongside same (do let th ← Act.openDefaultThread; Act.andThen (x th) (Act.closeThread th)) m m' := by
  rcases h.openDefaultThread with hfull | ⟨c, hl, hr⟩ | ⟨l, r, g, g', capacity, habreast, hc, hg, hg', hl, hr, hone⟩
  · exact .inr (.inl (hfull.imp (·.bind _) (·.bind _)))
  · refine .inr (.inr ?_)
    rw [Act.bind_error hl, Act.bind_error hr]
    exact .error (.raised _ _) h
  · have hsize := habreast.agree.size
    have hone (hsame : same = true) : l = r := hone (heq hsame)
    have hstep := hx _ (habreast.tandem hc hg hg' capacity hone) (by
      change l.globalScope ≠ none
      rw [hg]
      exact Option.some_ne_none g)
    unfold Alongside
    rw [Act.bind_ok hl, Act.bind_ok hr, ← hsize]
    change Spoilt same _ _ ∨ _ ∨
      Ended ((Act.andThen (x l.threads.size) (Act.closeThread l.threads.size)).run (l.joined g capacity))
        ((Act.andThen (x l.threads.size) (Act.closeThread l.threads.size)).run (r.joined g' capacity))
    have hsame : Act.andThen (x l.threads.size) (Act.closeThread l.threads.size) = (do
      let o ← Act.observe (x l.threads.size)
      Act.closeThread l.threads.size
      Act.settle o) := rfl
    rw [hsame]
    rcases hstep with hs | ⟨τ, ⟨hk, hk'⟩, hend⟩
    · refine .inl (hs.grow ?_ ?_)
      · exact (Simulation.observe_grows _ _).trans (Simulation.bind_grows _ _ _)
      · exact (Simulation.observe_grows _ _).trans (Simulation.bind_grows _ _ _)
    · have hinUse (m : Machine) (g : Handle) : (m.joined g capacity).Firm g := .inUse (by
        rw [useCount_joined, if_pos rfl]
        exact Nat.succ_ne_zero _)
      have hkept : (habreast.tandem hc hg hg' capacity hone).Kept .scope g g' := ⟨hc, hinUse l g, hinUse r g'⟩
      have hcorr := (Tandem.Kept.balanced ⟨hk, hk'⟩ hkept).corr
      have hrun := run_closeThread τ.sound hk
      have hrun' := run_closeThread τ.sound' hk'
      have hshut := habreast.shut ⟨τ.sound, τ.sound', τ.agree⟩ hk hk' hcorr
      rw [← hsize] at hrun' hshut
      refine .inr (.inr ?_)
      rw [Act.run_bind, Act.run_bind, Act.run_observe, Act.run_observe]
      change Simulation.Ends _ τ _ ((x l.threads.size).run (l.joined g capacity))
        ((x l.threads.size).run (r.joined g' capacity)) at hend
      generalize (x l.threads.size).run (l.joined g capacity) = o, (x l.threads.size).run (r.joined g' capacity) = o' at hend
      cases hend with
      | ok _ => exact cast (congrArg₂ Ended (Act.bind_ok hrun).symm (Act.bind_ok hrun').symm) (.ok hshut)
      | error he => exact cast (congrArg₂ Ended (Act.bind_ok hrun).symm (Act.bind_ok hrun').symm) (.error he hshut)

end Machine

end LispMachine
