/-
Opening and closing a thread on two machines, one of which has its variables in boxes.

Between sessions nothing is backed by a stack, and two machines are beside each other. A thread is opened on both of them under one
number; what runs on it loses nothing that stands for each other, so when it has been closed the two are beside each other again.
-/
import LispMachine.Proofs.Boxed.Sessions
import LispMachine.Proofs.Tandem.Opening

namespace LispMachine.Boxed

open Simulation (InStep)

variable {α β : Type} {ρ : Pairing} {l r : Machine} {g g' : Handle} {capacity : Nat}

/-- an event that interrupts is in the journal that a run leaves -/
def Interrupted (o : Outcome α) : Prop := ∃ e ∈ (Outcome.machine o).journal, e.interrupts = true

theorem Interrupted.grow {o : Outcome α} {o' : Outcome β} (h : Interrupted o)
    (hgrows : (Outcome.machine o).journal <:+ (Outcome.machine o').journal) : Interrupted o' :=
  have ⟨e, he, hi⟩ := h
  ⟨e, hgrows.subset he, hi⟩

theorem Interrupted.of_filled {o : Outcome α} (h : Machine.Filled o) : Interrupted o := by
  obtain ⟨l, rfl, hl⟩ := h
  exact ⟨.refused, hl, rfl⟩

/-! ## Machines beside each other -/

/-- two machines between sessions -/
structure Beside (ρ : Pairing) (l r : Machine) : Prop where
  store : ρ.Holds 0 #[] l.heap r.heap
  plain : ∀ h h', ¬ ρ.frame h h'
  tidy : l.heap.Tidy l.collector.epoch
  tidy' : r.heap.Tidy r.collector.epoch
  unbounded : r.heap.limit = none
  marking : l.collector.marking = false
  marking' : r.collector.marking = false
  symbols : List.Forall₂ (fun e e' => e.1 = e'.1 ∧ ρ.obj .symbol e.2 e'.2) l.symbols r.symbols
  gensyms : l.gensyms = r.gensyms
  globalScope : Option.Rel (ρ.obj .scope) l.globalScope r.globalScope
  lines : l.console.lines = r.console.lines
  budget : l.console.budget = r.console.budget
  size : l.threads.size = r.threads.size
  owners : l.stackOwners = r.stackOwners
  free : l.freeStacks = r.freeStacks
  unowned : ∀ id ∈ l.freeStacks, id < l.stackOwners.size
  capacity : l.config.stackCapacity = r.config.stackCapacity

/-- what does not depend on a stack holds with any -/
theorem unframed {id id' : Nat} {items items' : Array Value} {hp hp' : Heap} (H : ρ.Holds id items hp hp')
    (hplain : ∀ h h', ¬ ρ.frame h h') : ρ.Holds id' items' hp hp' :=
  have hfree {h sym i b} (hs : ρ.slot h sym i b) : False := have ⟨h', hf⟩ := H.owned hs; hplain h h' hf
  { H with
    backs := fun hf => absurd hf (hplain _ _)
    stores := fun hs => (hfree hs).elim }

namespace Beside

variable {c c' : Cell} {name name' : Handle}

theorem unowned' (h : Beside ρ l r) : ∀ id ∈ r.freeStacks, id < r.stackOwners.size := by
  rw [← h.free, ← h.owners]
  exact h.unowned

theorem alloc (h : Beside ρ l r) (hc : Ready ρ c c') :
    Beside (ρ.adding c.kind l.heap.nextHandle r.heap.nextHandle) (l.alloc c false) (r.alloc c' false) :=
  { h with
    store := h.store.insert h.tidy h.tidy' (hc.alike h.store h.tidy h.tidy' false)
    tidy := h.tidy.insert c false
    tidy' := h.tidy'.insert c' false
    unbounded := (limit_insert ..).trans h.unbounded
    symbols := h.symbols.imp fun _ _ he => ⟨he.1, .inl he.2⟩
    globalScope := optionRel_mono (fun _ _ => .inl) h.globalScope }

theorem withSymbol (h : Beside ρ l r) (s : String) :
    Beside (ρ.adding .symbol l.heap.nextHandle r.heap.nextHandle) (l.withSymbol s) (r.withSymbol s) :=
  have hready : Ready ρ (.symbol s) (.symbol s) := .of_like (.symbol s) (by simp [Cell.kind]) (by simp [Cell.kind])
  have halloc := h.alloc hready
  { halloc with symbols := .cons ⟨rfl, .inr ⟨rfl, rfl, rfl⟩⟩ halloc.symbols }

/-- a new scope becomes the default global one -/
theorem rooted (h : Beside ρ l r) (hname : ρ.obj .symbol name name') (n n' : Nat) :
    Beside (ρ.adding .scope l.heap.nextHandle r.heap.nextHandle)
      (((l.alloc (.scope { name := some name }) false).withUses l.heap.nextHandle n).withGlobalScope l.heap.nextHandle)
      (((r.alloc (.scope { name := some name' }) false).withUses r.heap.nextHandle n').withGlobalScope r.heap.nextHandle) := by
  have hready : Ready ρ (.scope { name := some name }) (.scope { name := some name' }) := by
    refine ⟨.scope (.some hname), by rintro _ _ _ ⟨⟩, ?_⟩
    rintro _ _ ⟨⟩ ⟨⟩
    exact ⟨rfl, .some hname, .none, .nil, List.nodup_nil, rfl⟩
  exact { h.alloc hready with globalScope := .some (.inr ⟨rfl, rfl, rfl⟩) }

end Beside

/-! ## The default global scope -/

/-- the default global scopes of two machines, and the machines with them -/
structure Rooted (l r : Machine) (ρ : Pairing) (g g' : Handle) (l₁ r₁ : Machine) : Prop where
  run : Act.defaultGlobal.run l = .ok g l₁
  run' : Act.defaultGlobal.run r = .ok g' r₁
  beside : Beside ρ l₁ r₁
  obj : ρ.obj .scope g g'
  globalScope : l₁.globalScope = some g
  globalScope' : r₁.globalScope = some g'
  same : l₁.threads = l.threads ∧ l₁.freeStacks = l.freeStacks ∧ l₁.stackOwners = l.stackOwners
  same' : r₁.threads = r.threads ∧ r₁.freeStacks = r.freeStacks ∧ r₁.stackOwners = r.stackOwners

theorem Beside.newGlobal (h : Beside ρ l r) {name name' : Handle} (hname : ρ.obj .symbol name name')
    {l₀ r₀ : Machine} (hl : Act.defaultGlobal.run l₀ = (Machine.newGlobal name).run l)
    (hr : Act.defaultGlobal.run r₀ = (Machine.newGlobal name').run r)
    (same : l.threads = l₀.threads ∧ l.freeStacks = l₀.freeStacks ∧ l.stackOwners = l₀.stackOwners)
    (same' : r.threads = r₀.threads ∧ r.freeStacks = r₀.freeStacks ∧ r.stackOwners = r₀.stackOwners) :
    Machine.Filled (Act.defaultGlobal.run l₀) ∨ ∃ ρ g g' l₁ r₁, Rooted l₀ r₀ ρ g g' l₁ r₁ := by
  cases hfull : l.heap.isFull with
  | true => exact .inl ⟨_, hl.trans (Machine.run_newGlobal_full hfull), List.mem_cons_self⟩
  | false =>
    refine .inr ⟨_, _, _, _, _, hl.trans (Machine.run_newGlobal hfull),
      hr.trans (Machine.run_newGlobal (isFull_of_unbounded h.unbounded)), h.rooted hname _ _, .inr ⟨rfl, rfl, rfl⟩, rfl, rfl, same, same'⟩

theorem Beside.defaultGlobal (h : Beside ρ l r) :
    Machine.Filled (Act.defaultGlobal.run l) ∨ ∃ ρ g g' l₁ r₁, Rooted l r ρ g g' l₁ r₁ := by
  have hglobal := h.globalScope
  generalize hg : l.globalScope = o, hg' : r.globalScope = o' at hglobal
  cases hglobal with
  | @some g g' ho =>
    exact .inr ⟨ρ, g, g', l, r, Machine.run_defaultGlobal_some hg, Machine.run_defaultGlobal_some hg', h, ho, hg, hg',
      ⟨rfl, rfl, rfl⟩, rfl, rfl, rfl⟩
  | none =>
    have hlookup := lookup_symbols h.symbols "global-namespace"
    generalize hl : l.symbols.lookup "global-namespace" = o, hr : r.symbols.lookup "global-namespace" = o' at hlookup
    cases hlookup with
    | @some name name' ho =>
      exact h.newGlobal ho (Machine.run_defaultGlobal_none hg (Machine.run_intern_some hl))
        (Machine.run_defaultGlobal_none hg' (Machine.run_intern_some hr)) ⟨rfl, rfl, rfl⟩ ⟨rfl, rfl, rfl⟩
    | none =>
      cases hfull : l.heap.isFull with
      | true => exact .inl ⟨_, Machine.run_defaultGlobal_full hg hl hfull, List.mem_cons_self⟩
      | false =>
        exact (h.withSymbol "global-namespace").newGlobal (.inr ⟨rfl, rfl, rfl⟩)
          (Machine.run_defaultGlobal_none hg (Tandem.run_intern hl hfull))
          (Machine.run_defaultGlobal_none hg' (Tandem.run_intern hr (isFull_of_unbounded h.unbounded)))
          ⟨rfl, rfl, rfl⟩ ⟨rfl, rfl, rfl⟩

/-! ## Opening -/

/-- a thread opened on both machines: it is refused on both, or opened on both -/
theorem Beside.openDefaultThread (h : Beside ρ l r) :
    Interrupted (Act.openDefaultThread.run l) ∨
    (∃ c, Act.openDefaultThread.run l = .error (.raised c) l ∧ Act.openDefaultThread.run r = .error (.raised c) r) ∨
    ∃ ρ g g' l₁ r₁ capacity, Rooted l r ρ g g' l₁ r₁ ∧
      Act.openDefaultThread.run l = .ok l₁.threads.size (l₁.joined g capacity) ∧
      Act.openDefaultThread.run r = .ok r₁.threads.size (r₁.joined g' capacity) := by
  have hopen (m : Machine) : Act.openDefaultThread.run m = (Act.openThread m.config.stackCapacity).run m := rfl
  rw [hopen, hopen, ← h.capacity]
  generalize hcapacity : (if (l.config.stackCapacity : Int) ≤ 0 then Stack.defaultCapacity
    else (l.config.stackCapacity : Int).toNat) = capacity
  rcases Nat.lt_or_ge capacity Act.capacityLimit with hsmall | hlarge
  · by_cases hfew : l.freeStacks ≠ [] ∨ l.stackOwners.size < Act.stackIdLimit
    · have hfew' : r.freeStacks ≠ [] ∨ r.stackOwners.size < Act.stackIdLimit := by
        rw [← h.free, ← h.owners]
        exact hfew
      refine h.defaultGlobal.imp (fun hfull => .of_filled (hfull.openThread hcapacity hsmall hfew)) fun hrooted => .inr ?_
      obtain ⟨ρ₁, g, g', l₁, r₁, hrooted⟩ := hrooted
      refine ⟨ρ₁, g, g', l₁, r₁, capacity, hrooted, ?_, ?_⟩
      · rw [hrooted.same.1]; exact Machine.run_openThread hcapacity hsmall hfew hrooted.run hrooted.same
      · rw [hrooted.same'.1]; exact Machine.run_openThread hcapacity hsmall hfew' hrooted.run' hrooted.same'
    · obtain ⟨hf, hmany⟩ := not_or.1 hfew
      have hf := not_not.1 hf
      refine .inr (.inl ⟨.tooManyStacks, Machine.run_openThread_none hcapacity hsmall hf (Nat.not_lt.1 hmany), ?_⟩)
      refine Machine.run_openThread_none hcapacity hsmall (h.free ▸ hf) ?_
      rw [← h.owners]
      exact Nat.not_lt.1 hmany
  · exact .inr (.inl ⟨_, Machine.run_openThread_large hcapacity hlarge, Machine.run_openThread_large hcapacity hlarge⟩)

theorem ownersTaken_eq (h : Beside ρ l r) : l.ownersTaken = r.ownersTaken := by
  unfold Machine.ownersTaken Machine.nextStackId
  rw [h.free, h.owners, h.size]

theorem size_joined (h : Beside ρ l r) : (l.joined g capacity).threads.size = (r.joined g' capacity).threads.size := by
  simp [Machine.joined, h.size]

/-- the stack id dealt next and those that are free then are ids that have been dealt -/
theorem lt_ownersTaken {m : Machine} (hin : ∀ id ∈ m.freeStacks, id < m.stackOwners.size) {id : Nat}
    (hid : id ∈ m.nextStackId :: m.freeStacks.tail) : id < m.ownersTaken.size := by
  unfold Machine.ownersTaken
  unfold Machine.nextStackId at hid ⊢
  cases hf : m.freeStacks with
  | nil =>
    rw [hf] at hid
    obtain rfl := List.mem_singleton.1 hid
    simp
  | cons i free =>
    rw [hf] at hid hin
    simpa using hin id (by simpa using hid)

/-- the stack id dealt next belongs to the thread that is opened -/
theorem owner_next {m : Machine} (hin : ∀ id ∈ m.freeStacks, id < m.stackOwners.size) :
    (m.ownersTaken[m.nextStackId]?).join = some m.threads.size := by
  unfold Machine.ownersTaken Machine.nextStackId
  cases hf : m.freeStacks with
  | nil => simp
  | cons id free => simp [hin id (by simp [hf])]

section

variable (h : Beside ρ l r) (ho : ρ.obj .scope g g') (hg : l.globalScope = some g) (hg' : r.globalScope = some g')
include h ho hg hg'

theorem Beside.agree (capacity : Nat) : Agree l.threads.size ρ (l.joined g capacity) (r.joined g' capacity) := by
  have hl : (l.joined g capacity).thread l.threads.size = l.newThread g capacity :=
    (Machine.thread_joined ..).trans (if_pos rfl)
  have hr : (r.joined g' capacity).thread l.threads.size = r.newThread g' capacity :=
    (Machine.thread_joined ..).trans (if_pos h.size)
  exact
    { h with
      store := unframed h.store h.plain
      globalScope := ⟨g, g', hg, hg', ho⟩
      isOpen := by rw [hl]; rfl
      isOpen' := by rw [hr]; rfl
      whole := by rw [hl]; rfl
      owner := by rw [hl]; exact owner_next h.unowned
      scopes := by rw [hl, hr]; exact .cons (.inl ho) .nil
      outermost := ⟨g, g', by rw [hl]; rfl, by rw [hr]; rfl, ho⟩ }

/-- two machines with a new thread -/
def Beside.opened (capacity : Nat) : Situation l.threads.size := ⟨_, _, ρ, h.agree ho hg hg' capacity⟩

end

/-! ## Closing -/

/-- a thread that has lost nothing since it was opened can be closed -/
theorem run_close {m m₁ : Machine} {th : ThreadId} (hth : th = m.threads.size) (hin : ∀ id ∈ m.freeStacks, id < m.stackOwners.size)
    (ho : (m₁.thread th).isOpen = true) (hs : Stays th (m.joined g capacity) m₁) :
    (Act.closeThread th).run m₁ = .ok () (m₁.shut th g) := by
  subst hth
  have hthread : (m.joined g capacity).thread m.threads.size = m.newThread g capacity :=
    (Machine.thread_joined ..).trans (if_pos rfl)
  refine Machine.run_closing ho ?_ ?_ ?_
  · rw [hs.scopes, hthread]
    rfl
  · rw [hs.uses, Machine.useCount_joined, if_pos rfl]
    exact Nat.succ_ne_zero _
  · rw [hs.owners, hs.id, hthread]
    exact owner_next hin

section

variable {h : Beside ρ l r} {ho : ρ.obj .scope g g'} {hg : l.globalScope = some g} {hg' : r.globalScope = some g'}
  {τ : Situation l.threads.size} (hk : Situation.Keeps (h.opened ho hg hg' capacity) τ)
include hk

/-- two machines are beside each other again when the thread has been closed -/
theorem Beside.shut : Beside τ.pairing (τ.left.shut l.threads.size g) (τ.right.shut l.threads.size g') := by
  have hnext : l.nextStackId = r.nextStackId := by unfold Machine.nextStackId; rw [h.free, h.owners]
  have hleft : (τ.left.thread l.threads.size).stack.id = l.nextStackId :=
    hk.stays.id.trans (by
      rw [show (h.opened ho hg hg' capacity).left = l.joined g capacity from rfl, Machine.thread_joined, if_pos rfl]
      rfl)
  have hright : (τ.right.thread l.threads.size).stack.id = l.nextStackId :=
    hk.stays'.id.trans (by
      rw [show (h.opened ho hg hg' capacity).right = r.joined g' capacity from rfl, Machine.thread_joined, if_pos h.size, hnext]
      rfl)
  have howners : τ.left.stackOwners = l.ownersTaken := hk.stays.owners
  have howners' : τ.right.stackOwners = l.ownersTaken := hk.stays'.owners.trans (ownersTaken_eq h).symm
  have hfree : τ.left.freeStacks = l.freeStacks.tail := hk.stays.free
  have hfree' : τ.right.freeStacks = l.freeStacks.tail := hk.stays'.free.trans (congrArg List.tail h.free.symm)
  obtain ⟨g₁, g₁', hg₁, hg₁', ho₁⟩ := τ.agree.globalScope
  exact
    { τ.agree with
      store := unframed τ.agree.store fun _ _ hf => h.plain _ _ (hk.frame hf)
      plain := fun _ _ hf => h.plain _ _ (hk.frame hf)
      globalScope := by
        change Option.Rel _ τ.left.globalScope τ.right.globalScope
        rw [hg₁, hg₁']
        exact .some ho₁
      size := by
        change (τ.left.threads.modify _ _).size = (τ.right.threads.modify _ _).size
        rw [Array.size_modify, Array.size_modify, hk.stays.size, hk.stays'.size]
        exact size_joined h
      owners := by
        change τ.left.stackOwners.setIfInBounds _ _ = τ.right.stackOwners.setIfInBounds _ _
        rw [hleft, hright, howners, howners']
      free := by
        change _ :: τ.left.freeStacks = _ :: τ.right.freeStacks
        rw [hleft, hright, hfree, hfree']
      unowned := by
        intro id hid
        change id ∈ _ :: τ.left.freeStacks at hid
        change id < (τ.left.stackOwners.setIfInBounds _ _).size
        rw [hleft, hfree] at hid
        rw [Array.size_setIfInBounds, howners]
        exact lt_ownersTaken h.unowned hid
      capacity := by
        change τ.left.config.stackCapacity = τ.right.config.stackCapacity
        rw [hk.stays.config, hk.stays'.config]
        exact h.capacity }

end

end LispMachine.Boxed
