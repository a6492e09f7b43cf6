/-
Sessions: what a host does with the machine, and the states that are reached.

Between two operations of the host the threads are idle: no slot of an open thread is in use. Opening and closing threads,
installing the primitives, reading, evaluating a form on its own and printing keep it so. The states reached in between are
those in which an evaluation starts: `watched` stops a run when it comes to one, so a state is reached if a run with the
watched evaluator is stopped there.
-/
import LispMachine.Proofs.Orderly.Forms
import LispMachine.Repl.Loop

namespace LispMachine

open Source

/-! ## Idle machines -/

/-- a clean machine between two operations: the stacks of its open threads are empty -/
structure Machine.Idle (m : Machine) : Prop extends m.Clean 2 where
  quiet : ∀ t, ∀ v ∈ (m.thread t).pins, v.isSignaling = false
  global : ∀ t, (m.thread t).isOpen = true → m.globalScope.isSome = true
  beyond : ∀ t, (m.thread t).isOpen = true → (m.thread t).stack.beyond = 0
  inside : ∀ t, (m.thread t).isOpen = true → 0 < (m.thread t).scopes.size
  owned : ∀ t, (m.thread t).isOpen = true → m.stackOwners[(m.thread t).stack.id]? = some (some t)
  empty : ∀ t, (m.thread t).isOpen = true → (m.thread t).height = 0
  unowned : ∀ id ∈ m.freeStacks, m.stackOwners[id]? = some none
  unlike : m.freeStacks.Nodup

namespace Machine.Idle

variable {m m' : Machine} {th : ThreadId}

theorem sane (hm : m.Idle) (ho : (m.thread th).isOpen = true) : m.Sane th 2 0 :=
  ⟨hm.toClean, hm.quiet, hm.global th ho, Nat.zero_le 2, ho, hm.beyond, hm.inside, hm.owned, Nat.zero_le _⟩

/-- what a thread has run evenly leaves all threads idle -/
theorem even (hm : m.Idle) (ho : (m.thread th).isOpen = true) (h : Machine.Even th 2 0 m m') : m'.Idle := by
  have hsane := h.sane (hm.sane ho)
  have hopen (t : ThreadId) := (h.shape_any rfl rfl rfl t).1
  have howners : m'.stackOwners = m.stackOwners := congrArg (fun x => x.2.1) h.fixed
  have hfree : m'.freeStacks = m.freeStacks := congrArg (fun x => x.2.2) h.fixed
  refine ⟨hsane.toClean, hsane.quiet, fun _ _ => hsane.global, hsane.beyond, hsane.inside, hsane.owned, fun t ht => ?_,
    hfree ▸ howners ▸ hm.unowned, hfree ▸ hm.unlike⟩
  rw [hopen t] at ht
  by_cases heq : t = th
  · subst heq; exact h.level.trans (hm.empty t ht)
  · exact (h.others t heq).2.1.trans (hm.empty t ht)

/-- nothing else is asked of a machine -/
theorem congr (hm : m.Idle) (hheap : m'.heap.Clean 2) (hthreads : m'.threads = m.threads)
    (hfixed : m'.fixtures = m.fixtures) : m'.Idle := by
  have hthread (t : ThreadId) : m'.thread t = m.thread t := by unfold Machine.thread; rw [hthreads]
  have hglobal : m'.globalScope = m.globalScope := congrArg Prod.fst hfixed
  have howners : m'.stackOwners = m.stackOwners := congrArg (fun x => x.2.1) hfixed
  have hfree : m'.freeStacks = m.freeStacks := congrArg (fun x => x.2.2) hfixed
  refine ⟨⟨hheap, fun t => ?_⟩, fun t => ?_, fun t => ?_, fun t => ?_, fun t => ?_, fun t => ?_, fun t => ?_,
    hfree ▸ howners ▸ hm.unowned, hfree ▸ hm.unlike⟩ <;> rw [hthread]
  · exact hm.slots t
  · exact hm.quiet t
  · rw [hglobal]; exact hm.global t
  · exact hm.beyond t
  · exact hm.inside t
  · rw [howners]; exact hm.owned t
  · exact hm.empty t

theorem steady (hm : m.Idle) (h : Machine.Steady 2 m m') : m'.Idle := hm.congr h.heap h.threads h.fixed

end Machine.Idle

theorem Machine.initial_idle : Machine.initial.Idle := by
  have hblank (t : ThreadId) : Machine.initial.thread t = .blank := rfl
  refine ⟨⟨⟨fun h c hc => ?_, Heap.inOrder_initial, Heap.holds_initial⟩, fun t => by simp [hblank, Thread.blank]⟩,
    fun t => by simp [hblank, Thread.blank], fun t ht => ?_, fun t ht => ?_, fun t ht => ?_, fun t ht => ?_, fun t ht => ?_,
    nofun, List.nodup_nil⟩
  · obtain ⟨s, hs, rfl⟩ := Heap.cell?_eq_some.1 hc
    have hs' := Heap.slot?_eq_some.1 hs
    match h, hs' with
    | 1, hs' => cases hs'; exact .error ⟨rfl, rfl⟩ ⟨rfl, rfl⟩
    | 0, hs' => cases hs'
    | n + 2, hs' => simp [Machine.initial] at hs'
  all_goals rw [hblank] at ht; cases ht

namespace Act

variable {α : Type} {th : ThreadId} {b k : Nat} {C : Cause → Prop} {m m' : Machine}

/-- an operation that leaves all threads idle, unless it ends in a fault -/
def Settles (x : Act α) (m : Machine) : Prop :=
  x.Ends m (fun _ m' => m'.Idle) fun e m' => ∀ c, e = .raised c → m'.Idle

theorem Runs.settles {x : Act α} {Q : α → Prop} (hx : Runs th 2 0 C x Q) (hm : m.Idle)
    (ho : (m.thread th).isOpen = true) : x.Settles m :=
  (hx m (hm.sane ho)).mono (fun _ _ h => hm.even ho h.1)
    fun _ _ h c hc => hm.even ho ⟨h.onward, h.quietly c hc, h.level c hc⟩

theorem Still.settles {x : Act α} {Q : α → Prop} (hx : Still 2 C x Q) (hm : m.Idle) : x.Settles m :=
  (hx m hm.heap).mono (fun _ _ h => hm.steady h.1) fun _ _ h _ _ => hm.steady h.1

/-! ## Opening and closing -/

theorem ends_defaultGlobal (hm : m.Idle) :
    defaultGlobal.Ends m (fun _ m' => m'.Idle ∧ m'.globalScope.isSome = true ∧ m'.threads = m.threads ∧
      m'.stackOwners = m.stackOwners)
      fun e m' => ∀ c, e = .raised c → m'.Idle := by
  unfold defaultGlobal
  refine Ends.bind (P := fun x m' => x = m ∧ m' = m) ⟨rfl, rfl⟩ ?_
  rintro x m' ⟨rfl, rfl⟩
  split
  · rename_i hg
    exact ⟨hm, by rw [hg]; rfl, rfl, rfl⟩
  · refine Ends.bind ((still_intern (C := fun _ => False) _ m' hm.heap).mono (fun _ _ h => h.1)
      fun _ _ h c hc => (h.2.cause c hc).elim) fun name m₁ h₁ => ?_
    refine Ends.bind ((still_allocate (C := fun _ => False) (.scope (by simp)) false m₁ h₁.heap).mono (fun _ _ h => h.1)
      fun _ _ h c hc => (h.2.cause c hc).elim) fun h m₂ h₂ => ?_
    have hsteady := h₁.trans h₂
    have hidle := hm.steady hsteady
    exact ⟨⟨⟨hidle.heap, hidle.slots⟩, hidle.quiet, fun _ _ => rfl, hidle.beyond, hidle.inside, hidle.owned, hidle.empty,
      hidle.unowned, hidle.unlike⟩, rfl, hsteady.threads, congrArg (fun x => x.2.1) hsteady.fixed⟩

/-- an id that is taken is that of no stack in use -/
theorem ends_takeStackId (hm : m.Idle) : takeStackId.Ends m
    (fun id m' => m'.Idle ∧ m'.threads = m.threads ∧ m'.stackOwners[id]? = some (some m.threads.size) ∧
      ∀ t, (m.thread t).isOpen = true → (m.thread t).stack.id ≠ id)
    fun _ m' => m'.Idle := by
  -- whose the stacks are is changed only for an id that no open thread has
  have hgiven (id : Nat) (owners : Array (Option ThreadId)) (free : List Nat)
      (hother : ∀ i, i ≠ id → owners[i]? = m.stackOwners[i]? ∨ m.stackOwners[i]? = none)
      (hid : owners[id]? = some (some m.threads.size))
      (hvacant : ∀ t, m.stackOwners[id]? ≠ some (some t))
      (hunowned : ∀ i ∈ free, i ≠ id ∧ m.stackOwners[i]? = some none) (hunlike : free.Nodup) :
      ({ m with stackOwners := owners, freeStacks := free } : Machine).Idle ∧
        owners[id]? = some (some m.threads.size) ∧ ∀ t, (m.thread t).isOpen = true → (m.thread t).stack.id ≠ id := by
    have hne (t : ThreadId) (ht : (m.thread t).isOpen = true) : (m.thread t).stack.id ≠ id := fun heq =>
      hvacant t (heq ▸ hm.owned t ht)
    have hkept {i : Nat} {o : Option ThreadId} (hi : i ≠ id) (ho : m.stackOwners[i]? = some o) : owners[i]? = some o := by
      rcases hother i hi with h | h
      · rw [h, ho]
      · rw [h] at ho; cases ho
    exact ⟨⟨⟨hm.heap, hm.slots⟩, hm.quiet, hm.global, hm.beyond, hm.inside, fun t ht => hkept (hne t ht) (hm.owned t ht), hm.empty,
      fun i hi => hkept (hunowned i hi).1 (hunowned i hi).2, hunlike⟩, hid, hne⟩
  unfold takeStackId
  refine .read ?_
  split
  · rename_i id free hfree
    have hnone := hm.unowned id (by simp [hfree])
    have hnodup := hm.unlike
    rw [hfree, List.nodup_cons] at hnodup
    have hlt : id < m.stackOwners.size := (Array.getElem?_eq_some_iff.1 hnone).1
    obtain ⟨hidle, hrest⟩ := hgiven id (m.stackOwners.setIfInBounds id (some m.threads.size)) free
      (fun i hi => .inl (by rw [Array.getElem?_setIfInBounds, if_neg (Ne.symm hi)])) (by simp [hlt])
      (fun t => by rw [hnone]; simp)
      (fun i hi => ⟨fun heq => hnodup.1 (heq ▸ hi), hm.unowned i (by simp [hfree, hi])⟩) hnodup.2
    exact ⟨hidle, rfl, hrest⟩
  · rename_i hfree
    split
    · exact hm
    · have hnone : m.stackOwners[m.stackOwners.size]? = none := Array.getElem?_eq_none le_rfl
      obtain ⟨hidle, hrest⟩ := hgiven m.stackOwners.size (m.stackOwners.push (some m.threads.size)) []
        (fun i hi => .inl (by rw [Array.getElem?_push, if_neg hi])) (by simp) (fun t => by rw [hnone]; simp) (by simp)
        List.nodup_nil
      refine ⟨hidle.congr hm.heap rfl ?_, rfl, hrest⟩
      show (_, _, m.freeStacks) = (_, _, [])
      rw [hfree]

/-- a thread that has been opened is idle -/
theorem ends_openThread (hm : m.Idle) (capacity : Int) :
    (openThread capacity).Ends m (fun th m' => m'.Idle ∧ (m'.thread th).isOpen = true)
      fun e m' => ∀ c, e = .raised c → m'.Idle := by
  have hopen (capacity : Nat) : (do
      let th := (← get).threads.size
      let id ← takeStackId
      let g ← defaultGlobal
      useScope g
      modify fun m => { m with threads := m.threads.push { stack := { id := id, capacity := capacity }, scopes := #[g] } }
      return th : Act ThreadId).Ends m (fun th m' => m'.Idle ∧ (m'.thread th).isOpen = true)
      fun e m' => ∀ c, e = .raised c → m'.Idle := by
    refine Ends.bind (P := fun x m' => x = m ∧ m' = m) ⟨rfl, rfl⟩ ?_
    rintro x m' ⟨rfl, rfl⟩
    refine Ends.bind ((ends_takeStackId hm).mono (fun _ _ h => h) fun _ _ h _ _ => h) fun id m₁ ⟨hm₁, hsame, hid, _⟩ => ?_
    refine Ends.bind (ends_defaultGlobal hm₁) fun g m₂ ⟨hm₂, hglobal, hthreads, howners⟩ => ?_
    have hsize : m₂.threads.size = m'.threads.size := by rw [hthreads, hsame]
    refine Ends.bind (P := fun _ m₃ => m₃.Idle ∧ m₃.globalScope.isSome = true ∧ m₃.threads.size = m'.threads.size ∧
      m₃.stackOwners[id]? = some (some m'.threads.size)) ⟨hm₂.congr hm₂.heap rfl rfl, hglobal, hsize, howners ▸ hid⟩
      fun _ m₃ ⟨hm₃, hglobal, hsize, hid⟩ => ?_
    refine Ends.bind (P := fun _ m₄ => m₄.Idle ∧ (m₄.thread m'.threads.size).isOpen = true) ?_ fun _ m₄ h => h
    have hthread {new : Thread} (t : ThreadId) : ({ m₃ with threads := m₃.threads.push new } : Machine).thread t =
        if t = m'.threads.size then new else m₃.thread t := by
      unfold Machine.thread
      rw [Array.getElem?_push, hsize]
      split <;> rfl
    have hpushed {new : Thread} (hslots : ∀ v ∈ new.stack.items, v.IsPlain) (hpins : ∀ v ∈ new.pins, v.isSignaling = false)
        (hbeyond : new.stack.beyond = 0) (hinside : 0 < new.scopes.size) (hempty : new.height = 0) (hown : new.stack.id = id) :
        ({ m₃ with threads := m₃.threads.push new } : Machine).Idle := by
      refine ⟨⟨hm₃.heap, fun t => ?_⟩, fun t => ?_, fun _ _ => hglobal, fun t => ?_, fun t => ?_, fun t => ?_, fun t => ?_,
        hm₃.unowned, hm₃.unlike⟩ <;> rw [hthread] <;> split
      · exact hslots
      · exact hm₃.slots t
      · exact hpins
      · exact hm₃.quiet t
      · exact fun _ => hbeyond
      · exact hm₃.beyond t
      · exact fun _ => hinside
      · exact hm₃.inside t
      · rename_i ht
        exact fun _ => hown ▸ ht ▸ hid
      · exact hm₃.owned t
      · exact fun _ => hempty
      · exact hm₃.empty t
    have hopened {new : Thread} (ho : new.isOpen = true) :
        (({ m₃ with threads := m₃.threads.push new } : Machine).thread m'.threads.size).isOpen = true := by
      rw [hthread, if_pos rfl]
      exact ho
    exact ⟨hpushed (by simp) (by simp) rfl Nat.one_pos rfl rfl, hopened rfl⟩
  unfold openThread
  simp only
  generalize (if capacity ≤ 0 then Stack.defaultCapacity else capacity.toNat) = cap
  split
  · exact Ends.bind (P := fun _ _ => False) (fun _ _ => hm) fun _ _ h => h.elim
  · exact hopen cap

theorem ends_openDefaultThread (hm : m.Idle) :
    openDefaultThread.Ends m (fun th m' => m'.Idle ∧ (m'.thread th).isOpen = true)
      fun e m' => ∀ c, e = .raised c → m'.Idle := ends_openThread hm _

theorem ends_unuseScope (hm : m.Idle) (h : Handle) :
    (unuseScope h).Ends m (fun _ m' => m'.Idle ∧ m'.threads = m.threads) fun e m' => ∀ c, e = .raised c → m'.Idle := by
  unfold unuseScope
  refine Ends.bind (P := fun x m' => x = m ∧ m' = m) ⟨rfl, rfl⟩ ?_
  rintro x m' ⟨rfl, rfl⟩
  simp only
  split
  · refine Ends.bind ((still_print (C := fun _ => False) _).settles hm) fun text m₁ hm₁ => ?_
    exact Ends.bind (P := fun _ _ => False) (by rintro c ⟨⟩) fun _ _ h => h.elim
  · exact ⟨hm.congr hm.heap rfl rfl, rfl⟩

theorem settles_closeThread (hm : m.Idle) (th : ThreadId) : (closeThread th).Settles m := by
  have hscopes (hs : List Handle) : ∀ {m : Machine}, m.Idle → (hs.forM unuseScope).Ends m
      (fun _ m' => m'.Idle ∧ m'.threads = m.threads) fun e m' => ∀ c, e = .raised c → m'.Idle := by
    induction hs with
    | nil => exact fun hm => ⟨hm, rfl⟩
    | cons h hs ih =>
      exact fun hm => Ends.bind (ends_unuseScope hm h) fun _ _ h =>
        (ih h.1).mono (fun _ _ h' => ⟨h'.1, h'.2.trans h.2⟩) fun _ _ h => h
  unfold closeThread
  refine Ends.bind (P := fun x m' => x = m ∧ m' = m) ⟨rfl, rfl⟩ ?_
  rintro x m' ⟨rfl, rfl⟩
  simp only
  split
  · rename_i ho
    have hb := Machine.becomes_onThread ho fun t => { t with isOpen := false, scopes := #[], pins := #[] }
    refine Ends.bind (P := fun _ m₁ => m₁.Idle ∧ (m₁.thread th).isOpen = false) ?_ fun _ m₁ ⟨hm₁, hshut⟩ =>
      Ends.bind (hscopes _ hm₁) fun _ m₂ ⟨hm₂, hthreads⟩ => ?_
    · have hclosed {p : ThreadId → Thread → Prop} (hp : ∀ t, (m'.thread t).isOpen = true → p t (m'.thread t)) (t : ThreadId) :
          ((m'.onThread th fun t => { t with isOpen := false, scopes := #[], pins := #[] }).thread t).isOpen = true →
          p t ((m'.onThread th fun t => { t with isOpen := false, scopes := #[], pins := #[] }).thread t) := by
        by_cases ht : t = th
        · subst ht; rw [hb.own]; intro h; cases h
        · rw [hb.others t ht]; exact hp t
      refine ⟨⟨⟨hm.heap, fun t => ?_⟩, fun t => ?_, hclosed (p := fun _ _ => _) fun t ht => hm.global t ht,
        hclosed (p := fun _ t => t.stack.beyond = 0) hm.beyond, hclosed (p := fun _ t => 0 < t.scopes.size) hm.inside,
        hclosed (p := fun u t => m'.stackOwners[t.stack.id]? = some (some u)) hm.owned,
        hclosed (p := fun _ t => t.height = 0) hm.empty, hm.unowned, hm.unlike⟩, ?_⟩
      · show ∀ v ∈ ((m'.onThread th _).thread t).stack.items, v.IsPlain
        by_cases ht : t = th
        · subst ht; rw [hb.own]; exact hm.slots t
        · rw [hb.others t ht]; exact hm.slots t
      · show ∀ v ∈ ((m'.onThread th _).thread t).pins, v.isSignaling = false
        by_cases ht : t = th
        · subst ht; rw [hb.own]; simp
        · rw [hb.others t ht]; exact hm.quiet t
      · show ((m'.onThread th _).thread th).isOpen = false
        rw [hb.own]
    · have hshut : (m₂.thread th).isOpen = false := by
        unfold Machine.thread at hshut ⊢
        rw [hthreads]
        exact hshut
      have hgiven : Machine.Idle (if (m₂.stackOwners[(m'.thread th).stack.id]?).join = some th then
          { m₂ with stackOwners := m₂.stackOwners.setIfInBounds (m'.thread th).stack.id none,
                    freeStacks := (m'.thread th).stack.id :: m₂.freeStacks }
          else m₂) := by
        split
        · rename_i howner
          have howner := Option.join_eq_some_iff.1 howner
          have hlt := (Array.getElem?_eq_some_iff.1 howner).1
          have hother {i : Nat} {o : Option ThreadId} (ho : m₂.stackOwners[i]? = some o) (hne : o ≠ some th) :
              (m₂.stackOwners.setIfInBounds (m'.thread th).stack.id none)[i]? = some o := by
            rw [Array.getElem?_setIfInBounds, if_neg, ho]
            rintro rfl
            rw [howner] at ho
            exact hne (Option.some.inj ho).symm
          refine ⟨⟨hm₂.heap, hm₂.slots⟩, hm₂.quiet, hm₂.global, hm₂.beyond, hm₂.inside, fun t ht =>
            hother (hm₂.owned t ht) ?_, hm₂.empty, fun i hi => ?_, List.nodup_cons.2 ⟨fun hi => ?_, hm₂.unlike⟩⟩
          · rintro ⟨⟩
            exact absurd ht (by rw [Bool.not_eq_true]; exact hshut)
          · rcases List.mem_cons.1 hi with rfl | hi
            · simp [hlt]
            · exact hother (hm₂.unowned i hi) (by simp)
          · have hnone := hm₂.unowned _ hi
            rw [howner] at hnone
            cases hnone
        · exact hm₂
      exact hgiven.congr hgiven.heap rfl rfl
  · exact hm

/-- closing a thread raises nothing -/
theorem ends_closeThread (hm : m.heap.Clean 2) (th : ThreadId) :
    (closeThread th).Ends m (fun _ _ => True) fun e _ => ∀ c, e ≠ .raised c := by
  have hunuse (h : Handle) {m : Machine} (hm : m.heap.Clean 2) :
      (unuseScope h).Ends m (fun _ m' => m'.heap.Clean 2) fun e _ => ∀ c, e ≠ .raised c := by
    unfold unuseScope
    refine Ends.bind (P := fun x m' => x = m ∧ m' = m) ⟨rfl, rfl⟩ ?_
    rintro x m' ⟨rfl, rfl⟩
    simp only
    split
    · refine Ends.bind ((still_print (C := fun _ => False) _ m' hm).mono (fun _ _ _ => trivial)
        fun _ _ h c hc => h.2.cause c hc) fun text m₁ _ => ?_
      exact Ends.bind (P := fun _ _ => False) (by rintro c ⟨⟩) fun _ _ h => h.elim
    · exact hm
  have hscopes (hs : List Handle) : ∀ {m : Machine}, m.heap.Clean 2 →
      (hs.forM unuseScope).Ends m (fun _ m' => m'.heap.Clean 2) fun e _ => ∀ c, e ≠ .raised c := by
    induction hs with
    | nil => exact fun hm => hm
    | cons h hs ih => exact fun hm => Ends.bind (hunuse h hm) fun _ _ hm => ih hm
  unfold closeThread
  refine Ends.bind (P := fun x m' => x = m ∧ m' = m) ⟨rfl, rfl⟩ ?_
  rintro x m' ⟨rfl, rfl⟩
  simp only
  split
  · exact Ends.bind (P := fun _ m₁ => m₁.heap.Clean 2) hm fun _ m₁ hm₁ => Ends.bind (hscopes _ hm₁) fun _ _ _ => trivial
  · trivial

/-! ## Reading and printing -/

theorem runs_atomValue (a : Atom) : Runs th b k C (atomValue a) Value.IsPlain := by
  cases a with
  | t => exact .pure ⟨rfl, rfl⟩
  | nil => exact .pure ⟨rfl, rfl⟩
  | number n => exact .pure (Value.isPlain_ofNumber n)
  | symbol name => exact (still_symbol name).runs

mutual

theorem runs_buildForm (th : ThreadId) (b k : Nat) (C : Cause → Prop) : (f : Form) →
    Runs th b k C (buildForm th f) Value.IsPlain
  | .atom text => runs_atomValue _
  | .list items => by
    unfold buildForm
    exact (runs_buildForms th b k C items).bind fun vs hvs => runs_newListOf true hvs
  | .quoted form => by
    unfold buildForm
    exact (runs_buildForm th b k C form).bind fun v hv => (still_symbol "quote").runs.bind fun q hq =>
      runs_newListOf true (List.forall_mem_cons.2 ⟨hq, List.forall_mem_cons.2 ⟨hv, by simp⟩⟩)

theorem runs_buildForms (th : ThreadId) (b k : Nat) (C : Cause → Prop) : (fs : List Form) →
    Runs th b k C (buildForms th fs) fun vs => ∀ v ∈ vs, v.IsPlain
  | [] => .pure (by simp)
  | form :: forms => by
    unfold buildForms
    exact (runs_buildForm th b k C form).bind fun v hv => (runs_buildForms th b k C forms).bind fun vs hvs =>
      .pure (List.forall_mem_cons.2 ⟨hv, hvs⟩)

end

theorem runs_buildReading (r : Reading) :
    Runs th b k Cause.IsFine (buildReading th r) fun o => ∀ v, o = some v → v.IsPlain := by
  cases r with
  | finished _ => exact .pure (by simp)
  | form f _ =>
    unfold buildReading
    exact (runs_buildForm th b k _ f).bind fun v hv => .pure (by rintro _ ⟨⟩; exact hv)
  | failed cause begun after =>
    unfold buildReading
    exact (runs_buildForms th b k _ begun).bind fun _ _ => .raise (by rintro _ ⟨⟩) (by rintro _ ⟨⟩)

theorem runs_readString (s : String) : Runs th b k Cause.IsFine (readString th s) Value.IsPlain := by
  unfold readString readOne
  refine (runs_buildReading _).bind fun o ho => ?_
  split
  · exact .raise (by rintro _ ⟨⟩) (by simp)
  · split
    · exact .raise (by rintro _ ⟨⟩) (by simp)
    · exact .pure (ho _ rfl)

theorem still_write (c : Channel) (text : String) : Still b Cause.IsFine (write c text) fun _ => True := by
  unfold write
  refine .read fun m hm => ?_
  split
  · exact .modify fun m hm => ⟨hm, rfl, rfl, rfl⟩
  · exact .modify fun m hm => ⟨hm, rfl, rfl, rfl⟩
  · exact .raise (by rintro _ ⟨⟩) (by simp)
  · exact .modify fun m hm => ⟨hm, rfl, rfl, rfl⟩

theorem still_report (r : Except Cause Value) : Still b Cause.IsFine (report r) fun _ => True := by
  have hmessage (e : HeldError) : Still b Cause.IsFine (errorMessageIn e) fun _ => True := by
    unfold errorMessageIn
    refine (still_errorMessage e (C := Cause.IsFine)).observe.bind fun r hr => ?_
    split
    · exact .pure trivial
    · exact .fault (by simp)
    · exact .pure trivial
    · exact .throw hr
  unfold report
  split
  · exact (still_printIn "v" _).bind fun _ _ => still_write .out _
  · exact (hmessage _).bind fun _ _ => still_write .err _
  · exact still_write .err _

/-! ## Installing the primitives -/

theorem runs_define {p : Builtin} (hp : ∀ a, p.primitive ≠ .host a) (hsignal : p.special = true → p.primitive ≠ .signal) :
    Runs th b k Cause.IsFine (define th p) fun _ => True := by
  have hdefault : Runs th b k Cause.IsFine defaultGlobal fun _ => True := by
    unfold defaultGlobal
    refine .read fun m hm => ?_
    obtain ⟨h, hh⟩ := Option.isSome_iff_exists.1 hm.global
    rw [hh]
    exact .pure trivial
  have hmake {params : Value} (hparams : params.IsPlain) (sym : Handle) :
      Runs th b k Cause.IsFine (newPrimitive th (some sym) params p.special p.primitive) Value.IsPlain :=
    (still_parseParams hparams).runs.bind fun ps hps =>
      runs_allocatePinned (.function hps (.primitive hp hsignal)) false fun _ => ⟨rfl, rfl⟩
  unfold define
  refine (runs_guarded (Q := Value.IsPlain) (Cause.IsObject.isFine ⟨_, rfl⟩) (fun _ h => h.2) ?_).bind fun _ _ => .pure trivial
  exact (runs_readString p.params).bind fun params hparams => (still_intern p.name).runs.bind fun sym _ =>
    (hmake hparams sym).bind fun f hf => hdefault.bind fun g _ => (runs_bind g sym hf).bind fun _ _ => .pure ⟨rfl, rfl⟩

theorem settles_install (hm : m.Idle) : install.Settles m := by
  have hdefine (ps : List Builtin) (th : ThreadId)
      (hps : ∀ p ∈ ps, (∀ a, p.primitive ≠ .host a) ∧ (p.special = true → p.primitive ≠ .signal)) :
      Runs th 2 0 Cause.IsFine (ps.forM (define th)) fun _ => True := by
    induction ps with
    | nil => exact .pure trivial
    | cons p ps ih =>
      rw [List.forall_mem_cons] at hps
      exact (runs_define hps.1.1 hps.1.2).bind fun _ _ => ih hps.2
  have hbuiltin : ∀ p ∈ builtins, (∀ a, p.primitive ≠ .host a) ∧ (p.special = true → p.primitive ≠ .signal) := by
    simp [builtins]
  have hall {m : Machine} (hm : m.Idle) : installAll.Settles m := by
    unfold installAll
    refine Ends.bind (ends_openDefaultThread hm) fun th m₁ ⟨hm₁, ho⟩ => ?_
    have hdefined := hdefine builtins th hbuiltin m₁ (hm₁.sane ho)
    unfold andThen
    refine Ends.bind (P := fun r m₂ => m₂.heap.Clean 2 ∧ ((∀ f, r ≠ .error (.fault f)) → r ≠ .error .outOfFuel → m₂.Idle))
      (.observe (hdefined.mono (fun _ m₂ h => ?_) fun e m₂ h => ?_)) fun r m₂ h => ?_
    · exact ⟨h.1.clean.heap, fun _ _ => hm₁.even ho h.1⟩
    · refine ⟨h.onward.clean.heap, fun hfault hfuel => ?_⟩
      cases e with
      | raised c => exact hm₁.even ho ⟨h.onward, h.quietly c rfl, h.level c rfl⟩
      | fault f => exact absurd rfl (hfault f)
      | outOfFuel => exact absurd rfl hfuel
    · match r with
      | .ok a => exact Ends.bind (settles_closeThread (h.2 (by simp) (by simp)) th) fun _ _ hm => hm
      | .error (.raised c) => exact Ends.bind (settles_closeThread (h.2 (by simp) (by simp)) th) fun _ _ hm _ _ => hm
      | .error (.fault f) =>
        exact Ends.bind ((ends_closeThread h.1 th).mono (fun _ _ h => h) fun _ _ h c hc => absurd hc (h c)) fun _ _ _ c hc => by cases hc
      | .error .outOfFuel =>
        exact Ends.bind ((ends_closeThread h.1 th).mono (fun _ _ h => h) fun _ _ h c hc => absurd hc (h c)) fun _ _ _ c hc => by cases hc
  unfold install
  refine Ends.bind (P := fun x m' => x = m ∧ m' = m) ⟨rfl, rfl⟩ ?_
  rintro x m' ⟨rfl, rfl⟩
  split
  · exact hm
  · exact fun _ _ => hm
  · refine Ends.bind (P := fun _ m₁ => m₁.Idle) (hm.congr hm.heap rfl rfl) fun _ m₁ hm₁ => ?_
    refine Ends.bind (P := fun _ m₂ => m₂.Idle) (.attempt ((hall hm₁).mono (fun _ _ h => h) fun e m₂ h => ?_)) fun r m₂ hm₂ => ?_
    · cases e with
      | raised c => exact h c rfl
      | fault f => rintro c ⟨⟩
      | outOfFuel => rintro c ⟨⟩
    · cases r with
      | ok _ => exact hm₂
      | error c => exact Ends.bind (P := fun _ m₃ => m₃.Idle) (hm₂.congr hm₂.heap rfl rfl) fun _ m₃ hm₃ _ _ => hm₃

/-! ## Steps of the loop -/

/-- a step of the loop ends evenly, unless it ends in a fault, and without an error it leaves nothing pinned -/
theorem ends_replStep (hm : m.Idle) (ho : (m.thread th).isOpen = true) (fuel : Nat) (reading : Reading) :
    (replStep fuel th reading).Ends m
      (fun _ m' => Machine.Even th 2 0 m m' ∧ (m'.thread th).pins = (m.thread th).pins)
      fun e m' => ∀ c, e = .raised c → Machine.Even th 2 0 m m' := by
  have hsane := hm.sane ho
  have hempty := hm.empty th ho
  have hreading : (onReading th (evalPrint fuel th) reading).Ends m (fun _ m' => Machine.Even th 2 0 m m')
      (Machine.Failed th 2 0 Cause.IsFine m) := by
    have hruns {x : Act Unit} (hx : Runs th 2 0 Cause.IsFine x fun _ => True) :
        x.Ends m (fun _ m' => Machine.Even th 2 0 m m') (Machine.Failed th 2 0 Cause.IsFine m) :=
      (hx m hsane).mono (fun _ _ h => h.1) fun _ _ h => h
    cases reading with
    | finished _ => exact hruns (.pure trivial)
    | failed cause begun _ =>
      exact hruns ((runs_buildForms th 2 0 _ begun).bind fun _ _ => (still_write .err _).runs)
    | form f _ =>
      refine Ends.bind (runs_buildForm th 2 0 _ f m hsane) fun form m₁ ⟨h₁, hform⟩ => ?_
      have hsane₁ := h₁.sane hsane
      have htop := ends_evalTopLevelBy (orderly_eval th 2 fuel fuel) hsane₁ (h₁.level.trans hempty) hform
      refine Ends.bind (P := fun _ m₂ => Machine.Even th 2 0 m m₂) (.attempt (htop.mono (fun _ _ h => h₁.trans h.1.1) ?_))
        fun r m₂ h₂ => ?_
      · intro e m₂ h
        cases e with
        | raised c => exact h₁.trans ⟨h.1.onward, h.1.quietly c rfl, h.1.level c rfl⟩
        | fault f => exact (h.1.toStrayed.unraised (by simp)).after h₁
        | outOfFuel => exact (h.1.toStrayed.unraised (by simp)).after h₁
      · exact ((still_report r).runs m₂ (h₂.sane hsane)).mono (fun _ _ h => h₂.trans h.1) fun _ _ h => h.after h₂
  have hstep : (do
      onReading th (evalPrint fuel th) reading
      return .nil : Act Value).Ends m (fun v m' => Machine.Even th 2 0 m m' ∧ v = .nil)
      (Machine.Failed th 2 0 Cause.IsFine m) := Ends.bind hreading fun _ _ h => ⟨h, rfl⟩
  have hguarded := ends_guarded (Q := (· = .nil)) hsane (Cause.IsObject.isFine ⟨_, rfl⟩) (by rintro _ rfl; rfl) hstep.cameTo
  unfold replStep
  refine Ends.bind (hguarded.mono (fun _ _ h => h) fun e m' h c hc => ⟨h.1.onward, h.1.quietly c hc, h.1.level c hc⟩) ?_
  rintro v m' ⟨⟨heven, rfl⟩, hpins⟩
  refine ⟨heven, ?_⟩
  rw [hpins]
  simp [outcomeKept, Value.needsPin, Value.isHeap, Value.handle?]

end Act

end LispMachine
