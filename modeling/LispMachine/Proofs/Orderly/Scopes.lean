/-
Actions on scopes: running an action inside one, binding, look-up and promotion.

Inside a scope the scopes of the thread and the counts of use are not those from before; `Within` says what they are, and
that coming out of the scope brings them back. What a scope binds stays a reference to a place that is not below `b`.
-/
import LispMachine.Proofs.Orderly.Stack

namespace LispMachine

/-! ## Within a scope -/

namespace Machine

variable {th : ThreadId} {b k : Nat} {h : Handle} {scopes : Array Handle} {m m' m'' : Machine}

/-- `m'` comes from `m`, but for the scopes of the thread, which are those given, and one more use of `h` -/
structure Within (th : ThreadId) (b k : Nat) (h : Handle) (scopes : Array Handle) (m m' : Machine) : Prop
    extends Moved th b k { m.thread th with scopes := scopes } m m' where
  uses : ∀ g, m'.useCount g = m.useCount g + if g = h then 1 else 0

theorem Within.trans (h₁ : Within th b k h scopes m m') (h₂ : Onward th b k m' m'') : Within th b k h scopes m m'' :=
  ⟨h₁.toMoved.trans h₂.toMoved, fun g => (h₂.uses g).trans (h₁.uses g)⟩

theorem Within.after {m₀ : Machine} (h₁ : Onward th b k m₀ m) (h₂ : Within th b k h scopes m m') :
    Within th b k h scopes m₀ m' where
  clean := h₂.clean
  fixed := h₂.fixed.trans h₁.fixed
  own := by
    have hown : Thread.Keeps k { m₀.thread th with scopes := scopes } { m.thread th with scopes := scopes } := by
      refine ⟨?_, h₁.height, h₁.own.low, h₁.own.pins⟩
      have hshape := h₁.own.shape
      simp only [Thread.shape, Thread.Shape.mk.injEq] at hshape ⊢
      simp [hshape]
    exact hown.trans h₂.own
  others u hu :=
    have ⟨s₁, x₁, p₁⟩ := h₁.others u hu
    have ⟨s₂, x₂, p₂⟩ := h₂.others u hu
    ⟨s₂.trans s₁, x₂.trans x₁, p₂.trans p₁⟩
  uses g := by rw [h₂.uses, h₁.uses]

theorem Within.scopes_eq (hw : Within th b k h scopes m m') : (m'.thread th).scopes = scopes :=
  congrArg Thread.Shape.scopes hw.own.shape

theorem Within.isOpen (hw : Within th b k h scopes m m') (hm : m.Sane th b k) : (m'.thread th).isOpen = true :=
  (congrArg Thread.Shape.isOpen hw.own.shape).trans hm.isOpen

theorem Within.sane (hw : Within th b k h scopes m m') (hq : Quietly th m m') (hm : m.Sane th b k)
    (hscopes : 0 < scopes.size) : m'.Sane th b k :=
  hw.toMoved.sane hq hm rfl rfl rfl hscopes hm.above

/-- the machine with the scopes of a thread changed and a count of use set -/
def rescoped (m : Machine) (th : ThreadId) (f : Array Handle → Array Handle) (h : Handle) (n : Nat) : Machine :=
  { m.onThread th (fun t => { t with scopes := f t.scopes }) with uses := Act.setUses m.uses h n }

theorem becomes_rescoped (hopen : (m.thread th).isOpen = true) (f : Array Handle → Array Handle) (n : Nat) :
    Becomes th { m.thread th with scopes := f (m.thread th).scopes } m (m.rescoped th f h n) :=
  have hb := becomes_onThread hopen fun t => { t with scopes := f t.scopes }
  ⟨rfl, rfl, hb.own, hb.others⟩

theorem Sane.within (hm : m.Sane th b k) (f : Array Handle → Array Handle) (h : Handle) :
    Within th b k h (f (m.thread th).scopes) m (m.rescoped th f h (m.useCount h + 1)) := by
  refine ⟨(Onward.refl hm.toClean).toMoved.becomes (becomes_rescoped hm.isOpen f _) (hm.slots th) (.refl _),
    fun g => (useCount_setUses m h g (m.useCount h + 1)).trans ?_⟩
  split
  · rename_i heq; rw [heq]
  · rfl

/-- coming out of a scope brings the scopes and the counts of use back -/
theorem Within.leave (hm : m.Sane th b k) (hw : Within th b k h scopes m m') {f : Array Handle → Array Handle}
    (hf : f scopes = (m.thread th).scopes) :
    Onward th b k m (m'.rescoped th f h (m'.useCount h - 1)) ∧
      ((m'.rescoped th f h (m'.useCount h - 1)).thread th).height = (m'.thread th).height ∧
      Beside th m' (m'.rescoped th f h (m'.useCount h - 1)) := by
  have hb := becomes_rescoped (h := h) (hw.isOpen hm) f (m'.useCount h - 1)
  have hown := hw.own
  refine ⟨⟨hw.toMoved.becomes hb (hw.clean.slots th) ⟨?_, hown.height, hown.low, hown.pins⟩, fun g => ?_⟩, ?_⟩
  · have hshape := hown.shape
    simp only [Thread.shape, Thread.Shape.mk.injEq] at hshape ⊢
    simp [hshape, hf]
  · refine (useCount_setUses m' h g (m'.useCount h - 1)).trans ?_
    rw [hw.uses h, hw.uses g]
    split
    · rename_i heq; subst heq; simp
    · rfl
  · exact ⟨by rw [hb.own]; rfl, rfl, rfl, rfl, rfl, by rw [hb.own]⟩

end Machine

namespace Act

variable {α : Type} {th : ThreadId} {b k n : Nat} {C : Cause → Prop} {m m' : Machine} {h : Handle}

theorem ends_enterScope (hm : m.Sane th b k) (h : Handle) {E : Failure → Machine → Prop} :
    (enterScope th h).Ends m
      (fun _ m' => Machine.Within th b k h ((m.thread th).scopes.push h) m m' ∧
        (m'.thread th).height = (m.thread th).height ∧ Machine.Beside th m m') E := by
  have hrun : (enterScope th h).run m = .ok () (m.rescoped th (·.push h) h (m.useCount h + 1)) := rfl
  unfold Ends
  rw [hrun]
  have hb := Machine.becomes_rescoped (h := h) hm.isOpen (·.push h) (m.useCount h + 1)
  exact ⟨hm.within (·.push h) h, by rw [hb.own]; rfl, rfl, rfl, rfl, rfl, by rw [hb.own]⟩

theorem run_unuseScope {m : Machine} (hcount : m.useCount h ≠ 0) :
    (unuseScope h).run m = .ok () { m with uses := setUses m.uses h (m.useCount h - 1) } := by
  unfold unuseScope
  refine (bind_ok (run_get m)).trans ?_
  simp only [if_neg hcount]
  rfl

/-- the last steps of coming out of a scope -/
theorem ends_unscope (hm : m.Sane th b k) {scopes : Array Handle} (hw : Machine.Within th b k h scopes m m')
    {f : Array Handle → Array Handle} (hf : f scopes = (m.thread th).scopes) :
    (do modify fun m => m.onThread th fun t => { t with scopes := f t.scopes }
        unuseScope h : Act Unit).Ends m'
      (fun _ m'' => Machine.Onward th b k m m'' ∧ (m''.thread th).height = (m'.thread th).height ∧
        Machine.Beside th m' m'') fun _ _ => False := by
  have hcount : m'.useCount h ≠ 0 := by rw [hw.uses h, if_pos rfl]; exact Nat.succ_ne_zero _
  have hrun : (do modify fun m => m.onThread th fun t => { t with scopes := f t.scopes }
                  unuseScope h : Act Unit).run m' = .ok () (m'.rescoped th f h (m'.useCount h - 1)) :=
    (bind_ok (run_modify m' _)).trans (run_unuseScope hcount)
  unfold Ends
  rw [hrun]
  exact hw.leave hm hf

theorem ends_leaveScope (hm : m.Sane th b k)
    (hw : Machine.Within th b k h ((m.thread th).scopes.push h) m m') :
    (leaveScope th h).Ends m' (fun _ m'' => Machine.Onward th b k m m'' ∧ (m''.thread th).height = (m'.thread th).height ∧
      Machine.Beside th m' m'') fun _ _ => False := by
  have hsome : ¬ ((m'.thread th).scopes.isEmpty = true) := by rw [hw.scopes_eq]; simp
  unfold leaveScope
  refine Ends.bind (P := fun x m'' => x = m' ∧ m'' = m') ⟨rfl, rfl⟩ ?_
  rintro x m'' ⟨rfl, rfl⟩
  simp only [if_neg hsome]
  exact ends_unscope hm hw (f := Array.pop) (by rw [Array.pop_push])

/-- an action inside a scope -/
theorem runs_inScope {x : Act α} {Q : α → Prop} (hx : Runs th b k C x Q) (h : Handle) :
    Runs th b k C (inScope th h x) Q := fun m hm => by
  unfold inScope
  refine Ends.bind (ends_enterScope hm h) fun _ m₁ ⟨hw, hheight, hbeside⟩ => ?_
  have hq : Machine.Quietly th m m₁ := .of_eq hbeside.pins
  refine Ends.andThen (hx m₁ (hw.sane hq hm (by simp))) (fun a m₂ hr => ?_) fun e m₂ hf => ?_
  · exact (ends_leaveScope hm (hw.trans hr.1.toOnward)).mono (fun _ m₃ hon =>
      ⟨⟨hon.1, (hq.trans hr.1.quietly).trans (.of_eq hon.2.2.pins), (hon.2.1.trans hr.1.level).trans hheight⟩, hr.2⟩)
      fun _ _ h => h
  · exact (ends_leaveScope hm (hw.trans hf.onward)).mono (fun _ m₃ hon =>
      ⟨⟨hf.toIsKnown, hon.1, fun c hc => (hq.trans (hf.quietly c hc)).trans (.of_eq hon.2.2.pins),
        fun o ho => (hf.secure o ho).beside hon.2.2⟩, fun c hc => (hon.2.1.trans (hf.level c hc)).trans hheight⟩) fun _ _ h => h

/-! ### With another global scope -/

theorem ends_enterGlobal (hm : m.Sane th b k) (h : Handle) {E : Failure → Machine → Prop} :
    (enterGlobal th h).Ends m
      (fun old m' => (Machine.Within th b k h ((m.thread th).scopes.setIfInBounds 0 h) m m' ∧
        (m'.thread th).height = (m.thread th).height ∧ Machine.Beside th m m') ∧
        (m.thread th).scopes[0]? = some old) E := by
  obtain ⟨old, hold⟩ : ∃ old, (m.thread th).scopes[0]? = some old :=
    ⟨_, Array.getElem?_eq_getElem (hm.inside th hm.isOpen)⟩
  have hrun : (enterGlobal th h).run m = .ok old (m.rescoped th (·.setIfInBounds 0 h) h (m.useCount h + 1)) := by
    have hthread (uses : Array Nat) : ({ m with uses := uses }.thread th).scopes[0]? = some old := hold
    unfold enterGlobal globalScope useScope
    refine (bind_ok (run_modify m _)).trans ?_
    simp only [run_bind, run_get, hthread]
    rfl
  unfold Ends
  rw [hrun]
  have hb := Machine.becomes_rescoped (h := h) hm.isOpen (·.setIfInBounds 0 h) (m.useCount h + 1)
  exact ⟨⟨hm.within (·.setIfInBounds 0 h) h, by rw [hb.own]; rfl, rfl, rfl, rfl, rfl, by rw [hb.own]⟩, hold⟩

theorem ends_leaveGlobal (hm : m.Sane th b k) {old : Handle} (hold : (m.thread th).scopes[0]? = some old)
    (hw : Machine.Within th b k h ((m.thread th).scopes.setIfInBounds 0 h) m m') :
    (leaveGlobal th h old).Ends m'
      (fun _ m'' => Machine.Onward th b k m m'' ∧ (m''.thread th).height = (m'.thread th).height ∧
        Machine.Beside th m' m'') fun _ _ => False := by
  have hsize := hm.inside th hm.isOpen
  have hsome : ¬ ((m'.thread th).scopes.isEmpty = true) := by
    rw [hw.scopes_eq, Array.isEmpty_iff_size_eq_zero, Array.size_setIfInBounds]
    exact Nat.ne_of_gt hsize
  have hback : ((m.thread th).scopes.setIfInBounds 0 h).setIfInBounds 0 old = (m.thread th).scopes := by
    refine Array.ext_getElem? fun i => ?_
    by_cases hi : i = 0
    · subst hi
      simp [hsize, (Array.getElem?_eq_some_iff.1 hold).2]
    · simp [Ne.symm hi]
  unfold leaveGlobal
  refine Ends.bind (P := fun x m'' => x = m' ∧ m'' = m') ⟨rfl, rfl⟩ ?_
  rintro x m'' ⟨rfl, rfl⟩
  simp only [if_neg hsome]
  exact ends_unscope hm hw (f := (·.setIfInBounds 0 old)) hback

/-- an action with another global scope -/
theorem runs_withGlobal {x : Act α} {Q : α → Prop} (hx : Runs th b k C x Q) (h : Handle) :
    Runs th b k C (withGlobal th h x) Q := fun m hm => by
  unfold withGlobal
  refine Ends.bind (ends_enterGlobal hm h) fun old m₁ ⟨⟨hw, hheight, hbeside⟩, hold⟩ => ?_
  have hsize : 0 < ((m.thread th).scopes.setIfInBounds 0 h).size := by
    rw [Array.size_setIfInBounds]; exact hm.inside th hm.isOpen
  have hq : Machine.Quietly th m m₁ := .of_eq hbeside.pins
  refine Ends.andThen (hx m₁ (hw.sane hq hm hsize)) (fun a m₂ hr => ?_) fun e m₂ hf => ?_
  · exact (ends_leaveGlobal hm hold (hw.trans hr.1.toOnward)).mono (fun _ m₃ hon =>
      ⟨⟨hon.1, (hq.trans hr.1.quietly).trans (.of_eq hon.2.2.pins), (hon.2.1.trans hr.1.level).trans hheight⟩, hr.2⟩)
      fun _ _ h => h
  · exact (ends_leaveGlobal hm hold (hw.trans hf.onward)).mono (fun _ m₃ hon =>
      ⟨⟨hf.toIsKnown, hon.1, fun c hc => (hq.trans (hf.quietly c hc)).trans (.of_eq hon.2.2.pins),
        fun o ho => (hf.secure o ho).beside hon.2.2⟩, fun c hc => (hon.2.1.trans (hf.level c hc)).trans hheight⟩) fun _ _ h => h

/-! ## Scopes as objects -/

theorem isPlace_insert {s : Scope} (hs : ∀ e ∈ s.table, e.2.IsPlace b) (sym : Handle) {r : Value} (hr : r.IsPlace b) :
    ∀ e ∈ (s.insert sym r).table, e.2.IsPlace b := by
  unfold Scope.insert
  split
  · intro e he
    obtain ⟨e', he', rfl⟩ := List.mem_map.1 he
    split
    · exact hr
    · exact hs e' he'
  · exact List.forall_mem_cons.2 ⟨hr, hs⟩

theorem isPlace_own {s : Scope} (hs : ∀ e ∈ s.table, e.2.IsPlace b) {sym : Handle} {r : Value}
    (hr : s.own? sym = some r) : r.IsPlace b := by
  obtain ⟨l₁, l₂, heq, -⟩ := List.lookup_eq_some_iff.1 hr
  exact hs (sym, r) (by rw [heq]; simp)

theorem isPlace_scope {hp : Machine} (hm : hp.heap.Clean b) (h : Handle) : ∀ e ∈ (hp.scope h).table, e.2.IsPlace b := by
  unfold Machine.scope
  split
  · rename_i hc; cases hm.cells _ _ hc; assumption
  · simp

theorem isPlace_lookup (hm : m.heap.Clean b) {h sym : Handle} {r : Value} (hr : m.lookup? h sym = some r) :
    r.IsPlace b := by
  have hwithin (n : Nat) : ∀ h r, m.lookupWithin sym n h = some r → r.IsPlace b := by
    induction n with
    | zero => intro h r hr; cases hr
    | succ n ih =>
      intro h r hr
      unfold Machine.lookupWithin at hr
      simp only at hr
      split at hr
      · rename_i hown
        cases hr
        exact isPlace_own (isPlace_scope hm h) hown
      · split at hr
        · exact ih _ _ hr
        · cases hr
  exact hwithin _ _ _ hr

theorem still_onScope (h : Handle) {f : Scope → Scope}
    (hf : ∀ s, (∀ e ∈ s.table, e.2.IsPlace b) → ∀ e ∈ (f s).table, e.2.IsPlace b) :
    Still b C (onScope h f) fun _ => True :=
  .modify fun m hm => by
    split
    · rename_i s hc
      cases hm.cells _ _ hc
      exact ⟨hm.write (fun x hx => by cases hx.symm.trans hc) (.scope (hf s ‹_›)), rfl, rfl, rfl⟩
    · exact .refl hm

theorem still_currentScope : Still b C (currentScope th) fun _ => True := by
  unfold currentScope
  refine .read fun m hm => ?_
  split
  · exact .pure trivial
  · exact .fault (by simp)

theorem still_globalScope : Still b C (globalScope th) fun _ => True := by
  unfold globalScope
  refine .read fun m hm => ?_
  split
  · exact .pure trivial
  · exact .fault (by simp)

theorem runs_newScope (name parent : Option Handle) : Runs th b k C (newScope th name parent) fun _ => True :=
  (still_allocate (.scope (by simp)) false).runs.bind fun _ _ => (runs_pin rfl).bind fun _ _ => .pure trivial

theorem runs_newTransient (parent : Outer) (syms : List Handle) {refs : List Value} (hrefs : ∀ r ∈ refs, r.IsPlace b) :
    Runs th b k C (newTransient th parent syms refs) fun _ => True := by
  have htable (ps : List (Handle × Value)) : ∀ s : Scope, (∀ e ∈ s.table, e.2.IsPlace b) →
      (∀ p ∈ ps, p.2.IsPlace b) →
      ∀ e ∈ (ps.foldl (fun s p => Scope.insert s p.1 p.2) s).table, e.2.IsPlace b := by
    induction ps with
    | nil => exact fun s hs _ => hs
    | cons p ps ih =>
      intro s hs hps
      rw [List.forall_mem_cons] at hps
      exact ih _ (isPlace_insert hs p.1 hps.1) hps.2
  have hmake (table : List (Handle × Value)) (ht : ∀ e ∈ table, e.2.IsPlace b) : Runs th b k C (do
      let h ← allocate (.scope { parent := parent, table := table, transient := true })
      pin th (.scope h)
      return h : Act Handle) fun _ => True :=
    (still_allocate (.scope ht) false).runs.bind fun _ _ => (runs_pin rfl).bind fun _ _ => .pure trivial
  have hplaces := htable (syms.zip refs) {} (by simp) fun p hp => hrefs p.2 (List.of_mem_zip hp).2
  unfold newTransient
  split
  · exact Runs.bind (P := fun _ => True) (.fault (by simp)) fun _ _ => hmake _ hplaces
  · exact hmake _ hplaces

/-! ## Binding -/

theorem runs_bindIn (scope sym : Handle) {v : Value} (hv : v.IsPlain) (overwrite : Bool) :
    Runs th b k Cause.IsFine (bindIn scope sym v overwrite) (Value.IsPlace b) := by
  unfold bindIn
  refine .read fun m hm => ?_
  split
  · rename_i r hown
    have hr : r.IsPlace b := isPlace_own (isPlace_scope hm.heap scope) hown
    split
    · exact (runs_storeThrough hr hv).bind fun _ _ => .pure hr
    · exact .pure hr
  · refine (still_allocate (.box hv) false).runs.bind fun box _ => .read fun m hm => ?_
    have hinsert : Runs th b k Cause.IsFine (do
        onScope scope (·.insert sym (.ref (.box box)))
        return .ref (.box box) : Act Value) (Value.IsPlace b) :=
      (still_onScope scope fun s hs => isPlace_insert hs sym (.box box)).runs.bind fun _ _ => .pure (.box box)
    split
    · exact Runs.bind (P := fun _ => True) (.raise (by rintro _ ⟨⟩) (by simp)) fun _ _ => hinsert
    · exact hinsert

theorem runs_bind (scope sym : Handle) {v : Value} (hv : v.IsPlain) :
    Runs th b k Cause.IsFine (Act.bind scope sym v) fun _ => True :=
  (runs_bindIn scope sym hv true).bind fun _ _ => .pure trivial

theorem runs_bindingIn (scope sym : Handle) : Runs th b k Cause.IsFine (bindingIn scope sym) (Value.IsPlace b) :=
  runs_bindIn scope sym ⟨rfl, rfl⟩ false

theorem runs_bindingFrom (scope sym : Handle) : Runs th b k Cause.IsFine (bindingFrom scope sym) (Value.IsPlace b) := by
  unfold bindingFrom
  refine .read fun m hm => ?_
  split
  · rename_i hr
    exact .pure (isPlace_lookup hm.heap hr)
  · exact runs_bindingIn scope sym

theorem runs_lookup (sym : Handle) : Runs th b k Cause.IsObject (lookup th sym) (Value.IsPlace b) := by
  unfold lookup
  refine still_currentScope.runs.bind fun h _ => .read fun m hm => ?_
  split
  · rename_i hr
    exact .pure (isPlace_lookup hm.heap hr)
  · exact runs_raiseError .unboundSymbol ⟨rfl, rfl⟩ ⟨rfl, rfl⟩

/-! ## Promotion -/

theorem runs_promoteBindings (scope : Handle) (bindings : List (Handle × Value)) :
    Runs th b k C (promoteBindings scope bindings) fun _ => True := by
  induction bindings with
  | nil => exact .pure trivial
  | cons e rest ih =>
    obtain ⟨sym, r⟩ := e
    unfold promoteBindings
    split
    · exact .read fun m hm => (still_allocate (.box (hm.load _)) false).runs.bind fun box _ =>
        (still_onScope scope fun s hs => isPlace_insert hs sym (.box box)).runs.bind fun _ _ => ih
    · exact ih
    · exact Runs.bind (P := fun _ => True) (.fault (by simp)) fun _ _ => ih

theorem runs_promote (h : Handle) : Runs th b k C (promote h) fun _ => True := by
  have hwithin (n : Nat) : ∀ h, Runs th b k C (promoteWithin n h) fun _ => True := by
    induction n with
    | zero => exact fun _ => .fault (by simp)
    | succ n ih =>
      intro h
      have hself : Runs th b k C (do
          let s := (← get).scope h
          if s.transient then
            promoteBindings h s.table
            onScope h ({ · with transient := false }) : Act Unit) fun _ => True := by
        refine .read fun m hm => ?_
        simp only
        split
        · exact (runs_promoteBindings h _).bind fun _ _ => Still.runs (still_onScope h (by exact fun s hs => hs))
        · exact .pure trivial
      unfold promoteWithin
      refine .read fun m hm => ?_
      split
      · exact (ih _).bind fun _ _ => hself
      · exact hself
  exact .read fun m _ => hwithin _ h

theorem runs_scopeForFunction : Runs th b k C (scopeForFunction th) fun _ => True :=
  still_currentScope.runs.bind fun h _ => (runs_promote h).bind fun _ _ => .pure trivial

/-! ## Temporary bindings -/

theorem ends_enterBindings (hm : m.Sane th b b) (syms : List Handle) {vals : List Value} (hvals : ∀ v ∈ vals, v.IsPlain) :
    (enterBindings th syms vals).Ends m
      (fun h m' => Machine.Within th b b h ((m.thread th).scopes.push h) m m' ∧ Machine.Quietly th m m' ∧
        (m'.thread th).height = (m.thread th).height + vals.length)
      (Machine.Failed th b b Cause.IsObject m) := by
  unfold enterBindings
  refine Ends.bind (P := fun base m' => base = (m.thread th).stack.size ∧ m' = m) ⟨rfl, rfl⟩ ?_
  rintro base m' ⟨rfl, rfl⟩
  refine Ends.bind ((piles_pushAll (L := fun _ => True) hvals (by simp) (by simp)).attempt m' hm) fun r m₁ hr => ?_
  cases r with
  | error c =>
    obtain ⟨hon, hq, hc, ho⟩ := hr
    have hm₁ := hon.sane hq hm
    have hsize := hm.size
    have hsize₁ := hm₁.size
    have hheight := hon.height
    refine Ends.bind (P := fun base m₂ => base = (m₁.thread th).stack.size ∧ m₂ = m₁) ⟨rfl, rfl⟩ ?_
    rintro base m₂ ⟨rfl, rfl⟩
    refine Ends.andThen (ends_raiseAsError (Q := fun _ _ => False) hm₁ hc ho) (fun _ _ h => h.elim) fun e m₃ hf => ?_
    -- as many slots are dropped as were pushed, however far the pushing has come
    have hdrop := ends_dropSlots hm (hon.trans hf.onward) (n := (m₂.thread th).stack.size - (m'.thread th).stack.size)
      (by have := hf.onward.height; omega)
    refine hdrop.mono (fun _ m₄ hon₄ =>
      ⟨⟨hf.toIsKnown, hon₄.1, fun c hc => ?_, fun o ho => (hf.secure o ho).beside hon₄.2.2⟩, fun c hc => ?_⟩) fun _ _ h => h
    · exact (hq.trans (hf.quietly c hc)).trans (.of_eq hon₄.2.2.pins)
    · have := hon₄.2.1
      have := hf.level c hc
      omega
  | ok refs =>
    obtain ⟨hpiled, hrefs⟩ := hr
    have hgrown := hpiled.toGrown
    have hm₁ := hgrown.sane hm
    have htaller := hgrown.taller
    refine Ends.onFailure (F := Machine.Failed th b b Cause.IsObject m₁) ?_ fun e m₂ hf => ?_
    · refine Ends.bind (still_currentScope.runs m₁ hm₁) fun h m₂ ⟨h₂, _⟩ => ?_
      have hm₂ := h₂.sane hm₁
      refine Ends.bind ((runs_newTransient _ _ hrefs m₂ hm₂).mono (fun _ _ h => h) fun e m₃ hf => hf.after h₂)
        fun scope m₃ ⟨h₃, _⟩ => ?_
      have hgrown₃ := hgrown.trans (h₂.trans h₃)
      refine Ends.bind (ends_enterScope (h₃.sane hm₂) scope) fun _ m₄ ⟨hw, hheight, hbeside⟩ => ?_
      rw [hgrown₃.scopes] at hw
      exact ⟨.after hgrown₃.toOnward hw, hgrown₃.quietly.trans (.of_eq hbeside.pins), hheight.trans hgrown₃.taller⟩
    · have := hf.onward.height
      refine (ends_dropSlots hm (hgrown.toOnward.trans hf.onward) (n := vals.length) (by omega)).mono
        (fun _ m₃ hon => ⟨⟨hf.toIsKnown, hon.1, fun c hc => ?_, fun o ho => (hf.secure o ho).beside hon.2.2⟩,
          fun c hc => ?_⟩) fun _ _ h => h
      · exact (hgrown.quietly.trans (hf.quietly c hc)).trans (.of_eq hon.2.2.pins)
      · have := hon.2.1
        have := hf.level c hc
        omega

theorem ends_leaveBindings (hm : m.Sane th b k) (hw : Machine.Within th b k h ((m.thread th).scopes.push h) m m')
    (hheight : (m.thread th).height + n ≤ (m'.thread th).height) :
    (leaveBindings th h n).Ends m' (fun _ m'' => Machine.Onward th b k m m'' ∧
      (m''.thread th).height + n = (m'.thread th).height ∧ Machine.Beside th m' m'') fun _ _ => False := by
  unfold leaveBindings
  refine Ends.andThen (ends_leaveScope hm hw) (fun _ m₁ ⟨hon, heq, hbeside⟩ => ?_) fun _ _ h => h.elim
  rw [← heq] at hheight ⊢
  exact (ends_dropSlots hm hon hheight).mono (fun _ _ h => ⟨h.1, h.2.1, hbeside.trans h.2.2⟩) fun _ _ h => h

/-- an action with temporary bindings -/
theorem runs_withBindings {x : Act α} {Q : α → Prop} (hx : Runs th b b Cause.IsObject x Q) (syms : List Handle)
    {vals : List Value} (hvals : ∀ v ∈ vals, v.IsPlain) :
    Runs th b b Cause.IsObject (withBindings th syms vals x) Q := fun m hm => by
  unfold withBindings
  refine Ends.bind (ends_enterBindings hm syms hvals) fun h m₁ ⟨hw, hq, hheight⟩ => ?_
  refine Ends.andThen (hx m₁ (hw.sane hq hm (by simp))) (fun a m₂ hr => ?_) fun e m₂ hf => ?_
  · have hlevel := hr.1.level
    refine (ends_leaveBindings hm (hw.trans hr.1.toOnward) (by omega)).mono (fun _ m₃ hon => ?_) fun _ _ h => h
    have := hon.2.1
    exact ⟨⟨hon.1, (hq.trans hr.1.quietly).trans (.of_eq hon.2.2.pins), by omega⟩, hr.2⟩
  · have hgrown := hf.onward.height
    refine (ends_leaveBindings hm (hw.trans hf.onward) (by omega)).mono (fun _ m₃ hon => ?_) fun _ _ h => h
    refine ⟨⟨hf.toIsKnown, hon.1, fun c hc => (hq.trans (hf.quietly c hc)).trans (.of_eq hon.2.2.pins),
      fun o ho => (hf.secure o ho).beside hon.2.2⟩, fun c hc => ?_⟩
    have := hon.2.1
    have := hf.level c hc
    omega

end Act

end LispMachine
