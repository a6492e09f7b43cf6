/-
Definitions that fail.

The definition of a function and the name of a new scope are bound last. Either the binding is there, and the look-ups that find it
read the new value, or the definition has failed, in whatever way, and every look-up reads what it read before
(`Act.defun_whole`, `Act.publish_whole`): what has been promoted on the way reads the same, and all else that has been done is to
build. The definition of a variable binds before its form is evaluated. When the form fails, the variable is left bound and unset,
unless it has had a value before (`Act.defvar_binds_first`).
-/
import LispMachine.Proofs.Arguments
import LispMachine.Proofs.Promoting

namespace LispMachine

namespace Machine

variable {m m' m'' : Machine} {hs : List Handle} {g h t sym : Handle} {th : ThreadId} {v : Value} {p : Place}

/-! ## What is built -/

/-- a machine on which nothing but objects has been added, no scopes among them -/
structure Built (m m' : Machine) : Prop where
  booked : ∃ issued, m'.heap.Booked issued
  kept : ∀ t x, m.heap.slot? t = some x → m'.heap.slot? t = some x
  scopes : ∀ t s, m'.cell? t = some (.scope s) → m.cell? t = some (.scope s)
  slots : ∀ id i, m'.load (.stack id i) = m.load (.stack id i)
  within : ∀ th, (m'.thread th).scopes = (m.thread th).scopes

/-- what building does to a machine with its books in order -/
def OnlyBuilds (m m' : Machine) : Prop := (∃ issued, m.heap.Booked issued) → m.Built m'

theorem Built.refl (hm : ∃ issued, m.heap.Booked issued) : m.Built m :=
  ⟨hm, fun _ _ h => h, fun _ _ h => h, fun _ _ => rfl, fun _ => rfl⟩

theorem Built.trans (h : m.Built m') (h' : m'.Built m'') : m.Built m'' where
  booked := h'.booked
  kept t x hx := h'.kept t x (h.kept t x hx)
  scopes t s hs := h.scopes t s (h'.scopes t s hs)
  slots id i := (h'.slots id i).trans (h.slots id i)
  within th := (h'.within th).trans (h.within th)

/-- a new object that is no scope -/
theorem built_insert {issued : List Handle} (hm : m.heap.Booked issued) {c : Cell} (hc : ∀ s, c ≠ .scope s) {epoch : Nat}
    {text : Bool} (hroom : m.heap.isFull = false) {symbols : List (String × Handle)} :
    m.Built { m with heap := m.heap.insert c epoch text, symbols := symbols } where
  booked := ⟨_, hm.insert hroom ..⟩
  kept t x hx := by
    rw [hm.slot?_insert, if_neg, hx]
    rintro rfl
    cases hm.slot?_nextHandle.symm.trans hx
  scopes t s hs := by
    unfold cell? Heap.cell? at *
    rw [hm.slot?_insert] at hs
    split at hs
    · exact absurd (Option.some.inj hs) (hc s)
    · exact hs
  slots _ _ := rfl
  within _ := rfl

/-- pins are neither slots nor scopes -/
theorem thread_pinned (th u : ThreadId) (f : Array Value → Array Value) :
    ((m.onThread th fun t => { t with pins := f t.pins }).thread u).stack = (m.thread u).stack ∧
      ((m.onThread th fun t => { t with pins := f t.pins }).thread u).scopes = (m.thread u).scopes := by
  unfold thread onThread
  rw [Array.getElem?_modify]
  split
  · cases m.threads[u]? <;> exact ⟨rfl, rfl⟩
  · exact ⟨rfl, rfl⟩

instance : AllowsBuilding OnlyBuilds where
  refl _ hm := .refl hm
  trans h h' hm := (h hm).trans (h' (h hm).booked)
  noted _ _ hm := ⟨hm, fun _ _ h => h, fun _ _ h => h, fun _ _ => rfl, fun _ => rfl⟩
  pinned m th f hm := by
    refine ⟨hm, fun _ _ h => h, fun _ _ h => h, fun id i => ?_, fun u => (thread_pinned th u f).2⟩
    have hstack : (m.onThread th fun t => { t with pins := f t.pins }).stack? id = m.stack? id := by
      unfold stack?
      simp only [(thread_pinned th _ f).1]
      rfl
    simp only [load, hstack]
  allocate m c text _ hscope hroom := fun ⟨_, hm⟩ => built_insert hm (fun s hs => hscope (by rw [hs]; rfl)) hroom
  intern m name _ hroom := fun ⟨_, hm⟩ => built_insert hm (by simp) hroom

/-! ## Look-ups on what is built -/

section

variable (hb : m.Built m')
include hb

theorem Built.scope_eq (t : Handle) : m'.scope t = m.scope t := by
  by_cases hs : ∃ s, m.cell? t = some (.scope s)
  · obtain ⟨s, hs⟩ := hs
    obtain ⟨x, hx, hcell⟩ := Heap.cell?_eq_some.1 hs
    exact scope_congr ((Heap.cell?_eq_some.2 ⟨x, hb.kept t x hx, hcell⟩).trans hs.symm)
  · rw [scope_of_not_cell fun s h => hs ⟨s, h⟩, scope_of_not_cell fun s h => hs ⟨s, hb.scopes t s h⟩]

theorem Built.cell_kept {c : Cell} (hc : m.cell? t = some c) : m'.cell? t = some c := by
  obtain ⟨x, hx, hcell⟩ := Heap.cell?_eq_some.1 hc
  exact Heap.cell?_eq_some.2 ⟨x, hb.kept t x hx, hcell⟩

/-- a place that has not been released holds what it held -/
theorem Built.load_kept (hthere : m.dangles p = false) : m'.load p = m.load p := by
  cases p with
  | stack id i => exact hb.slots id i
  | _ b =>
    obtain ⟨x, hx⟩ : ∃ x, m.heap.slot? b = some x := Option.isSome_iff_exists.1 (by simpa [dangles] using hthere)
    simp [load, cell?, Heap.cell?, hx, hb.kept b x hx]

theorem Built.lookup?_eq (hm : ∃ issued, m.heap.Booked issued) : m'.lookup? t sym = m.lookup? t sym :=
  lookup?_congr hm hb.booked (fun t => by rw [hb.scope_eq]) (fun t => by rw [hb.scope_eq]) t

theorem Built.looksAlike (hm : m.Promotable hs) : m.LooksAlike m' := by
  intro t sym
  unfold seen
  rw [hb.lookup?_eq hm.booked]
  cases hfound : m.lookup? t sym with
  | none => rfl
  | some r =>
    obtain ⟨_, hbooked⟩ := hm.booked
    obtain ⟨g, n, -, hown⟩ := (lookup?_eq_some hbooked).1 hfound
    obtain ⟨before, after, htable, -⟩ := List.lookup_eq_some_iff.1 hown
    have hmem : (sym, r) ∈ (m.scope g).table := by simp [htable]
    cases r with
    | ref p => exact congrArg some (hb.load_kept (hm.there g _ hmem p rfl))
    | _ => rfl

theorem Built.promotable (hm : m.Promotable hs) : m'.Promotable hs where
  booked := hb.booked
  scopes t ht := ⟨_, hb.cell_kept (hm.scope_cell ht)⟩
  keys t ht := hb.scope_eq t ▸ hm.keys t ht
  backed t ht e he := by
    rw [hb.scope_eq] at he ⊢
    refine (hm.backed t ht e he).imp_left ?_
    rintro ⟨b, v, hb', hcell⟩
    exact ⟨b, v, hb', hb.cell_kept hcell⟩
  there t e he p hp := by
    rw [hb.scope_eq] at he
    have hthere := hm.there t e he p hp
    cases p with
    | stack id i => rfl
    | _ b =>
      obtain ⟨x, hx⟩ : ∃ x, m.heap.slot? b = some x := Option.isSome_iff_exists.1 (by simpa [dangles] using hthere)
      simp [dangles, hb.kept b x hx]

theorem Built.chain {ts : List Handle} (hc : m.Chain h ts) : m'.Chain h ts := by
  induction hc with
  | outermost hcell hnone => exact .outermost (hb.cell_kept hcell) hnone
  | inside hcell hp _ ih => exact .inside (hb.cell_kept hcell) hp ih

end

/-! ## What is defined -/

/-- a machine after a definition: look-ups that come to the scope of the definition find a place with the value, and those that
find another place read what they read before -/
def Defines (m : Machine) (g sym : Handle) (v : Value) (m' : Machine) : Prop :=
  ∃ p, m'.load p = v ∧ (∀ t n, m'.Resolves sym g n t → m'.lookup? t sym = some (.ref p)) ∧
    ∀ t k, m'.lookup? t k ≠ some (.ref p) → m'.seen t k = m.seen t k

/-- a look-up that does not find the new binding reads what it read -/
theorem Binds.seen_eq (h : m.Binds g sym v p m') (hm : ∃ issued, m.heap.Booked issued) {k : Handle}
    (hother : m'.lookup? t k ≠ some (.ref p)) : m'.seen t k = m.seen t k := by
  have hfound : m'.lookup? t k = m.lookup? t k := by
    by_cases hk : k = sym
    · subst hk
      exact h.lookup?_eq hm fun n hres => hother (h.lookup?_found hres)
    · refine lookup?_congr hm h.booked (fun u => ?_) (fun u => ?_) t
      · by_cases hu : u = g
        · rw [hu, h.rest k hk]
        · rw [h.others u hu]
      · by_cases hu : u = g
        · rw [hu, h.parent]
        · rw [h.others u hu]
  unfold seen
  rw [hfound] at hother ⊢
  cases hr : m.lookup? t k with
  | none => rfl
  | some r =>
    cases r with
    | ref q => exact congrArg some (h.places q fun hq => hother (by rw [hr, hq]))
    | _ => rfl

theorem Binds.defines (h : m.Binds g sym v p m') (hm : ∃ issued, m.heap.Booked issued) : m.Defines g sym v m' :=
  ⟨p, h.value, fun _ _ hres => h.lookup?_found hres, fun _ _ hother => h.seen_eq hm hother⟩

theorem LooksAlike.trans (h : m.LooksAlike m') (h' : m'.LooksAlike m'') : m.LooksAlike m'' := fun t k => (h' t k).trans (h t k)

theorem LooksAlike.defines (h : m.LooksAlike m') (hd : m'.Defines g sym v m'') : m.Defines g sym v m'' := by
  obtain ⟨p, hvalue, hfound, hothers⟩ := hd
  exact ⟨p, hvalue, hfound, fun t k hother => (hothers t k hother).trans (h t k)⟩

/-! ## Before a definition -/

/-- what a thread has come to before it binds: whatever it has promoted or built, look-ups read what they read -/
structure Prepared (th : ThreadId) (h : Handle) (hs : List Handle) (g : Handle) (m m' : Machine) : Prop where
  promotable : m'.Promotable hs
  current : (m'.thread th).scopes.back? = some h
  chain : m'.Chain h hs
  first : (m'.thread th).scopes[0]? = some g
  boxed : ∃ s, m'.cell? g = some (.scope s) ∧ ∀ e ∈ s.table, ∃ b, e.2 = .ref (.box b)
  same : m.LooksAlike m'

variable {m₁ : Machine}

theorem Prepared.built (hp : Prepared th h hs g m m₁) (hb : m₁.Built m') : Prepared th h hs g m m' where
  promotable := hb.promotable hp.promotable
  current := hb.within th ▸ hp.current
  chain := hb.chain hp.chain
  first := hb.within th ▸ hp.first
  boxed := by
    obtain ⟨s, hg, hs⟩ := hp.boxed
    exact ⟨s, hb.cell_kept hg, hs⟩
  same := hp.same.trans (hb.looksAlike hp.promotable)

theorem Prepared.promoting (hp : Prepared th h hs g m m₁) (hway : Promoting hs m₁ m') : Prepared th h hs g m m' where
  promotable := hway.promotable
  current := by
    rw [hway.rest]
    exact hp.current
  chain := hway.chain hp.chain (List.Subset.refl hs)
  first := by
    rw [hway.rest]
    exact hp.first
  boxed := by
    obtain ⟨s, hg, hs'⟩ := hp.boxed
    obtain ⟨x, hx, hcell⟩ := Heap.cell?_eq_some.1 hg
    have hr := hway.rebinds g
    rw [scope_of_cell hg] at hr
    refine ⟨m'.scope g, ?_, (hr.table_eq hs') ▸ hs'⟩
    by_cases hin : g ∈ hs
    · exact hway.promotable.scope_cell hin
    · have hkept := Heap.cell?_of_slot? (hway.others g hin x hx)
      rw [hcell] at hkept
      exact hkept.trans (congrArg some (congrArg Cell.scope (scope_of_cell hkept).symm))
  same := hp.same.trans (hway.looksAlike hp.promotable)

end Machine

namespace Act

open Machine

variable {α β : Type} {m m₁ : Machine} {th : ThreadId} {h g : Handle} {hs : List Handle}

theorem ends_obeys {R : Machine → Machine → Prop} (x : Act α) [Obeys R x] : x.Ends m (fun _ => R m) fun _ => R m := by
  have h : R m (Outcome.machine (x.run m)) := Obeys.leads m
  unfold Ends
  cases hrun : x.run m <;> rw [hrun] at h <;> exact h

section

variable (hp : Prepared th h hs g m m₁)
include hp

/-- what only builds prepares -/
theorem prepares_obeys (x : Act α) [Obeys OnlyBuilds x] :
    x.Ends m₁ (fun _ => Prepared th h hs g m) fun _ => Prepared th h hs g m :=
  (ends_obeys (R := OnlyBuilds) x).mono (fun _ _ h => hp.built (h hp.promotable.booked)) fun _ _ h => hp.built (h hp.promotable.booked)

theorem prepares_promote : (promote h).Ends m₁ (fun _ => Prepared th h hs g m) fun _ => Prepared th h hs g m :=
  (ends_promote hp.promotable hp.chain).mono (fun _ _ h => hp.promoting h.toPromoting) fun _ _ h => hp.promoting h.promoting

theorem prepares_scopeForFunction :
    (scopeForFunction th).Ends m₁ (fun t m' => t = h ∧ Prepared th h hs g m m') fun _ => Prepared th h hs g m := by
  have hrun : (currentScope th).run m₁ = .ok h m₁ := by simp [currentScope, run_bind, hp.current]
  unfold scopeForFunction Ends
  rw [bind_ok hrun]
  exact (prepares_promote hp).bind fun _ _ hp' => ⟨rfl, hp'⟩

/-- a function is made when the scope that it captures has been promoted -/
theorem prepares_newFunction (name : Option Handle) (params body : Value) :
    (newFunction th name params body (some h)).Ends m₁ (fun _ => Prepared th h hs g m) fun _ => Prepared th h hs g m := by
  unfold newFunction allocatePinned
  refine (prepares_obeys hp _).bind fun p _ hp => (prepares_obeys hp _).bind fun _ _ hp => ?_
  refine (prepares_promote hp).bind fun _ _ hp => ?_
  exact (prepares_obeys hp (allocate _)).bind fun _ _ hp => prepares_obeys hp _

end

/-- the object of an ordinary error is built -/
theorem building_withErrorObjects {x : Act α} {Q : α → Machine → Prop} {E : Machine → Prop}
    (hE : ∀ m₁ m₂ : Machine, E m₁ → m₁.OnlyBuilds m₂ → E m₂) (hx : x.Ends m Q fun _ => E) :
    (withErrorObjects th x).Ends m Q fun _ => E :=
  hx.attempting (fun _ _ h => h)
    (fun c m₁ he => ((ends_obeys (R := OnlyBuilds) (asError th c)).mono (fun _ m₂ h => hE m₁ m₂ he h) fun _ m₂ h => hE m₁ m₂ he h).bind
      fun _ _ h => h)
    fun _ _ _ h => h

theorem prepares_withErrorObjects {x : Act α} {Q : α → Machine → Prop} (hx : x.Ends m₁ Q fun _ => Prepared th h hs g m) :
    (withErrorObjects th x).Ends m₁ Q fun _ => Prepared th h hs g m :=
  building_withErrorObjects (fun _ _ (hp : Prepared th h hs g m _) hb => hp.built (hb hp.promotable.booked)) hx

theorem ends_symbolArg (v : Value) : (symbolArg th v).Ends m (fun sym _ => v = .symbol sym) fun _ _ => True := by
  unfold symbolArg raiseType
  refine (ends_asSymbol v).bind fun r _ ⟨_, hr⟩ => ?_
  cases r with
  | some sym => exact (hr sym rfl).1
  | none => exact Ends.trivial.bind fun _ _ _ => trivial

theorem prepares_symbolArg (hp : Prepared th h hs g m m₁) (v : Value) :
    (symbolArg th v).Ends m₁ (fun sym m' => v = .symbol sym ∧ Prepared th h hs g m m') fun _ => Prepared th h hs g m :=
  ((ends_symbolArg v).and (prepares_obeys hp _)).mono (fun _ _ h => h) fun _ _ h => h.2

/-! ## All or nothing -/

theorem run_globalScope (hp : Prepared th h hs g m m₁) : (globalScope th).run m₁ = .ok g m₁ := by
  simp [globalScope, run_bind, hp.first]

theorem boxed_own (hp : Prepared th h hs g m m₁) {sym : Handle} {r : Value} (hr : (m₁.scope g).own? sym = some r) :
    ∃ b, r = .ref (.box b) ∧ m₁.dangles (.box b) = false := by
  obtain ⟨s, hg, hs'⟩ := hp.boxed
  obtain ⟨before, after, htable, -⟩ := List.lookup_eq_some_iff.1 hr
  have hmem : (sym, r) ∈ (m₁.scope g).table := by simp [htable]
  obtain ⟨b, hb⟩ := hs' (sym, r) (scope_of_cell hg ▸ hmem)
  exact ⟨b, hb, hp.promotable.there g _ hmem _ hb⟩

theorem boxed_global (hp : Prepared th h hs g m m₁) : m₁.cell? g = some (.scope (m₁.scope g)) := by
  obtain ⟨s, hg, -⟩ := hp.boxed
  rw [hg, scope_of_cell hg]

/-- the global scope has the binding, or nothing but to build has been done -/
theorem prepares_bind (hp : Prepared th h hs g m m₁) (sym : Handle) (v : Value) :
    (bind g sym v).Ends m₁ (fun _ m' => m.Defines g sym v m') fun _ => Prepared th h hs g m := by
  obtain ⟨_, hbooked⟩ := hp.promotable.booked
  have hbox (r : Value) (hr : (m₁.scope g).own? sym = some r) := (boxed_own hp hr).imp fun _ => And.left
  refine (ends_bind (R := OnlyBuilds) hbooked (boxed_global hp) hbox v).mono ?_ fun _ _ hb => hp.built (hb ⟨_, hbooked⟩)
  rintro _ m' ⟨p, hbinds⟩
  exact hp.same.defines (hbinds.defines ⟨_, hbooked⟩)

/-- **A function is defined as a whole or not at all.** Either its name is bound to it in the global scope, or the definition has
failed, over the name, the parameters, the body or a full heap, and every look-up reads what it read before. -/
theorem defun_whole (hp : Prepared th h hs g m m) (args : List Value) : (defun th args).Ends m
    (fun f m' => ∃ sym, arg args 0 = .symbol sym ∧ m.Defines g sym f m') fun _ m' => m.LooksAlike m' := by
  unfold defun
  refine Ends.mono (E := fun _ => Prepared th h hs g m) ?_ (fun _ _ h => h) fun _ _ hp => hp.same
  refine (prepares_symbolArg hp _).bind fun name _ ⟨hname, hp⟩ => (prepares_scopeForFunction hp).bind ?_
  rintro _ _ ⟨rfl, hp⟩
  refine prepares_withErrorObjects ((prepares_newFunction hp ..).bind fun f _ hp => .next (run_globalScope hp) ?_)
  exact (prepares_bind hp name f).bind fun _ _ hd => ⟨name, hname, hd⟩

/-- a new scope is known by its name, or nothing is -/
theorem publish_whole (hp : Prepared th h hs g m m) (scope sym : Handle) : (publish th scope (some sym)).Ends m
    (fun _ m' => m.Defines g sym (.scope scope) m') fun _ m' => m.LooksAlike m' := by
  unfold publish
  refine Ends.mono (E := fun _ => Prepared th h hs g m) ?_ (fun _ _ h => h) fun _ _ hp => hp.same
  exact prepares_withErrorObjects (.next (run_globalScope hp) (prepares_bind hp sym _))

/-- the value of the form of a definition is stored in a box, or there is none -/
theorem ends_initial (ev : Evaluator) (form : Value) (b : Handle) :
    (do let v ← optionalValue ev form; withErrorObjects th (storeThrough (.ref (.box b)) v); return .ref (.box b) : Act Value).Ends m
      (fun _ _ => True) fun e m' => (optionalValue ev form).run m = .error e m' ∨
        ∃ v m₁, (optionalValue ev form).run m = .ok v m₁ ∧ m₁.OnlyBuilds m' := by
  refine (Ends.run.mono (fun _ _ h => h) fun _ _ h => .inl h).bind fun v m₁ hrun => ?_
  have hstore := (ends_store (R := OnlyBuilds) (m := m₁) (p := .box b) (by simp) v).mono (fun _ _ _ => trivial) fun _ _ h => h
  have hclosed (m₂ m₃ : Machine) (h : m₁.OnlyBuilds m₂) (h' : m₂.OnlyBuilds m₃) : m₁.OnlyBuilds m₃ := AllowsBuilding.trans h h'
  exact ((building_withErrorObjects hclosed hstore).mono (fun _ _ _ => trivial) fun _ m' hb => .inr ⟨v, m₁, hrun, hb⟩).bind
    fun _ _ _ => trivial

/-- **A variable is bound before its form is evaluated.** The definition of a variable fails in one of two ways. It has come to no
binding, and every look-up reads what it read before; or the variable had no value, it is bound and unset, and what follows is what
evaluating its form, or storing the value, has left. -/
theorem defvar_binds_first (hp : Prepared th h hs g m m) (ev : Evaluator) (args : List Value) : (defvar ev th args).Ends m
    (fun _ _ => True) fun e m' => m.LooksAlike m' ∨
      ∃ sym m₁, arg args 0 = .symbol sym ∧ (∀ r, (m.scope g).own? sym = some r → m.read r = .unset) ∧
        m.Defines g sym .unset m₁ ∧ ((optionalValue ev (arg args 1)).run m₁ = .error e m' ∨
          ∃ v m₂, (optionalValue ev (arg args 1)).run m₁ = .ok v m₂ ∧ m₂.OnlyBuilds m') := by
  have hname : (symbolArg th (arg args 0)).Ends m (fun sym _ => arg args 0 = .symbol sym) fun _ _ => True := ends_symbolArg _
  unfold defvar
  refine ((hname.and (ends_obeys (R := OnlyBuilds) _)).mono (fun _ _ h => h) fun _ m₁ h =>
    .inl ((h.2 hp.promotable.booked).looksAlike hp.promotable)).bind ?_
  rintro sym m₁ ⟨hsym, hb⟩
  have hb := hb hp.promotable.booked
  have hp₁ := hp.built hb
  obtain ⟨_, hbooked⟩ := hp₁.promotable.booked
  have hbox (r : Value) (hr : (m₁.scope g).own? sym = some r) := (boxed_own hp₁ hr).imp fun _ => And.left
  have hbound := ends_bindIn (R := OnlyBuilds) hbooked (boxed_global hp₁) hbox .unset false
  have hclosed (m₂ m₃ : Machine) (h : m₁.OnlyBuilds m₂) (h' : m₂.OnlyBuilds m₃) : m₁.OnlyBuilds m₃ := AllowsBuilding.trans h h'
  have hlooks (m' : Machine) (hb' : m₁.OnlyBuilds m') : m.LooksAlike m' :=
    hp₁.same.trans ((hb' ⟨_, hbooked⟩).looksAlike hp₁.promotable)
  refine .next (run_globalScope hp₁) ?_
  refine ((building_withErrorObjects hclosed hbound).mono (fun _ _ h => h) fun _ m' hb' => .inl (hlooks m' hb')).bind ?_
  rintro _ m₂ ⟨b, rfl, hbinds⟩
  have hthere : m₂.dangles (.box b) = false := by
    rcases hbinds with ⟨hbinds, -⟩ | ⟨-, hown, rfl⟩
    · exact hbinds.there
    · obtain ⟨_, hb', hthere⟩ := boxed_own hp₁ hown
      cases hb'
      exact hthere
  have hlook : (deref (.ref (.box b))).run m₂ = .ok (m₂.load (.box b)) m₂ := by simp [deref, look, run_bind, hthere]
  refine .next hlook ?_
  split
  · trivial
  rename_i hunset
  have hunset : m₂.load (.box b) = .unset := by simpa using hunset
  have hdefines : m.Defines g sym .unset m₂ := by
    rcases hbinds with ⟨hbinds, -⟩ | ⟨-, hown, rfl⟩
    · exact hp₁.same.defines (hbinds.defines ⟨_, hbooked⟩)
    · exact ⟨.box b, hunset, fun t n hres => (lookup?_eq_some hbooked).2 ⟨g, n, hres, hown⟩, fun t k _ => hp₁.same t k⟩
  have hbefore (r : Value) (hr : (m.scope g).own? sym = some r) : m.read r = .unset := by
    obtain ⟨b', rfl, hthere'⟩ := boxed_own hp hr
    rcases hbinds with ⟨-, hnone⟩ | ⟨-, hown, rfl⟩
    · rw [hb.scope_eq, hr] at hnone
      cases hnone rfl
    · rw [hb.scope_eq, hr] at hown
      cases hown
      exact (hb.load_kept hthere').symm.trans hunset
  exact (ends_initial ev (arg args 1) b).mono (fun _ _ _ => trivial) fun e m' h => .inr ⟨sym, m₂, hsym, hbefore, hdefines, h⟩

end Act

end LispMachine
