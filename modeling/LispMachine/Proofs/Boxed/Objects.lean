/-
Making objects on two machines, one of which has its variables in boxes.

Alike objects made on both sides stand for each other from then on. The left machine may find its heap full, which spoils the
comparison; the right one never does. Pins, depths and the journal do not matter here, so a step that changes only these can be
taken on either side.
-/
import LispMachine.Proofs.Boxed.Situation

namespace LispMachine.Boxed

open Simulation (InStep Sim Later Val Code)

variable {th : ThreadId} {σ τ : Situation th} {α β γ δ : Type} {Q : Situation th → α → β → Prop}
  {R : Situation th → Situation th → Prop} {F : Situation th → Failure → Failure → Prop}

/-! ## Situations that follow -/

/-- both actions succeed -/
theorem done (τ : Situation th) (hR : R σ τ) {x : Act α} {y : Act β} {a : α} {b : β} (hx : x.run σ.left = .ok a τ.left)
    (hy : y.run σ.right = .ok b τ.right) (hQ : Q τ a b) : InStep R F σ x y Q := Simulation.done τ hR hx hy hQ

/-- an event that interrupts the left run -/
theorem interrupted {x : Act α} {y : Act β} {e : Event} (he : e.interrupts = true)
    (hin : e ∈ (Outcome.machine (x.run σ.left)).journal) : InStep R F σ x y Q := .inl (.inl ⟨e, hin, he⟩)

/-- what notes an event that interrupts is not compared -/
theorem interrupting {x : Act α} {y : Act β} {e : Event} (he : e.interrupts = true) :
    InStep R F σ (Act.note e >>= fun _ => x) y Q :=
  interrupted he ((Simulation.bind_grows (Act.note e) (fun _ => x) σ.left).subset List.mem_cons_self)

/-- actions that do as others do -/
theorem same_run {x z : Act α} {y w : Act β} (hx : x.run σ.left = z.run σ.left) (hy : y.run σ.right = w.run σ.right)
    (h : InStep R F σ z w Q) : InStep R F σ x y Q := by
  unfold Simulation.InStep at h ⊢
  rw [show x.run (Simulation.left σ) = _ from hx, show y.run (Simulation.right σ) = _ from hy]
  exact h

/-- a sequence on the left whose first part runs alone -/
theorem leftBind {R' : Situation th → Situation th → Prop} {x : Act α} {f : α → Act γ} {y : Act δ}
    {P : Situation th → α → Unit → Prop} {Q' : Situation th → γ → δ → Prop} (h : InStep R F σ x (pure ()) P)
    (hR : ∀ τ, R σ τ → R' σ τ) (hf : ∀ τ a, R σ τ → P τ a () → InStep (fun _ υ => R' σ υ) F τ (f a) y Q') :
    InStep R' F σ (x >>= f) y Q' :=
  InStep.bind (g := fun _ => y) h hR fun τ a _ => hf τ a

/-- a sequence on the left whose first part is known to succeed -/
theorem leftAfter {x : Act α} {f : α → Act γ} {y : Act δ} {Q' : Situation th → γ → δ → Prop} {a : α} (τ : Situation th)
    (hx : x.run σ.left = .ok a τ.left) (hright : τ.right = σ.right)
    (h : InStep (fun _ υ => R σ υ) F τ (f a) y Q') : InStep R F σ (x >>= f) y Q' :=
  InStep.after (τ := τ) (y := pure ()) (g := fun _ => y) hx (congrArg (EStateM.Result.ok ()) hright.symm) h

/-- a sequence on the left whose first part runs alone -/
theorem leftThen {x : Act α} {f : α → Act γ} {y : Act δ} {P : Situation th → α → Unit → Prop}
    {Q' : Situation th → γ → δ → Prop} (h : Sim σ x (pure ()) P)
    (hf : ∀ τ a, Situation.Balanced σ τ → P τ a () → Sim τ (f a) y Q') : Sim σ (x >>= f) y Q' :=
  leftBind h (fun _ => id) fun τ a hτ hP =>
    InStep.mono (hf τ a hτ hP) (fun _ => Situation.Balanced.trans hτ) (fun _ _ _ _ => id) fun _ _ _ _ => id

/-! ## Steps that do not matter -/

/-- the same machine but for pins, depths and the journal -/
inductive Idle (th : ThreadId) (m : Machine) : Machine → Prop where
  | intro {ts : Array Thread} {journal : List Event} (hsize : ts.size = m.threads.size)
      (hthread : ({ m with threads := ts }.thread th).isOpen = (m.thread th).isOpen ∧
        ({ m with threads := ts }.thread th).stack = (m.thread th).stack ∧
        ({ m with threads := ts }.thread th).scopes = (m.thread th).scopes) :
      Idle th m { m with threads := ts, journal := journal }

section

variable {m m' : Machine}

theorem Idle.refl (th : ThreadId) (m : Machine) : Idle th m m := .intro rfl ⟨rfl, rfl, rfl⟩

theorem Idle.note (h : Idle th m m') (e : Event) : Idle th m { m' with journal := e :: m'.journal } := by
  obtain ⟨hsize, hthread⟩ := h
  exact .intro hsize hthread

theorem Idle.onThread (h : Idle th m m') (ho : (m.thread th).isOpen = true) {f : Thread → Thread}
    (hf : ∀ t, (f t).isOpen = t.isOpen ∧ (f t).stack = t.stack ∧ (f t).scopes = t.scopes) : Idle th m (m'.onThread th f) := by
  obtain @⟨ts, journal, hsize, hopen, hstack, hscopes⟩ := h
  refine .intro ((Array.size_modify ..).trans hsize) ?_
  have hthread := Machine.thread_onThread (m := { m with threads := ts, journal := journal }) (hopen.trans ho) f th
  rw [if_pos rfl] at hthread
  change ((Machine.onThread { m with threads := ts, journal := journal } th f).thread th).isOpen = _ ∧
    ((Machine.onThread { m with threads := ts, journal := journal } th f).thread th).stack = _ ∧
    ((Machine.onThread { m with threads := ts, journal := journal } th f).thread th).scopes = _
  rw [hthread]
  obtain ⟨ho', hs, hsc⟩ := hf ({ m with threads := ts, journal := journal }.thread th)
  exact ⟨ho'.trans hopen, hs.trans hstack, hsc.trans hscopes⟩

theorem Idle.heap (h : Idle th m m') : m'.heap = m.heap := by obtain ⟨-, -⟩ := h; rfl

theorem Idle.stays (h : Idle th m m') : Stays th m m' := by
  obtain ⟨hsize, -, hstack, hscopes⟩ := h
  exact ⟨congrArg Stack.id hstack, hscopes, fun _ => rfl, hsize, rfl, rfl, rfl, rfl⟩

theorem Idle.stack (h : Idle th m m') : (m'.thread th).stack = (m.thread th).stack := by
  obtain ⟨-, -, hstack, -⟩ := h
  exact hstack

theorem Idle.isOpen (h : Idle th m m') : (m'.thread th).isOpen = (m.thread th).isOpen := by
  obtain ⟨-, hopen, -⟩ := h
  exact hopen

theorem Idle.trans {m'' : Machine} (h : Idle th m m') (h' : Idle th m' m'') : Idle th m m'' := by
  obtain ⟨hsize, hopen, hstack, hscopes⟩ := h
  obtain ⟨hsize', hopen', hstack', hscopes'⟩ := h'
  exact .intro (hsize'.trans hsize) ⟨hopen'.trans hopen, hstack'.trans hstack, hscopes'.trans hscopes⟩

theorem Idle.depth (h : Idle th m m') (ho : (m.thread th).isOpen = true) (d : Nat) :
    Idle th m (m'.onThread th fun t => { t with depth := d }) := h.onThread ho fun _ => ⟨rfl, rfl, rfl⟩

theorem Agree.idle {ρ : Pairing} {l r l' r' : Machine} (h : Agree th ρ l r) (hl : Idle th l l') (hr : Idle th r r') :
    Agree th ρ l' r' := by
  obtain ⟨-, hopen, hstack, hscopes⟩ := hl
  obtain ⟨-, hopen', -, hscopes'⟩ := hr
  exact
    { h with
      store := hstack ▸ h.store
      isOpen := hopen.trans h.isOpen
      isOpen' := hopen'.trans h.isOpen'
      whole := (congrArg Stack.beyond hstack).trans h.whole
      owner := hstack ▸ h.owner
      scopes := hscopes ▸ hscopes' ▸ h.scopes
      outermost := hscopes ▸ hscopes' ▸ h.outermost }

end

namespace Situation

/-- the situation after steps that do not matter -/
def idle (σ : Situation th) {l r : Machine} (hl : Idle th σ.left l) (hr : Idle th σ.right r) : Situation th :=
  ⟨l, r, σ.pairing, σ.agree.idle hl hr⟩

theorem balanced_idle (σ : Situation th) {l r : Machine} (hl : Idle th σ.left l) (hr : Idle th σ.right r) :
    Balanced σ (σ.idle hl hr) where
  extends_ := .refl _
  frame := id
  slot := id
  lasts := hl.heap ▸ .refl _
  lasts' := hr.heap ▸ .refl _
  stays := hl.stays
  stays' := hr.stays
  height := Nat.le_of_eq (congrArg (·.items.size) hl.stack.symm)
  item? i _ _ := congrArg (·.items[i]?) hl.stack
  level := congrArg (·.items.size) hl.stack

end Situation

theorem later_idle (σ : Situation th) {l r : Machine} (hl : Idle th σ.left l) (hr : Idle th σ.right r) :
    Later σ (σ.idle hl hr) := .of_balanced (σ.balanced_idle hl hr)

/-- actions that do nothing that matters and then go on as others do -/
theorem resume {x z : Act α} {y w : Act β} {l r : Machine} (hl : Idle th σ.left l) (hr : Idle th σ.right r)
    (hx : x.run σ.left = z.run l) (hy : y.run σ.right = w.run r) (h : Sim (σ.idle hl hr) z w Q) : Sim σ x y Q := by
  have hrun : InStep (fun _ υ => Situation.Balanced σ υ) Simulation.Failure.Like (σ.idle hl hr) z w Q :=
    InStep.mono h (fun _ => (σ.balanced_idle hl hr).trans) (fun _ _ _ _ => id) fun _ _ _ _ => id
  unfold Simulation.Sim Simulation.InStep
  change Simulation.Spoilt _ (Outcome.machine (x.run σ.left)) (Outcome.machine (y.run σ.right)) ∨
    ∃ τ, Situation.Balanced σ τ ∧ Simulation.Ends _ τ Q (x.run σ.left) (y.run σ.right)
  rw [hx, hy]
  exact hrun

theorem run_pin {m : Machine} (ho : (m.thread th).isOpen = true) (v : Value) :
    ∃ m', (Act.pin th v).run m = .ok () m' ∧ Idle th m m' := by
  unfold Act.pin
  split
  · exact ⟨m.onThread th (Thread.pinning v), rfl, (Idle.refl th m).onThread ho fun _ => ⟨rfl, rfl, rfl⟩⟩
  · exact ⟨m, rfl, .refl th m⟩

/-- pins do not matter -/
theorem pin_sim (σ : Situation th) (v v' : Value) : Sim σ (Act.pin th v) (Act.pin th v') fun _ _ _ => True := by
  obtain ⟨l, hx, hl⟩ := run_pin σ.agree.isOpen v
  obtain ⟨r, hy, hr⟩ := run_pin σ.agree.isOpen' v'
  exact done (σ.idle hl hr) (σ.balanced_idle hl hr) hx hy trivial

/-! ## Other heaps -/

/-- two heaps and a pairing that may follow a situation -/
structure Follows (σ : Situation th) (ρ : Pairing) (hp hp' : Heap) : Prop where
  store : ρ.Holds (σ.left.thread th).stack.id (σ.left.thread th).stack.items hp hp'
  extends_ : σ.pairing.Extends ρ
  frame : ∀ {h h'}, ρ.frame h h' → σ.pairing.frame h h'
  slot : ∀ {h sym i b}, ρ.slot h sym i b → σ.pairing.slot h sym i b
  lasts : σ.left.heap.Lasts hp
  lasts' : σ.right.heap.Lasts hp'
  tidy : hp.Tidy σ.left.collector.epoch
  tidy' : hp'.Tidy σ.right.collector.epoch
  unbounded : hp'.limit = none

theorem Agree.reheap {ρ ρ' : Pairing} {l r : Machine} {hp hp' : Heap} (h : Agree th ρ l r) (hext : ρ.Extends ρ')
    (hstore : ρ'.Holds (l.thread th).stack.id (l.thread th).stack.items hp hp') (ht : hp.Tidy l.collector.epoch)
    (ht' : hp'.Tidy r.collector.epoch) (hlimit : hp'.limit = none) :
    Agree th ρ' { l with heap := hp } { r with heap := hp' } :=
  { h with
    store := hstore
    tidy := ht
    tidy' := ht'
    unbounded := hlimit
    symbols := h.symbols.imp fun _ _ he => ⟨he.1, hext.obj he.2⟩
    globalScope := have ⟨g, g', hg, hg', ho⟩ := h.globalScope; ⟨g, g', hg, hg', hext.obj ho⟩
    scopes := h.scopes.imp fun _ _ => hext.opened
    outermost := have ⟨g, g', hg, hg', ho⟩ := h.outermost; ⟨g, g', hg, hg', hext.obj ho⟩ }

namespace Situation

/-- the situation with other heaps -/
def reheap (σ : Situation th) {ρ : Pairing} {hp hp' : Heap} (h : Follows σ ρ hp hp') : Situation th :=
  ⟨{ σ.left with heap := hp }, { σ.right with heap := hp' }, ρ,
    σ.agree.reheap h.extends_ h.store h.tidy h.tidy' h.unbounded⟩

theorem balanced_reheap (σ : Situation th) {ρ : Pairing} {hp hp' : Heap} (h : Follows σ ρ hp hp') :
    Balanced σ (σ.reheap h) where
  extends_ := h.extends_
  frame := h.frame
  slot := h.slot
  lasts := h.lasts
  lasts' := h.lasts'
  stays := ⟨rfl, rfl, fun _ => rfl, rfl, rfl, rfl, rfl, rfl⟩
  stays' := ⟨rfl, rfl, fun _ => rfl, rfl, rfl, rfl, rfl, rfl⟩
  height := Nat.le_refl _
  item? _ _ _ := rfl
  level := rfl

end Situation

/-! ## Objects -/

/-- alike objects that may be made, or put in place of such as stand for each other -/
structure Ready (ρ : Pairing) (c c' : Cell) : Prop where
  like : c.Like ρ.obj c'
  suits : ∀ f p special, c = .function f → f.body = .primitive p special → p.Suits special
  scope : ∀ sc sc', c = .scope sc → c' = .scope sc' → sc.transient = false ∧
    sc.Mirrors ρ.obj (ρ.obj .scope) (fun _ => Value.Through ρ.obj) sc'

theorem Ready.of_like {ρ : Pairing} {c c' : Cell} (hc : c.Like ρ.obj c') (hscope : c.kind ≠ .scope)
    (hfun : c.kind ≠ .function) : Ready ρ c c' where
  like := hc
  suits _ _ _ hf := absurd (hf ▸ rfl) hfun
  scope _ _ hsc := absurd (hsc ▸ rfl) hscope

/-- alike objects made on both sides, under the given handles -/
structure Made (σ τ : Situation th) (c c' : Cell) (text : Bool) (h h' : Handle) : Prop where
  obj : τ.pairing.obj c.kind h h'
  slot : τ.left.heap.slot? h = some ⟨c, σ.left.collector.epoch, σ.left.heap.births, text⟩
  slot' : τ.right.heap.slot? h' = some ⟨c', σ.right.collector.epoch, σ.right.heap.births, text⟩

/-- what is there is older than what is made next -/
theorem older_new {hp : Heap} {epoch : Nat} (ht : hp.Tidy epoch) (c : Cell) (text : Bool) {p : Handle}
    (hp' : (hp.slot? p).isSome) : (hp.insert c epoch text).Older p hp.nextHandle := by
  obtain ⟨s, hs⟩ := Option.isSome_iff_exists.1 hp'
  exact ⟨s, _, ht.grows_insert c text p s hs, ht.slot?_new c text, ht.serial_lt p s hs⟩

theorem limit_insert (hp : Heap) (c : Cell) (epoch : Nat) (text : Bool) : (hp.insert c epoch text).limit = hp.limit := by
  unfold Heap.insert
  split <;> rfl

theorem limit_write (hp : Heap) (h : Handle) (c : Cell) : (hp.write h c).limit = hp.limit := by
  unfold Heap.write
  split <;> rfl

theorem isFull_of_unbounded {hp : Heap} (h : hp.limit = none) : hp.isFull = false := by simp [Heap.isFull, h]

/-- new objects are alike where they are made -/
theorem Ready.alike {ρ : Pairing} {id : Nat} {items : Array Value} {hp hp' : Heap} {epoch epoch' : Nat} {c c' : Cell}
    (h : Ready ρ c c') (H : ρ.Holds id items hp hp') (ht : hp.Tidy epoch) (ht' : hp'.Tidy epoch') (text : Bool) :
    Pairing.Alike (ρ.adding c.kind hp.nextHandle hp'.nextHandle).obj (hp.insert c epoch text) (hp'.insert c' epoch' text)
      hp.nextHandle hp'.nextHandle c c' where
  like := h.like.mono fun _ _ _ => .inl
  suits := h.suits
  scope sc sc' hsc hsc' := by
    obtain ⟨htransient, hmirrors⟩ := h.scope sc sc' hsc hsc'
    refine ⟨htransient, hmirrors.mono (fun _ _ _ => .inl) (fun p p' _ hp => ?_) fun _ _ _ _ hr => hr.mono fun _ _ _ => .inl⟩
    obtain ⟨hin, hin'⟩ := H.some hp
    exact ⟨.inl hp, older_new ht c text hin, older_new ht' c' text hin'⟩

theorem follows_insert {c c' : Cell} (h : Ready σ.pairing c c') (text : Bool) :
    Follows σ (σ.pairing.adding c.kind σ.left.heap.nextHandle σ.right.heap.nextHandle)
      (σ.left.heap.insert c σ.left.collector.epoch text) (σ.right.heap.insert c' σ.right.collector.epoch text) where
  store := σ.agree.store.insert σ.agree.tidy σ.agree.tidy' (h.alike σ.agree.store σ.agree.tidy σ.agree.tidy' text)
  extends_ := σ.pairing.extends_adding _ _ _
  frame := id
  slot := id
  lasts := (σ.agree.tidy.grows_insert c text).lasts
  lasts' := (σ.agree.tidy'.grows_insert c' text).lasts
  tidy := σ.agree.tidy.insert c text
  tidy' := σ.agree.tidy'.insert c' text
  unbounded := (limit_insert ..).trans σ.agree.unbounded

theorem allocate_sim {c c' : Cell} {text : Bool} (h : Ready σ.pairing c c') :
    Sim σ (Act.allocate c text) (Act.allocate c' text) fun τ h h' => Made σ τ c c' text h h' := by
  cases hfull : σ.left.heap.isFull with
  | true =>
    refine interrupted (e := .refused) rfl ?_
    rw [Tandem.run_allocate_full hfull]
    exact List.mem_cons_self
  | false =>
    refine done (σ.reheap (follows_insert h text)) (σ.balanced_reheap _) (Tandem.run_allocate hfull)
      (Tandem.run_allocate (isFull_of_unbounded σ.agree.unbounded)) ⟨.inr ⟨rfl, rfl, rfl⟩, ?_, ?_⟩
    · exact σ.agree.tidy.slot?_new c text
    · exact σ.agree.tidy'.slot?_new c' text

/-! ## Symbols -/

theorem lookup_symbols {ρ : Pairing} {l r : List (String × Handle)}
    (h : List.Forall₂ (fun e e' => e.1 = e'.1 ∧ ρ.obj .symbol e.2 e'.2) l r) (name : String) :
    Option.Rel (ρ.obj .symbol) (l.lookup name) (r.lookup name) := by
  induction h with
  | nil => exact .none
  | @cons e e' _ _ he _ ih =>
    obtain ⟨n, h⟩ := e
    obtain ⟨n', h'⟩ := e'
    obtain ⟨rfl, hc⟩ := he
    simp only [List.lookup_cons]
    split
    · exact .some hc
    · exact ih

namespace Situation

/-- one more name for objects that stand for each other -/
def naming (σ : Situation th) (name : String) {h h' : Handle} (ho : σ.pairing.obj .symbol h h') : Situation th where
  left := { σ.left with symbols := (name, h) :: σ.left.symbols }
  right := { σ.right with symbols := (name, h') :: σ.right.symbols }
  pairing := σ.pairing
  agree := { σ.agree with symbols := .cons ⟨rfl, ho⟩ σ.agree.symbols }

theorem balanced_naming (σ : Situation th) (name : String) {h h' : Handle} (ho : σ.pairing.obj .symbol h h') :
    Balanced σ (σ.naming name ho) :=
  ⟨⟨.refl _, id, id, .refl _, .refl _, ⟨rfl, rfl, fun _ => rfl, rfl, rfl, rfl, rfl, rfl⟩,
    ⟨rfl, rfl, fun _ => rfl, rfl, rfl, rfl, rfl, rfl⟩, Nat.le_refl _, fun _ _ _ => rfl⟩, rfl⟩

/-- other numbers of generated names -/
def counting (σ : Situation th) (n : Nat) : Situation th where
  left := { σ.left with gensyms := n }
  right := { σ.right with gensyms := n }
  pairing := σ.pairing
  agree := { σ.agree with gensyms := rfl }

theorem balanced_counting (σ : Situation th) (n : Nat) : Balanced σ (σ.counting n) :=
  ⟨⟨.refl _, id, id, .refl _, .refl _, ⟨rfl, rfl, fun _ => rfl, rfl, rfl, rfl, rfl, rfl⟩,
    ⟨rfl, rfl, fun _ => rfl, rfl, rfl, rfl, rfl, rfl⟩, Nat.le_refl _, fun _ _ _ => rfl⟩, rfl⟩

end Situation

theorem intern_sim (σ : Situation th) (name : String) :
    Sim σ (Act.intern name) (Act.intern name) fun τ h h' => τ.pairing.obj .symbol h h' := by
  have hlookup := lookup_symbols σ.agree.symbols name
  unfold Act.intern
  refine Sim.get ?_
  simp only [Simulation.left, Simulation.right]
  generalize σ.left.symbols.lookup name = o, σ.right.symbols.lookup name = o' at hlookup
  cases hlookup with
  | some hh => exact .pure hh
  | none =>
    refine (allocate_sim (.of_like (.symbol name) (by simp [Cell.kind]) (by simp [Cell.kind]))).bind fun τ h h' _ hmade => ?_
    have ho : τ.pairing.obj .symbol h h' := hmade.obj
    refine Sim.bind (Q := fun υ _ _ => υ = τ.naming name ho) (done (τ.naming name ho) (τ.balanced_naming name ho) rfl rfl rfl) ?_
    rintro υ _ _ _ rfl
    exact .pure ho

instance : Simulation.Interns (Situation th) := ⟨intern_sim⟩

theorem gensym_sim (σ : Situation th) :
    Sim σ Act.gensym Act.gensym fun τ h h' => τ.pairing.obj .symbol h h' := by
  unfold Act.gensym
  refine Sim.get ?_
  rw [show (Simulation.left σ).gensyms = (Simulation.right σ).gensyms from σ.agree.gensyms]
  refine Sim.bind (Q := fun _ _ _ => True) (done (σ.counting _) (σ.balanced_counting _) rfl rfl trivial) fun τ _ _ _ _ => ?_
  exact intern_sim τ _

/-! ## Pairs, errors, functions and scopes -/

theorem allocatePinned_sim {c c' : Cell} {text : Bool} {value : Handle → Value} (h : Ready σ.pairing c c')
    (hvalue : ∀ ρ h h', ρ c.kind h h' → (value h).Like ρ (value h')) :
    Sim σ (Act.allocatePinned th c value text) (Act.allocatePinned th c' value text) Val := by
  unfold Act.allocatePinned
  refine (allocate_sim h).bind fun τ h h' _ hmade => ?_
  refine (pin_sim τ _ _).bind fun υ _ _ hυ _ => .pure ?_
  exact Val.later hυ (hvalue _ h h' hmade.obj)

theorem newPair_sim (text : Bool) {a a' d d' : Value} (ha : Val σ a a') (hd : Val σ d d') :
    Sim σ (Act.newPair th text a d) (Act.newPair th text a' d') Val :=
  allocatePinned_sim (.of_like (.cons ha hd) (by simp [Cell.kind]) (by simp [Cell.kind])) fun ρ h h' => .cons

theorem newErrorObject_sim {x x' : ErrorObject} (hx : x.Like σ.pairing.obj x') :
    Sim σ (Act.newErrorObject th x) (Act.newErrorObject th x') Simulation.Err := by
  unfold Act.newErrorObject
  refine Sim.get ?_
  refine Sim.bind (allocate_sim (.of_like (.error hx) (by simp [Cell.kind]) (by simp [Cell.kind]))) fun τ h h' _ hmade => ?_
  have herr : Simulation.Err τ ⟨⟨h, σ.left.heap.births⟩, x.kind⟩ ⟨⟨h', σ.right.heap.births⟩, x'.kind⟩ :=
    ⟨hmade.obj, hx.kind, ⟨false, congrArg (Option.map Slot.label) hmade.slot⟩,
      ⟨false, congrArg (Option.map Slot.label) hmade.slot'⟩⟩
  exact (pin_sim τ _ _).bind fun υ _ _ hυ _ => .pure (herr.later hυ)

theorem allocateFunction_sim {f f' : Function} (hf : f.Like σ.pairing.obj f')
    (hsuits : ∀ p special, f.body = .primitive p special → p.Suits special) :
    Sim σ (Act.allocatePinned th (.function f) .function) (Act.allocatePinned th (.function f') .function) Val := by
  refine allocatePinned_sim ⟨.function hf, ?_, by rintro _ _ ⟨⟩⟩ fun ρ h h' => .function
  rintro g p special ⟨⟩ hb
  exact hsuits p special hb

theorem newScope_sim {name name' parent parent' : Option Handle} (hname : Option.Rel (σ.pairing.obj .symbol) name name')
    (hparent : Option.Rel (σ.pairing.obj .scope) parent parent') :
    Sim σ (Act.newScope th name parent) (Act.newScope th name' parent') fun τ h h' => τ.pairing.obj .scope h h' := by
  unfold Act.newScope
  have hready : Ready σ.pairing (.scope { name := name, parent := .ofOption parent })
      (.scope { name := name', parent := .ofOption parent' }) := by
    refine ⟨.scope hname, by rintro _ _ _ ⟨⟩, ?_⟩
    rintro _ _ ⟨⟩ ⟨⟩
    refine ⟨rfl, hname, ?_, .nil, List.nodup_nil, rfl⟩
    cases hparent with
    | some h => exact .scope h
    | none => exact .none
  refine (allocate_sim hready).bind fun τ h h' _ hmade => ?_
  exact (pin_sim τ _ _).bind fun υ _ _ hυ _ => .pure (hυ.kept hmade.obj)

end LispMachine.Boxed
