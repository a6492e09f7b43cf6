/-
Scopes in use on two machines, one of which has its variables in boxes, and the console.

A run inside a scope that has been entered on both sides keeps what stands for each other; after leaving, the scopes in use are
what they were. With that all operations of a thread keep situations.
-/
import LispMachine.Proofs.Boxed.Places

namespace LispMachine

/-- the machine with other scopes of a thread and other counts of uses -/
def Machine.scoped (m : Machine) (th : ThreadId) (uses : Array Nat) (f : Array Handle → Array Handle) : Machine :=
  { m.onThread th (Thread.scoping f) with uses := uses }

namespace Boxed

open Simulation (InStep Sim Later Val)

variable {th : ThreadId} {σ τ : Situation th} {α β : Type} {Q : Situation th → α → β → Prop} {f f' g g' : Array Handle → Array Handle}

/-! ## Other scopes -/

theorem thread_scoped {m : Machine} (ho : (m.thread th).isOpen = true) (uses : Array Nat) (f : Array Handle → Array Handle) :
    (m.scoped th uses f).thread th = (m.thread th).scoping f :=
  (Machine.thread_onThread ho (Thread.scoping f) th).trans (if_pos rfl)

/-- scopes that may be in use next -/
structure Entry (σ : Situation th) (f f' : Array Handle → Array Handle) : Prop where
  scopes : List.Forall₂ σ.Open (f (σ.left.thread th).scopes).toList (f' (σ.right.thread th).scopes).toList
  outermost : ∃ g g', (f (σ.left.thread th).scopes)[0]? = some g ∧ (f' (σ.right.thread th).scopes)[0]? = some g' ∧
    σ.pairing.obj .scope g g'

/-- the situation with other scopes in use -/
def Situation.scoped (σ : Situation th) (u u' : Array Nat) (he : Entry σ f f') : Situation th where
  left := σ.left.scoped th u f
  right := σ.right.scoped th u' f'
  pairing := σ.pairing
  agree :=
    have hl := thread_scoped σ.agree.isOpen u f
    have hr := thread_scoped σ.agree.isOpen' u' f'
    { σ.agree with
      store := by rw [hl]; exact σ.agree.store
      isOpen := by rw [hl]; exact σ.agree.isOpen
      isOpen' := by rw [hr]; exact σ.agree.isOpen'
      whole := by rw [hl]; exact σ.agree.whole
      owner := by rw [hl]; exact σ.agree.owner
      scopes := by rw [hl, hr]; exact he.scopes
      outermost := by rw [hl, hr]; exact he.outermost }

theorem stack_scoped (σ : Situation th) (u v : Array Nat) (he : Entry σ f f') :
    ((σ.scoped u v he).left.thread th).stack = (σ.left.thread th).stack :=
  (congrArg Thread.stack (thread_scoped σ.agree.isOpen u f) :)

theorem later_scoped (σ : Situation th) (u u' : Array Nat) (he : Entry σ f f') : Later σ (σ.scoped u u' he) :=
  ⟨id, id, fun _ => id, fun _ => ⟨rfl, rfl⟩⟩

/-! ## Entering and leaving -/

section

variable {h h' : Handle}

/-- scopes entered on both sides -/
def Situation.entering (σ : Situation th) (h h' : Handle) (he : Entry σ f f') : Situation th :=
  σ.scoped (Act.setUses σ.left.uses h (σ.left.useCount h + 1)) (Act.setUses σ.right.uses h' (σ.right.useCount h' + 1)) he

variable (he : Entry σ f f') (hτ : Situation.Balanced (σ.entering h h' he) τ)
include hτ

/-- inside, the scopes in use are those that have been entered -/
theorem scopes_inside : (τ.left.thread th).scopes = f (σ.left.thread th).scopes ∧
    (τ.right.thread th).scopes = f' (σ.right.thread th).scopes := by
  refine ⟨hτ.stays.scopes.trans ?_, hτ.stays'.scopes.trans ?_⟩
  · exact congrArg Thread.scopes (thread_scoped σ.agree.isOpen _ f)
  · exact congrArg Thread.scopes (thread_scoped σ.agree.isOpen' _ f')

theorem useCount_inside : (∀ x, τ.left.useCount x = if x = h then σ.left.useCount h + 1 else σ.left.useCount x) ∧
    ∀ x, τ.right.useCount x = if x = h' then σ.right.useCount h' + 1 else σ.right.useCount x :=
  ⟨fun x => (hτ.stays.uses x).trans (Machine.useCount_setUses (σ.left.onThread th (Thread.scoping f)) h x _),
    fun x => (hτ.stays'.uses x).trans (Machine.useCount_setUses (σ.right.onThread th (Thread.scoping f')) h' x _)⟩

variable (hback : g (f (σ.left.thread th).scopes) = (σ.left.thread th).scopes)
  (hback' : g' (f' (σ.right.thread th).scopes) = (σ.right.thread th).scopes)
include hback hback'

/-- the scopes that are in use after leaving -/
theorem entry_back : Entry τ g g' := by
  obtain ⟨hl, hr⟩ := scopes_inside he hτ
  obtain ⟨x, x', hx, hx', ho⟩ := σ.agree.outermost
  refine ⟨?_, x, x', ?_, ?_, hτ.extends_.obj ho⟩
  · rw [hl, hr, hback, hback']
    exact σ.agree.scopes.imp fun _ _ => hτ.opened
  · rw [hl, hback]
    exact hx
  · rw [hr, hback']
    exact hx'

/-- scopes left again on both sides -/
def leaving : Situation th :=
  τ.scoped (Act.setUses τ.left.uses h (τ.left.useCount h - 1)) (Act.setUses τ.right.uses h' (τ.right.useCount h' - 1))
    (entry_back he hτ hback hback')

omit hτ hback hback' in
/-- entering and leaving stay as they were -/
theorem stays_left {m m' : Machine} {u : Array Nat} {f g : Array Handle → Array Handle} {n : Nat} {h : Handle}
    (ho : (m.thread th).isOpen = true) (ho' : (m'.thread th).isOpen = true) (hs : Stays th (m.scoped th u f) m')
    (huses : ∀ x, m'.useCount x = if x = h then m.useCount h + 1 else m.useCount x)
    (hscopes : g (m'.thread th).scopes = (m.thread th).scopes) (hn : n = m'.useCount h - 1) :
    Stays th m (m'.scoped th (Act.setUses m'.uses h n) g) where
  id := by rw [thread_scoped ho']; exact hs.id.trans (by rw [thread_scoped ho]; rfl)
  scopes := by rw [thread_scoped ho']; exact hscopes
  uses x := by
    refine (Machine.useCount_setUses (m'.onThread th (Thread.scoping g)) h x n).trans ?_
    split
    · rename_i heq
      subst heq
      rw [hn, huses, if_pos rfl, Nat.add_sub_cancel]
    · rename_i hne
      exact (huses x).trans (if_neg hne)
  size := (Array.size_modify ..).trans (hs.size.trans (Array.size_modify ..))
  owners := hs.owners
  free := hs.free
  globalScope := hs.globalScope
  config := hs.config

theorem balanced_leaving : Situation.Balanced σ (leaving he hτ hback hback') := by
  obtain ⟨hl, hr⟩ := scopes_inside he hτ
  obtain ⟨hu, hu'⟩ := useCount_inside he hτ
  have hstack : ((leaving he hτ hback hback').left.thread th).stack = (τ.left.thread th).stack :=
    stack_scoped τ _ _ (entry_back he hτ hback hback')
  have hstart : ((σ.entering h h' he).left.thread th).stack = (σ.left.thread th).stack := stack_scoped σ _ _ he
  have hlevel : (leaving he hτ hback hback').height = σ.height :=
    (congrArg (·.items.size) hstack).trans (hτ.level.trans (congrArg (·.items.size) hstart))
  exact
    { extends_ := hτ.extends_
      frame := hτ.frame
      slot := hτ.slot
      lasts := hτ.lasts
      lasts' := hτ.lasts'
      stays := stays_left σ.agree.isOpen τ.agree.isOpen hτ.stays hu (by rw [hl]; exact hback) rfl
      stays' := stays_left σ.agree.isOpen' τ.agree.isOpen' hτ.stays' hu' (by rw [hr]; exact hback') rfl
      height := Nat.le_of_eq hlevel.symm
      item? := fun i hi hfree =>
        (congrArg (·.items[i]?) hstack).trans ((hτ.item? i (Nat.lt_of_lt_of_eq hi (congrArg (·.items.size) hstart).symm) hfree).trans
          (congrArg (·.items[i]?) hstart))
      level := hlevel }

end

/-- two actions in scopes that are entered before them and left after them -/
theorem within_sim {h h' : Handle} (he : Entry σ f f') {x : Act α} {y : Act β} {leave leave' : Act Unit}
    (hback : g (f (σ.left.thread th).scopes) = (σ.left.thread th).scopes)
    (hback' : g' (f' (σ.right.thread th).scopes) = (σ.right.thread th).scopes)
    (hleave : ∀ m : Machine, (m.thread th).scopes = f (σ.left.thread th).scopes → m.useCount h ≠ 0 →
      leave.run m = .ok () (m.exited th h g))
    (hleave' : ∀ m : Machine, (m.thread th).scopes = f' (σ.right.thread th).scopes → m.useCount h' ≠ 0 →
      leave'.run m = .ok () (m.exited th h' g'))
    (hx : ∀ τ, Later σ τ → Sim τ x y Q) (hQ : ∀ τ υ a b, Later τ υ → Q τ a b → Q υ a b) :
    InStep (fun _ υ => Situation.Balanced σ υ) Simulation.Failure.Like (σ.entering h h' he) (Act.andThen x leave)
      (Act.andThen y leave') Q := by
  unfold Act.andThen
  refine InStep.observing (hx _ (later_scoped σ _ _ he)) fun τ r r' hτ hr => ?_
  obtain ⟨hl, hr'⟩ := scopes_inside he hτ
  obtain ⟨hu, hu'⟩ := useCount_inside he hτ
  have hcount : τ.left.useCount h ≠ 0 := by rw [hu, if_pos rfl]; exact Nat.succ_ne_zero _
  have hcount' : τ.right.useCount h' ≠ 0 := by rw [hu', if_pos rfl]; exact Nat.succ_ne_zero _
  refine InStep.after (τ := leaving he hτ hback hback') (hleave _ hl hcount) (hleave' _ hr' hcount') ?_
  refine InStep.settle (balanced_leaving he hτ hback hback') ?_
  have hlater : Later τ (leaving he hτ hback hback') := later_scoped τ _ _ (entry_back he hτ hback hback')
  cases hr with
  | ok h => exact .ok (hQ _ _ _ _ hlater h)
  | error h => exact .error (h.later hlater)

theorem inScope_sim {h h' : Handle} (ho : σ.Open h h') {x : Act α} {y : Act β} (hx : ∀ τ, Later σ τ → Sim τ x y Q)
    (hQ : ∀ τ υ a b, Later τ υ → Q τ a b → Q υ a b) : Sim σ (Act.inScope th h x) (Act.inScope th h' y) Q := by
  have hfirst {scopes : Array Handle} {g : Handle} (hg : scopes[0]? = some g) (h : Handle) : (scopes.push h)[0]? = some g := by
    obtain ⟨hlt, -⟩ := Array.getElem?_eq_some_iff.1 hg
    rw [Array.getElem?_push_lt hlt, ← hg, Array.getElem?_eq_getElem hlt]
  have he : Entry σ (·.push h) (·.push h') := by
    obtain ⟨g, g', hg, hg', hout⟩ := σ.agree.outermost
    refine ⟨?_, g, g', hfirst hg h, hfirst hg' h', hout⟩
    simp only [Array.toList_push]
    exact List.rel_append σ.agree.scopes (.cons ho .nil)
  unfold Act.inScope
  exact InStep.after (τ := σ.entering h h' he) rfl rfl (within_sim he (Array.pop_push ..) (Array.pop_push ..)
    (fun m hm hc => Tandem.run_leaveScope (by rw [hm]; simp) hc) (fun m hm hc => Tandem.run_leaveScope (by rw [hm]; simp) hc) hx hQ)

theorem globalScope_sim (σ : Situation th) :
    Sim σ (Act.globalScope th) (Act.globalScope th) fun τ g g' => τ = σ ∧ τ.pairing.obj .scope g g' := by
  obtain ⟨g, g', hg, hg', ho⟩ := σ.agree.outermost
  exact .read (Tandem.run_globalScope hg) (Tandem.run_globalScope hg') ⟨rfl, ho⟩

theorem withGlobal_sim {h h' : Handle} (ho : σ.pairing.obj .scope h h') {x : Act α} {y : Act β}
    (hx : ∀ τ, Later σ τ → Sim τ x y Q) (hQ : ∀ τ υ a b, Later τ υ → Q τ a b → Q υ a b) :
    Sim σ (Act.withGlobal th h x) (Act.withGlobal th h' y) Q := by
  obtain ⟨old, old', hold, hold', -⟩ := σ.agree.outermost
  have hset {scopes : Array Handle} {old : Handle} (hs : scopes[0]? = some old) (h : Handle) :
      (scopes.setIfInBounds 0 h)[0]? = some h := by
    obtain ⟨hlt, -⟩ := Array.getElem?_eq_some_iff.1 hs
    simp [hlt]
  have he : Entry σ (·.setIfInBounds 0 h) (·.setIfInBounds 0 h') := by
    refine ⟨?_, h, h', hset hold h, hset hold' h', ho⟩
    simp only [Array.toList_setIfInBounds]
    exact Tandem.forall₂_set σ.agree.scopes 0 (.inl ho)
  unfold Act.withGlobal
  exact InStep.after (τ := σ.entering h h' he) (Tandem.run_enterGlobal hold) (Tandem.run_enterGlobal hold')
    (within_sim he (Tandem.setIfInBounds_back hold h) (Tandem.setIfInBounds_back hold' h')
      (fun m hm hc => Tandem.run_leaveGlobal (by rw [hm]; exact Tandem.isEmpty_setIfInBounds hold h) hc)
      (fun m hm hc => Tandem.run_leaveGlobal (by rw [hm]; exact Tandem.isEmpty_setIfInBounds hold' h') hc) hx hQ)

/-- the innermost scopes of the thread -/
theorem current_open (σ : Situation th) : ∃ h h', (σ.left.thread th).scopes.back? = some h ∧
    (σ.right.thread th).scopes.back? = some h' ∧ σ.Open h h' := by
  have hscopes := List.rel_reverse σ.agree.scopes
  obtain ⟨g, g', hg, -⟩ := σ.agree.outermost
  obtain ⟨hlt, -⟩ := Array.getElem?_eq_some_iff.1 hg
  have hsize : (σ.left.thread th).scopes.toList.reverse.length ≠ 0 := by
    rw [List.length_reverse, Array.length_toList]
    exact Nat.ne_of_gt hlt
  rw [← Array.getLast?_toList, ← Array.getLast?_toList, List.getLast?_eq_head?_reverse, List.getLast?_eq_head?_reverse]
  generalize (σ.left.thread th).scopes.toList.reverse = l, (σ.right.thread th).scopes.toList.reverse = r at hscopes hsize
  cases hscopes with
  | nil => exact absurd rfl hsize
  | cons hg _ => exact ⟨_, _, rfl, rfl, hg⟩

theorem run_currentScope {m : Machine} {h : Handle} (hh : (m.thread th).scopes.back? = some h) :
    (Act.currentScope th).run m = .ok h m := by
  simp [Act.currentScope, Act.run_bind, hh]

theorem currentScope_sim (σ : Situation th) :
    Sim σ (Act.currentScope th) (Act.currentScope th) fun τ h h' => τ = σ ∧ τ.Open h h' := by
  obtain ⟨h, h', hh, hh', ho⟩ := current_open σ
  exact .read (run_currentScope hh) (run_currentScope hh') ⟨rfl, ho⟩

/-! ## The console and passes -/

/-- the situation with one more text on both sides -/
def Situation.saying (σ : Situation th) (c : Channel) {text text' : String} (htext : c ≠ .debug → text = text')
    (budget : Option Nat) : Situation th where
  left := σ.left.said c text budget
  right := σ.right.said c text' budget
  pairing := σ.pairing
  agree :=
    { σ.agree with
      lines := Machine.lines_said σ.agree.lines c htext budget
      budget := rfl }

theorem balanced_saying (σ : Situation th) (c : Channel) {text text' : String} (htext : c ≠ .debug → text = text')
    (budget : Option Nat) : Situation.Balanced σ (σ.saying c htext budget) :=
  ⟨⟨.refl _, id, id, .refl _, .refl _, ⟨rfl, rfl, fun _ => rfl, rfl, rfl, rfl, rfl, rfl⟩,
    ⟨rfl, rfl, fun _ => rfl, rfl, rfl, rfl, rfl, rfl⟩, Nat.le_refl _, fun _ _ _ => rfl⟩, rfl⟩

theorem write_sim (σ : Situation th) (c : Channel) {text text' : String} (htext : c ≠ .debug → text = text') :
    Sim σ (Act.write c text) (Act.write c text') fun _ _ _ => True := by
  rcases Machine.run_write c σ.left.console.budget with ⟨budget, hrun⟩ | hrun
  · exact done (σ.saying c htext budget) (balanced_saying σ c htext budget) (hrun _ _ rfl) (hrun _ _ σ.agree.budget.symm) trivial
  · exact Simulation.failed σ (Situation.Balanced.refl σ) (hrun _ _ rfl) (hrun _ _ σ.agree.budget.symm)
      (.raised (.bare ⟨by simp, by simp, by simp⟩))

theorem debug_sim {σ : Situation th} {v v' : Value} (hv : Val σ v v') : Sim σ (Act.debug v) (Act.debug v') Val := by
  unfold Act.debug
  refine (Simulation.debugText_sim hv.live).sim.bind fun τ _ _ hτ _ => ?_
  exact (write_sim τ .debug fun h => absurd rfl h).bind fun υ _ _ hυ _ => .pure ((hv.later hτ).later hυ)

/-- a pass that is taken interrupts -/
theorem passing {x : Act α} {y : Act β} {trigger : Trigger} {f : Pass → Act α} (hx : x = Act.collect trigger >>= f) :
    Sim σ x y Q := by
  subst hx
  refine interrupted (e := .passed trigger) rfl ?_
  exact ((Simulation.bind_grows (Act.note (.passed trigger)) _ σ.left).trans
    (Simulation.bind_grows (Act.collect trigger) f σ.left)).subset List.mem_cons_self

theorem gc_sim (σ : Situation th) : Sim σ Act.gc Act.gc Val := passing rfl

/-! ## All of them -/

instance : Simulation.Operations (Situation th) th where
  gensym := gensym_sim
  newCons ha hd := newPair_sim false ha hd
  newText ha hd := (newPair_sim true ha.1 hd.1).mono fun _ _ _ _ h => ⟨h, trivial⟩
  newErrorObject := newErrorObject_sim
  newScope := newScope_sim
  bindIn overwrite hg hsym hv := bindIn_sim overwrite hg hsym hv
  lookup? := lookup?_placed
  globalScope σ := (globalScope_sim σ).mono fun _ _ _ _ h => h.2
  withGlobal ho hx hQ := withGlobal_sim ho hx hQ
  deref h := (deref_sim h).mono fun _ _ _ _ h => h.2
  storeThrough hr hv := storeThrough_sim hr hv
  placed_field ho := ⟨.car ho, .cdr ho⟩
  write σ c _ := write_sim σ c fun _ => rfl
  debug := debug_sim
  gc := gc_sim

end Boxed

end LispMachine
