/-
Entering and leaving scopes on two machines in tandem.

While a scope is entered it is in use and so held firmly. A run inside keeps what is held, and after leaving the counts of uses
and the scopes are as they were: all is held that was held before, and if the scope itself is kept, all that was held inside.
-/
import LispMachine.Proofs.Tandem.Places

namespace LispMachine

/-- the thread with other scopes -/
def Thread.scoping (f : Array Handle → Array Handle) (t : Thread) : Thread := { t with scopes := f t.scopes }

namespace Machine

/-! ## Entering and leaving -/

/-- the machine with one more use of a scope, and other scopes of a thread -/
def entered (m : Machine) (th : ThreadId) (h : Handle) (f : Array Handle → Array Handle) : Machine :=
  (m.withUses h (m.useCount h + 1)).onThread th (Thread.scoping f)

/-- the machine with one use of a scope less, and other scopes of a thread -/
def exited (m : Machine) (th : ThreadId) (h : Handle) (f : Array Handle → Array Handle) : Machine :=
  (m.onThread th (Thread.scoping f)).withUses h (m.useCount h - 1)

section

variable {m m' : Machine} {th : ThreadId} {h : Handle} {f g : Array Handle → Array Handle}

theorem useCount_entered (m : Machine) (th : ThreadId) (h : Handle) (f : Array Handle → Array Handle) (x : Handle) :
    (m.entered th h f).useCount x = if x = h then m.useCount h + 1 else m.useCount x :=
  useCount_setUses m h x (m.useCount h + 1)

theorem useCount_exited (m : Machine) (th : ThreadId) (h : Handle) (f : Array Handle → Array Handle) (x : Handle) :
    (m.exited th h f).useCount x = if x = h then m.useCount h - 1 else m.useCount x :=
  useCount_setUses (m.onThread th (Thread.scoping f)) h x (m.useCount h - 1)

theorem thread_entered (ho : (m.thread th).isOpen = true) (h : Handle) (f : Array Handle → Array Handle) (t : ThreadId) :
    (m.entered th h f).thread t = if t = th then (m.thread th).scoping f else m.thread t :=
  thread_onThread (m := m.withUses h (m.useCount h + 1)) ho _ t

theorem thread_exited (ho : (m.thread th).isOpen = true) (h : Handle) (f : Array Handle → Array Handle) (t : ThreadId) :
    (m.exited th h f).thread t = if t = th then (m.thread th).scoping f else m.thread t :=
  thread_onThread ho (Thread.scoping f) t

/-- apart from its scopes a thread stays as it is -/
theorem isOpen_entered (ho : (m.thread th).isOpen = true) (t : ThreadId) :
    ((m.entered th h f).thread t).isOpen = (m.thread t).isOpen ∧ ((m.entered th h f).thread t).pins = (m.thread t).pins := by
  rw [thread_entered ho]
  split
  · rename_i heq; subst heq; exact ⟨rfl, rfl⟩
  · exact ⟨rfl, rfl⟩

theorem isOpen_exited (ho : (m.thread th).isOpen = true) (t : ThreadId) :
    ((m.exited th h f).thread t).isOpen = (m.thread t).isOpen ∧ ((m.exited th h f).thread t).pins = (m.thread t).pins ∧
      ((m.exited th h f).thread t).stack = (m.thread t).stack := by
  rw [thread_exited ho]
  split
  · rename_i heq; subst heq; exact ⟨rfl, rfl, rfl⟩
  · exact ⟨rfl, rfl, rfl⟩

theorem Firm.entered (ho : (m.thread th).isOpen = true) {x : Handle} (hx : m.Firm x) : (m.entered th h f).Firm x := by
  induction hx with
  | pin hopen hv hn =>
    obtain ⟨hopen', hpins⟩ := isOpen_entered ho _
    exact .pin (hopen'.trans hopen) (hpins ▸ hv) hn
  | inUse hx =>
    refine .inUse ?_
    rw [useCount_entered]
    split
    · exact Nat.succ_ne_zero _
    · exact hx
  | symbol hs => exact .symbol hs
  | exhausted => exact .exhausted
  | step _ hs hfirm ht ih => exact .step ih hs hfirm ht

variable (ho : (m.thread th).isOpen = true) (hk : (m.entered th h f).Keeps m')
  (hback : g (f (m.thread th).scopes) = (m.thread th).scopes)
include hk

/-- leaving what was entered brings the counts of uses back -/
theorem useCount_left (x : Handle) : (m'.exited th h g).useCount x = m.useCount x := by
  rw [useCount_exited]
  split
  · rename_i heq
    subst heq
    rw [hk.uses, useCount_entered, if_pos rfl, Nat.add_sub_cancel]
  · rename_i hne
    rw [hk.uses, useCount_entered, if_neg hne]

include ho

theorem isOpen_inside : (m'.thread th).isOpen = true := ((hk.threads th).1.trans (isOpen_entered ho th).1).trans ho

include hback

/-- and so the scopes -/
theorem scopes_left (t : ThreadId) : ((m'.exited th h g).thread t).scopes = (m.thread t).scopes := by
  have hscopes := (hk.threads t).2.2
  rw [thread_entered ho] at hscopes
  rw [thread_exited (isOpen_inside ho hk)]
  split at hscopes
  · rename_i heq
    subst heq
    rw [if_pos rfl, Thread.scoping, hscopes]
    exact hback
  · rename_i hne
    rw [if_neg hne]
    exact hscopes

theorem keeps_left : m.Keeps (m'.exited th h g) where
  threads t := by
    obtain ⟨hopen, hpins, -⟩ := hk.threads t
    obtain ⟨hopen', hpins'⟩ := isOpen_entered (h := h) (f := f) ho t
    obtain ⟨hopen'', hpins'', -⟩ := isOpen_exited (h := h) (f := g) (isOpen_inside ho hk) t
    exact ⟨hopen''.trans (hopen.trans hopen'), hpins'' ▸ hpins' ▸ hpins, scopes_left ho hk hback t⟩
  uses := useCount_left hk
  global := hk.global
  symbols := hk.symbols
  stable x s hx hs := hk.stable x s (hx.entered ho) hs

/-- what was held inside is held outside, if what was entered is -/
theorem Firm.left (hh : m.Firm h) {x : Handle} (hx : m'.Firm x) : (m'.exited th h g).Firm x := by
  have hkeeps := keeps_left ho hk hback
  induction hx with
  | pin hopen hv hn =>
    obtain ⟨hopen', hpins, -⟩ := isOpen_exited (h := h) (f := g) (isOpen_inside ho hk) _
    exact .pin (hopen'.trans hopen) (hpins ▸ hv) hn
  | @inUse x hx =>
    by_cases heq : x = h
    · exact heq ▸ hkeeps.firm hh
    · refine .inUse ?_
      rw [useCount_exited, if_neg heq]
      exact hx
  | symbol hs => exact .symbol hs
  | exhausted => exact .exhausted
  | step _ hs hfirm ht ih => exact .step ih hs hfirm ht

theorem Sound.left (hm : m.Sound) (hm' : m'.Sound) : (m'.exited th h g).Sound :=
  have hkeeps := keeps_left ho hk hback
  have hopen (t : ThreadId) : ((m'.exited th h g).thread t).isOpen = (m'.thread t).isOpen ∧
      ((m'.exited th h g).thread t).stack = (m'.thread t).stack :=
    have hsame := isOpen_exited (h := h) (f := g) (isOpen_inside ho hk) t
    ⟨hsame.1, hsame.2.2⟩
  { hm' with
    used := fun x hx => hm'.used x <| by
      rw [useCount_left hk] at hx
      rw [hk.uses, useCount_entered]
      split
      · exact Nat.succ_ne_zero _
      · exact hx
    scopes := fun t hto x hx => by
      rw [scopes_left ho hk hback] at hx
      rw [useCount_left hk]
      exact hm.scopes t ((hkeeps.threads t).1.symm.trans hto) x hx
    inside := fun t hto => by
      rw [scopes_left ho hk hback]
      exact hm.inside t ((hkeeps.threads t).1.symm.trans hto)
    readable := fun t hto => by
      rw [(hopen t).2]
      exact hm'.readable t ((hopen t).1.symm.trans hto)
    owners := fun id t => by
      rw [(hopen t).1, (hopen t).2]
      exact hm'.owners id t
    global := fun x hx => by
      rw [useCount_left hk]
      exact hm.global x (hkeeps.global.symm.trans hx) }

end

theorem Sound.entered {m : Machine} {th : ThreadId} {h : Handle} {f : Array Handle → Array Handle} (hm : m.Sound)
    (ho : (m.thread th).isOpen = true) (hh : m.heap.kind? h = some .scope)
    (hf : ∀ x ∈ f (m.thread th).scopes, x = h ∨ x ∈ (m.thread th).scopes) (hsize : (f (m.thread th).scopes).size ≠ 0) :
    (m.entered th h f).Sound := by
  refine (hm.withUses (Nat.succ_ne_zero _) hh).onThread ho ⟨rfl, ho, fun x hx => ?_, hsize, hm.readable th ho⟩
  rw [Machine.withUses, useCount_setUses]
  split
  · exact Nat.succ_ne_zero _
  · exact hm.scopes th ho x ((hf x hx).resolve_left ‹_›)

end Machine

namespace Tandem

open Machine (Corr)
open Simulation (InStep Sim QuietSim Later)

variable {th : ThreadId} {same : Bool} {σ τ : Tandem th same} {α β : Type} {Q : Tandem th same → α → β → Prop}

/-- the scopes in use are kept -/
theorem scopes_kept (σ : Tandem th same) :
    List.Forall₂ (σ.Kept .scope) (σ.left.thread th).scopes.toList (σ.right.thread th).scopes.toList :=
  forall₂_imp_mem σ.alike.scopes fun h hh h' hh' hc => ⟨hc, .inUse (σ.fits.scopes h (Array.mem_toList_iff.1 hh)),
    .inUse (σ.fits'.scopes h' (Array.mem_toList_iff.1 hh'))⟩

section

variable {h h' : Handle} {f f' g g' : Array Handle → Array Handle}

/-- what it takes to enter scopes on both sides -/
structure Entry (σ : Tandem th same) (h h' : Handle) (f f' : Array Handle → Array Handle) : Prop where
  kept : σ.Kept .scope h h'
  scopes : List.Forall₂ (Corr σ.left σ.right .scope) (f (σ.left.thread th).scopes).toList (f' (σ.right.thread th).scopes).toList
  sub : ∀ x ∈ f (σ.left.thread th).scopes, x = h ∨ x ∈ (σ.left.thread th).scopes
  sub' : ∀ x ∈ f' (σ.right.thread th).scopes, x = h' ∨ x ∈ (σ.right.thread th).scopes
  size : (f (σ.left.thread th).scopes).size ≠ 0
  eq : same = true → f = f'

/-- scopes entered on both sides -/
def entering (he : σ.Entry h h' f f') : Tandem th same :=
  have hcount : σ.right.useCount h' = σ.left.useCount h := (σ.agree.uses h h' he.kept.corr).symm
  have hsize : (f' (σ.right.thread th).scopes).size ≠ 0 := by
    rw [← Array.length_toList, ← he.scopes.length_eq, Array.length_toList]
    exact he.size
  { left := σ.left.entered th h f
    right := σ.right.entered th h' f'
    sound := σ.sound.entered σ.isOpen he.kept.corr.kind?.1 he.sub he.size
    sound' := σ.sound'.entered σ.isOpen' he.kept.corr.kind?.2 he.sub' hsize
    agree := by
      have huses := σ.agree.withUses σ.sound.store.tidy σ.sound'.store.tidy he.kept.corr (σ.left.useCount h + 1)
      unfold Machine.entered
      rw [hcount]
      exact huses.onThread σ.isOpen σ.isOpen' ⟨σ.isOpen.trans σ.isOpen'.symm, fun _ => { σ.alike with scopes := he.scopes }⟩
    isOpen := (Machine.isOpen_entered σ.isOpen th).1.trans σ.isOpen
    eq := fun hsame => by rw [he.eq hsame, handle_eq hsame he.kept.corr, σ.eq hsame] }

variable (he : σ.Entry h h' f f') (hτ : Balanced (entering he) τ) (hback : g (f (σ.left.thread th).scopes) = (σ.left.thread th).scopes)
  (hback' : g' (f' (σ.right.thread th).scopes) = (σ.right.thread th).scopes) (heq : same = true → g = g')

/-- what was kept before is kept inside -/
theorem kept_entering {k : Kind} {x x' : Handle} (hx : σ.Kept k x x') : (Tandem.entering he).Kept k x x' :=
  ⟨hx.corr, hx.firm.entered σ.isOpen, hx.firm'.entered σ.isOpen'⟩

theorem later_entering : Later σ (Tandem.entering he) where
  kept hx := kept_entering he hx
  placed := .mono fun _ _ _ => kept_entering he
  runnable _ ht := ht
  label _ := ⟨rfl, rfl⟩

/-- scopes left again on both sides -/
def exiting : Tandem th same :=
  have hcorr : Corr τ.left τ.right .scope h h' := ((kept_entering he he.kept).balanced hτ).corr
  { left := τ.left.exited th h g
    right := τ.right.exited th h' g'
    sound := .left σ.isOpen hτ.keeps hback σ.sound τ.sound
    sound' := .left σ.isOpen' hτ.keeps' hback' σ.sound' τ.sound'
    agree := by
      have hscopes : List.Forall₂ (Corr τ.left τ.right .scope) (g (τ.left.thread th).scopes).toList
          (g' (τ.right.thread th).scopes).toList := by
        have hl := Machine.scopes_left σ.isOpen hτ.keeps hback th
        have hr := Machine.scopes_left σ.isOpen' hτ.keeps' hback' th
        rw [Machine.thread_exited τ.isOpen, if_pos rfl] at hl
        rw [Machine.thread_exited τ.isOpen', if_pos rfl] at hr
        change g (τ.left.thread th).scopes = _ at hl
        change g' (τ.right.thread th).scopes = _ at hr
        rw [hl, hr]
        exact σ.scopes_kept.imp fun _ _ hx => ((kept_entering he hx).balanced hτ).corr
      have hthread : (τ.left.onThread th (Thread.scoping g)).Agree (τ.right.onThread th (Thread.scoping g')) :=
        τ.agree.onThread τ.isOpen τ.isOpen' ⟨τ.isOpen.trans τ.isOpen'.symm, fun _ => { τ.alike with scopes := hscopes }⟩
      unfold Machine.exited
      rw [← τ.agree.uses h h' hcorr]
      have ht : (τ.left.onThread th (Thread.scoping g)).heap.Tidy _ := τ.sound.store.tidy
      have ht' : (τ.right.onThread th (Thread.scoping g')).heap.Tidy _ := τ.sound'.store.tidy
      exact hthread.withUses ht ht' hcorr _
    isOpen := (Machine.isOpen_exited τ.isOpen th).1.trans τ.isOpen
    eq := fun hsame => by rw [heq hsame, handle_eq hsame hcorr, τ.eq hsame] }

theorem balanced_exiting : Balanced σ (exiting he hτ hback hback' heq) where
  keeps := Machine.keeps_left σ.isOpen hτ.keeps hback
  keeps' := Machine.keeps_left σ.isOpen' hτ.keeps' hback'

/-- what is kept inside is kept outside -/
theorem kept_exiting {k : Kind} {x x' : Handle} (hx : τ.Kept k x x') :
    (Tandem.exiting he hτ hback hback' heq).Kept k x x' :=
  ⟨hx.corr, .left σ.isOpen hτ.keeps hback he.kept.firm hx.firm, .left σ.isOpen' hτ.keeps' hback' he.kept.firm' hx.firm'⟩

theorem later_exiting : Later τ (Tandem.exiting he hτ hback hback' heq) where
  kept := kept_exiting he hτ hback hback' heq
  placed := .mono fun _ _ _ => kept_exiting he hτ hback hback' heq
  runnable _ ht := ht
  label _ := ⟨rfl, rfl⟩

omit hτ hback hback' heq

/-- two actions in scopes that are entered before them and left after them -/
theorem within_sim {x : Act α} {y : Act β} {leave leave' : Act Unit}
    (hback : g (f (σ.left.thread th).scopes) = (σ.left.thread th).scopes)
    (hback' : g' (f' (σ.right.thread th).scopes) = (σ.right.thread th).scopes) (heq : same = true → g = g')
    (hleave : ∀ m, (σ.left.entered th h f).Keeps m → leave.run m = .ok () (m.exited th h g))
    (hleave' : ∀ m, (σ.right.entered th h' f').Keeps m → leave'.run m = .ok () (m.exited th h' g'))
    (hx : ∀ τ, Later σ τ → Sim τ x y Q) (hQ : ∀ τ υ a b, Later τ υ → Q τ a b → Q υ a b) :
    InStep (fun _ υ => Balanced σ υ) Simulation.Failure.Like (entering he) (Act.andThen x leave) (Act.andThen y leave') Q := by
  unfold Act.andThen
  refine InStep.observing (hx _ (later_entering he)) fun τ r r' hτ hr => ?_
  refine InStep.after (τ := exiting he hτ hback hback' heq) (hleave _ hτ.keeps) (hleave' _ hτ.keeps') ?_
  refine InStep.settle (balanced_exiting he hτ hback hback' heq) ?_
  have hlater := later_exiting he hτ hback hback' heq
  cases hr with
  | ok h => exact .ok (hQ _ _ _ _ hlater h)
  | error h => exact .error (h.later hlater)

end

theorem run_unuseScope {m : Machine} {h : Handle} (hcount : m.useCount h ≠ 0) :
    (Act.unuseScope h).run m = .ok () (m.withUses h (m.useCount h - 1)) := by
  simp [Act.unuseScope, Act.run_bind, hcount, Machine.withUses]

section

variable {m m' : Machine} {h : Handle} {f : Array Handle → Array Handle} (ho : (m.thread th).isOpen = true)
  (hk : (m.entered th h f).Keeps m')
include hk

theorem useCount_inside : m'.useCount h ≠ 0 := by
  rw [hk.uses, Machine.useCount_entered, if_pos rfl]
  exact Nat.succ_ne_zero _

include ho

theorem scopes_inside : (m'.thread th).scopes = f (m.thread th).scopes := by
  rw [(hk.threads th).2.2, Machine.thread_entered ho, if_pos rfl]
  rfl

end

theorem run_leaveScope {m : Machine} {h : Handle} (hempty : (m.thread th).scopes.isEmpty = false) (hcount : m.useCount h ≠ 0) :
    (Act.leaveScope th h).run m = .ok () (m.exited th h (·.pop)) := by
  simp only [Act.leaveScope, Act.run_bind, Act.run_get, hempty]
  exact run_unuseScope (m := m.onThread th (Thread.scoping (·.pop))) hcount

theorem run_globalScope {m : Machine} {g : Handle} (hg : (m.thread th).scopes[0]? = some g) :
    (Act.globalScope th).run m = .ok g m := by
  simp [Act.globalScope, Act.run_bind, hg]

theorem run_enterGlobal {m : Machine} {h old : Handle} (hold : (m.thread th).scopes[0]? = some old) :
    (Act.enterGlobal th h).run m = .ok old (m.entered th h (·.setIfInBounds 0 h)) := by
  have huse : (Act.useScope h).run m = .ok () (m.withUses h (m.useCount h + 1)) := rfl
  have hglobal := run_globalScope (m := m.withUses h (m.useCount h + 1)) hold
  unfold Act.enterGlobal
  rw [Act.bind_ok huse, Act.bind_ok hglobal]
  rfl

theorem run_leaveGlobal {m : Machine} {h old : Handle} (hempty : (m.thread th).scopes.isEmpty = false)
    (hcount : m.useCount h ≠ 0) : (Act.leaveGlobal th h old).run m = .ok () (m.exited th h (·.setIfInBounds 0 old)) := by
  simp only [Act.leaveGlobal, Act.run_bind, Act.run_get, hempty]
  exact run_unuseScope (m := m.onThread th (Thread.scoping (·.setIfInBounds 0 old))) hcount

/-- the first scope put back in its place -/
theorem setIfInBounds_back {scopes : Array Handle} {old : Handle} (hold : scopes[0]? = some old) (h : Handle) :
    (scopes.setIfInBounds 0 h).setIfInBounds 0 old = scopes := by
  obtain ⟨hlt, rfl⟩ := Array.getElem?_eq_some_iff.1 hold
  simp [Array.setIfInBounds, hlt]

theorem isEmpty_setIfInBounds {scopes : Array Handle} {old : Handle} (hold : scopes[0]? = some old) (h : Handle) :
    (scopes.setIfInBounds 0 h).isEmpty = false := by
  obtain ⟨hlt, -⟩ := Array.getElem?_eq_some_iff.1 hold
  rw [Array.isEmpty_eq_false_iff_exists_mem]
  exact ⟨h, Array.mem_setIfInBounds hlt⟩

theorem inScope_sim {h h' : Handle} (hk : σ.Kept .scope h h') {x : Act α} {y : Act β} (hx : ∀ τ, Later σ τ → Sim τ x y Q)
    (hQ : ∀ τ υ a b, Later τ υ → Q τ a b → Q υ a b) : Sim σ (Act.inScope th h x) (Act.inScope th h' y) Q := by
  have he : σ.Entry h h' (·.push h) (·.push h') :=
    { kept := hk
      scopes := by
        simp only [Array.toList_push]
        exact List.rel_append σ.alike.scopes (.cons hk.corr .nil)
      sub := fun x hx => (Array.mem_push.1 hx).symm
      sub' := fun x hx => (Array.mem_push.1 hx).symm
      size := by simp
      eq := fun hsame => by rw [handle_eq hsame hk.corr] }
  unfold Act.inScope
  have hpop (scopes : Array Handle) (h : Handle) : (scopes.push h).pop = scopes := Array.pop_push ..
  exact InStep.after (τ := entering he) rfl rfl (within_sim he (hpop _ _) (hpop _ _) (fun _ => rfl)
    (fun m hm => run_leaveScope (by rw [scopes_inside σ.isOpen hm]; simp) (useCount_inside hm))
    (fun m hm => run_leaveScope (by rw [scopes_inside σ.isOpen' hm]; simp) (useCount_inside hm)) hx hQ)

/-- the global scopes of the thread -/
theorem global_kept (σ : Tandem th same) : ∃ g g', (σ.left.thread th).scopes[0]? = some g ∧
    (σ.right.thread th).scopes[0]? = some g' ∧ σ.Kept .scope g g' := by
  have hscopes := σ.scopes_kept
  have hsize := σ.fits.inside
  rw [← Array.length_toList] at hsize
  rw [← Array.getElem?_toList, ← Array.getElem?_toList]
  generalize (σ.left.thread th).scopes.toList = l, (σ.right.thread th).scopes.toList = r at hscopes hsize
  cases hscopes with
  | nil => exact absurd rfl hsize
  | cons hg _ => exact ⟨_, _, rfl, rfl, hg⟩

theorem globalScope_sim (σ : Tandem th same) :
    Sim σ (Act.globalScope th) (Act.globalScope th) fun τ g g' => τ = σ ∧ τ.Kept .scope g g' := by
  obtain ⟨g, g', hg, hg', hk⟩ := σ.global_kept
  exact .read (run_globalScope hg) (run_globalScope hg') ⟨rfl, hk⟩

theorem withGlobal_sim {h h' : Handle} (hk : σ.Kept .scope h h') {x : Act α} {y : Act β}
    (hx : ∀ τ, Later σ τ → Sim τ x y Q) (hQ : ∀ τ υ a b, Later τ υ → Q τ a b → Q υ a b) :
    Sim σ (Act.withGlobal th h x) (Act.withGlobal th h' y) Q := by
  obtain ⟨old, old', hold, hold', hkold⟩ := σ.global_kept
  have hmem {scopes : Array Handle} {h : Handle} (x : Handle) (hx : x ∈ scopes.setIfInBounds 0 h) : x = h ∨ x ∈ scopes :=
    (Array.mem_or_eq_of_mem_setIfInBounds hx).symm
  have he : σ.Entry h h' (·.setIfInBounds 0 h) (·.setIfInBounds 0 h') :=
    { kept := hk
      scopes := by
        simp only [Array.toList_setIfInBounds]
        exact forall₂_set σ.alike.scopes 0 hk.corr
      sub := hmem
      sub' := hmem
      size := by simpa using σ.fits.inside
      eq := fun hsame => by rw [handle_eq hsame hk.corr] }
  unfold Act.withGlobal
  exact InStep.after (τ := entering he) (run_enterGlobal hold) (run_enterGlobal hold') (within_sim he
    (setIfInBounds_back hold h) (setIfInBounds_back hold' h') (fun hsame => by rw [handle_eq hsame hkold.corr])
    (fun m hm => run_leaveGlobal (by rw [scopes_inside σ.isOpen hm]; exact isEmpty_setIfInBounds hold h) (useCount_inside hm))
    (fun m hm => run_leaveGlobal (by rw [scopes_inside σ.isOpen' hm]; exact isEmpty_setIfInBounds hold' h') (useCount_inside hm))
    hx hQ)

end Tandem

end LispMachine
