/-
Stacks of two machines in tandem: pushes, drops and the frames of calls.

Stacks that stand for each other have the same height, so a push fills the same slot on both sides and references to it are the
same. The arguments of a call are laid on top of the stack; until anything else is run they are what was passed.
-/
import LispMachine.Proofs.Tandem.Operations

namespace LispMachine

/-- the thread with other items on its stack -/
def Thread.stacking (f : Array Value → Array Value) (t : Thread) : Thread :=
  { t with stack := { t.stack with items := f t.stack.items } }

/-- a thread is changed to what it is changed to, however that is put -/
theorem Machine.onThread_congr {m : Machine} {th : ThreadId} {f g : Thread → Thread} (h : f (m.thread th) = g (m.thread th)) :
    m.onThread th f = m.onThread th g := by
  have hsame : m.threads.modify th f = m.threads.modify th g := by
    refine Array.ext_getElem? fun i => ?_
    rw [Array.getElem?_modify, Array.getElem?_modify]
    split
    · rename_i heq
      subst heq
      cases ht : m.threads[th]? with
      | none => rfl
      | some t =>
        rw [Machine.thread, ht] at h
        exact congrArg some h
    · rfl
  unfold Machine.onThread
  rw [hsame]

namespace Tandem

open Machine (Corr)
open Simulation (InStep Sim QuietSim Later Val Code)

variable {th : ThreadId} {same : Bool} {σ τ υ : Tandem th same}

/-! ## The height of the stack -/

/-- the items on the two stacks -/
abbrev items (m : Machine) (th : ThreadId) : List Value := (m.thread th).stack.items.toList

theorem size_eq {m : Machine} (hbeyond : (m.thread th).stack.beyond = 0) :
    (m.thread th).stack.size = (m.thread th).stack.items.size := by
  rw [Stack.size, hbeyond, Nat.add_zero]

theorem items_size (σ : Tandem th same) : (σ.left.thread th).stack.items.size = (σ.right.thread th).stack.items.size := by
  have hlen := σ.alike.items.length_eq
  rwa [Array.length_toList, Array.length_toList] at hlen

theorem stackSize_eq (σ : Tandem th same) : (σ.left.thread th).stack.size = (σ.right.thread th).stack.size := by
  rw [size_eq σ.fits.readable, size_eq σ.fits'.readable, items_size]

theorem stackSize_sim (σ : Tandem th same) : Sim σ (Act.stackSize th) (Act.stackSize th) fun τ n n' =>
    τ = σ ∧ n = n' ∧ n = (σ.left.thread th).stack.items.size := by
  refine .read (a := (σ.left.thread th).stack.size) (b := (σ.right.thread th).stack.size) rfl rfl ⟨rfl, σ.stackSize_eq, ?_⟩
  exact size_eq σ.fits.readable

theorem stackId_sim (σ : Tandem th same) : Sim σ (Act.stackId th) (Act.stackId th) fun τ n n' => τ = σ ∧ n = n' :=
  .read (a := (σ.left.thread th).stack.id) (b := (σ.right.thread th).stack.id) rfl rfl ⟨rfl, σ.alike.id⟩

/-! ## Other items -/

/-- other items on both stacks -/
def stacking (σ : Tandem th same) (xs xs' : Array Value)
    (hxs : List.Forall₂ (Value.Like (Corr σ.left σ.right)) xs.toList xs'.toList) : Tandem th same :=
  σ.onThread th σ.isOpen (Thread.stacking fun _ => xs) (Thread.stacking fun _ => xs') { σ.alike with items := hxs }
    { σ.fits with } { σ.fits' with } fun hsame => by
      rw [Array.toList_inj.1 (values_eq hsame (hxs.imp fun _ _ => .inl))]

theorem stacking_balanced (σ : Tandem th same) (xs xs' : Array Value)
    (hxs : List.Forall₂ (Value.Like (Corr σ.left σ.right)) xs.toList xs'.toList) : Balanced σ (σ.stacking xs xs' hxs) :=
  ⟨Machine.keeps_onThread σ.isOpen σ.isOpen List.prefix_rfl rfl, Machine.keeps_onThread σ.isOpen' σ.isOpen' List.prefix_rfl rfl⟩

theorem items_stacking {m : Machine} (ho : (m.thread th).isOpen = true) (f : Array Value → Array Value) :
    items (m.onThread th (Thread.stacking f)) th = (f (m.thread th).stack.items).toList := by
  rw [items, Machine.thread_onThread ho, if_pos rfl]
  rfl

/-- actions that put other items on both stacks -/
theorem stacking_sim {x y : Act Unit} (f f' : Array Value → Array Value)
    (hf : List.Forall₂ (Value.Like (Corr σ.left σ.right)) (f (σ.left.thread th).stack.items).toList
      (f' (σ.right.thread th).stack.items).toList)
    (hx : x.run σ.left = .ok () (σ.left.onThread th (Thread.stacking f)))
    (hy : y.run σ.right = .ok () (σ.right.onThread th (Thread.stacking f'))) :
    Sim σ x y fun τ _ _ => items τ.left th = (f (σ.left.thread th).stack.items).toList ∧
      items τ.right th = (f' (σ.right.thread th).stack.items).toList := by
  have hset (m : Machine) (f : Array Value → Array Value) : m.onThread th (Thread.stacking f) =
      m.onThread th (Thread.stacking fun _ => f (m.thread th).stack.items) := Machine.onThread_congr rfl
  rw [hset] at hx hy
  exact done (σ.stacking _ _ hf) (σ.stacking_balanced _ _ hf) hx hy ⟨items_stacking σ.isOpen _, items_stacking σ.isOpen' _⟩

theorem forall₂_push {α β : Type} {R : α → β → Prop} {xs : Array α} {ys : Array β} (h : List.Forall₂ R xs.toList ys.toList)
    {x : α} {y : β} (hxy : R x y) : List.Forall₂ R (xs.push x).toList (ys.push y).toList := by
  rw [Array.toList_push, Array.toList_push]
  exact List.rel_append h (.cons hxy .nil)

theorem forall₂_shrink {α β : Type} {R : α → β → Prop} {xs : Array α} {ys : Array β} (h : List.Forall₂ R xs.toList ys.toList)
    (n : Nat) : List.Forall₂ R (xs.shrink n).toList (ys.shrink n).toList := by
  rw [Array.toList_shrink, Array.toList_shrink]
  exact List.forall₂_take n h

/-- what is pushed on both sides goes to one slot -/
theorem push_sim {v v' : Value} (hv : v.Like (Corr σ.left σ.right) v') :
    Sim σ (Act.push th v) (Act.push th v') fun τ r r' => r.Leads τ.Kept r' ∧
      items τ.left th = items σ.left th ++ [v] ∧ items τ.right th = items σ.right th ++ [v'] := by
  unfold Act.push
  refine Sim.get ?_
  simp only [Simulation.left, Simulation.right, ← σ.stackSize_eq, ← σ.alike.id, ← σ.alike.capacity]
  split
  · exact (note_sim σ (e := .overflowed) (by simp)).sim.bind fun _ _ _ _ _ => .raise (.bare ⟨by simp, by simp, by simp⟩)
  · refine (stacking_sim (·.push v) (·.push v') (forall₂_push σ.alike.items hv) rfl rfl).bind
      fun τ _ _ _ hτ => .pure ⟨.stack _ _, ?_, ?_⟩
    · rw [hτ.1, Array.toList_push]
    · rw [hτ.2, Array.toList_push]

theorem run_dropSlots {m : Machine} (hbeyond : (m.thread th).stack.beyond = 0) (n : Nat) :
    (Act.dropSlots th n).run m = .ok () (m.onThread th (Thread.stacking fun items =>
      if items.size < n then items else items.shrink (items.size - n))) := by
  have hread : (Act.stackBeyond th).run m = .ok 0 m := by
    change EStateM.Result.ok (m.thread th).stack.beyond m = _
    rw [hbeyond]
  unfold Act.dropSlots
  rw [Act.bind_ok hread]
  have hthread : m.onThread th (fun t => if t.stack.size < n then t
      else { t with stack := { t.stack with items := t.stack.items.shrink (t.stack.items.size - n) } }) =
      m.onThread th (Thread.stacking fun items => if items.size < n then items else items.shrink (items.size - n)) := by
    refine Machine.onThread_congr ?_
    unfold Thread.stacking
    rw [size_eq hbeyond]
    by_cases hlt : (m.thread th).stack.items.size < n
    · simp [hlt]
    · simp [hlt]
  exact congrArg (EStateM.Result.ok ()) hthread

theorem dropSlots_sim (σ : Tandem th same) (n : Nat) :
    Sim σ (Act.dropSlots th n) (Act.dropSlots th n) fun _ _ _ => True := by
  refine Sim.mono (stacking_sim _ _ ?_ (run_dropSlots σ.fits.readable n) (run_dropSlots σ.fits'.readable n)) fun _ _ _ _ _ => trivial
  simp only [items_size]
  split
  · exact σ.alike.items
  · exact forall₂_shrink σ.alike.items _

theorem run_dropAbove {m : Machine} (hbeyond : (m.thread th).stack.beyond = 0) (base : Nat) :
    (Act.dropAbove th base).run m = .ok () (m.onThread th (Thread.stacking (·.shrink base))) := by
  have hread : (Act.stackBeyond th).run m = .ok 0 m := by
    change EStateM.Result.ok (m.thread th).stack.beyond m = _
    rw [hbeyond]
  unfold Act.dropAbove
  rw [Act.bind_ok hread]
  rfl

theorem dropAbove_sim (σ : Tandem th same) (base : Nat) :
    Sim σ (Act.dropAbove th base) (Act.dropAbove th base) fun _ _ _ => True :=
  Sim.mono (stacking_sim (·.shrink base) (·.shrink base) (forall₂_shrink σ.alike.items base)
    (run_dropAbove σ.fits.readable base) (run_dropAbove σ.fits'.readable base)) fun _ _ _ _ _ => trivial

/-! ## Laying arguments on the stack -/

/-- arguments that stand for each other for good; `text` for forms -/
structure Item (text : Bool) (σ : Tandem th same) (v v' : Value) : Prop where
  val : Val σ v v'
  isText : text = true → v.IsText σ.left.heap

theorem Item.later {text : Bool} {v v' : Value} (hle : Later σ τ) (h : Item text σ v v') : Item text τ v v' where
  val := h.val.later hle
  isText ht := hle.runnable h.val (h.isText ht)

theorem Item.unset (text : Bool) (σ : Tandem th same) : Item text σ .unset .unset := ⟨.unset, fun _ => trivial⟩

/-- between two situations items have been laid on top of both stacks -/
def Laid (text : Bool) (σ τ : Tandem th same) : Prop :=
  ∃ vs vs', items τ.left th = items σ.left th ++ vs ∧ items τ.right th = items σ.right th ++ vs' ∧
    List.Forall₂ (Item text τ) vs vs'

namespace Laid

variable {text : Bool}

theorem refl (text : Bool) (σ : Tandem th same) : Laid text σ σ :=
  ⟨[], [], (List.append_nil _).symm, (List.append_nil _).symm, .nil⟩

theorem of_quiet (hq : Quiet σ τ) : Laid text σ τ := by
  refine ⟨[], [], ?_, ?_, .nil⟩
  · rw [items, hq.adds.stack, List.append_nil]
  · rw [items, hq.adds'.stack, List.append_nil]

theorem trans (h : Laid text σ τ) (hle : Later τ υ) (h' : Laid text τ υ) : Laid text σ υ := by
  obtain ⟨vs, vs', hl, hr, hvs⟩ := h
  obtain ⟨ws, ws', hl', hr', hws⟩ := h'
  refine ⟨vs ++ ws, vs' ++ ws', ?_, ?_, List.rel_append (hvs.imp fun _ _ h => h.later hle) hws⟩
  · rw [hl', hl, List.append_assoc]
  · rw [hr', hr, List.append_assoc]

end Laid

theorem push_item {text : Bool} {v v' : Value} (hv : Item text σ v v') :
    Sim σ (Act.push_ th v) (Act.push_ th v') fun τ _ _ => Laid text σ τ := by
  unfold Act.push_
  refine (push_sim hv.val.live).bind fun τ _ _ hτ h => .pure ?_
  exact ⟨[v], [v'], h.2.1, h.2.2, .cons (hv.later hτ) .nil⟩

theorem forall₂_isEmpty {α β : Type} {R : α → β → Prop} {xs : List α} {ys : List β} (h : List.Forall₂ R xs ys) :
    xs.isEmpty = ys.isEmpty := by cases h <;> rfl

theorem optionRel_isSome {α β : Type} {R : α → β → Prop} {o : Option α} {o' : Option β} (h : Option.Rel R o o') :
    o.isSome = o'.isSome := by cases h <;> rfl

section

variable {text : Bool} {args args' : List Value}

theorem pushRequired_sim {ps ps' : List Handle} (hps : List.Forall₂ (σ.Kept .symbol) ps ps')
    (hargs : List.Forall₂ (Item text σ) args args') :
    Sim σ (Act.pushRequired th ps args) (Act.pushRequired th ps' args') fun τ rest rest' =>
      Laid text σ τ ∧ List.Forall₂ (Item text τ) rest rest' := by
  induction ps generalizing σ ps' args args' with
  | nil => cases hps; exact .pure ⟨.refl text σ, hargs⟩
  | cons p ps ih =>
    cases hps with
    | cons hp hps =>
      cases hargs with
      | nil => exact .pure ⟨.refl text σ, .nil⟩
      | cons hv hargs =>
        unfold Act.pushRequired
        refine (push_item hv).bind fun τ _ _ hτ hlaid => ?_
        refine Sim.mono (ih (hps.imp fun _ _ h => hτ.kept h) (hargs.imp fun _ _ h => h.later hτ)) ?_
        exact fun υ _ _ hυ h => ⟨hlaid.trans hυ h.1, h.2⟩

theorem pushOptional_sim {ps ps' : List Handle} (hps : List.Forall₂ (σ.Kept .symbol) ps ps')
    (hargs : List.Forall₂ (Item text σ) args args') :
    Sim σ (Act.pushOptional th ps args) (Act.pushOptional th ps' args') fun τ rest rest' =>
      Laid text σ τ ∧ List.Forall₂ (Item text τ) rest rest' := by
  induction ps generalizing σ ps' args args' with
  | nil => cases hps; exact .pure ⟨.refl text σ, hargs⟩
  | cons p ps ih =>
    cases hps with
    | cons hp hps =>
      cases hargs with
      | nil =>
        unfold Act.pushOptional
        refine (push_item (.unset text σ)).bind fun τ _ _ hτ hlaid => ?_
        exact Sim.mono (ih (hps.imp fun _ _ h => hτ.kept h) .nil) fun υ _ _ hυ h => ⟨hlaid.trans hυ h.1, h.2⟩
      | cons hv hargs =>
        unfold Act.pushOptional
        refine (push_item hv).bind fun τ _ _ hτ hlaid => ?_
        refine Sim.mono (ih (hps.imp fun _ _ h => hτ.kept h) (hargs.imp fun _ _ h => h.later hτ)) ?_
        exact fun υ _ _ hυ h => ⟨hlaid.trans hυ h.1, h.2⟩

theorem pushKeys_sim {given given' : List (Handle × Value)} (hgiven : Simulation.Given σ (Item text σ) given given')
    {ks ks' : List Handle} (hks : List.Forall₂ (σ.Kept .symbol) ks ks') :
    Sim σ (Act.pushKeys th given ks) (Act.pushKeys th given' ks') fun τ _ _ => Laid text σ τ := by
  induction ks generalizing σ ks' with
  | nil => cases hks; exact .pure (.refl text σ)
  | cons k ks ih =>
    cases hks with
    | cons hk hks =>
      unfold Act.pushKeys
      refine (Sim.of_quiet (Simulation.keyOf_sim hk)).bind fun τ key key' hτ hkey => ?_
      have hgiven := hgiven.later hτ fun _ _ h => h.later hτ
      refine (push_item (hgiven.lookup (.unset text τ) hkey.2)).bind fun υ _ _ hυ hlaid => ?_
      refine Sim.mono (ih (hgiven.later hυ fun _ _ h => h.later hυ) (hks.imp fun _ _ h => hυ.kept (hτ.kept h))) ?_
      exact fun φ _ _ hφ h => (Laid.of_quiet hkey.1).trans (hυ.trans hφ) (hlaid.trans hφ h)

/-- a list of arguments that are left -/
theorem newListOf_item (hargs : List.Forall₂ (Item text σ) args args') :
    QuietSim σ (Act.newListOf th text args) (Act.newListOf th text args') (Item text) := by
  cases text with
  | true =>
    refine InStep.mono (Simulation.newListOf_code (hargs.imp fun _ _ h => ⟨h.val, h.isText rfl⟩)) (fun _ => id)
      (fun _ _ _ _ => id) fun _ _ _ _ h => ⟨h.1, fun _ => h.2⟩
  | false =>
    refine InStep.mono (Simulation.newListOf_val (hargs.imp fun _ _ h => h.val)) (fun _ => id)
      (fun _ _ _ _ => id) fun _ _ _ _ h => ⟨h, by simp⟩

theorem pushArgs_sim {p p' : Params} (hp : p.Like σ.Kept p') (hargs : List.Forall₂ (Item text σ) args args') :
    Sim σ (Act.pushArgs th text p args) (Act.pushArgs th text p' args') fun τ _ _ => Laid text σ τ := by
  have hmiscounted {α : Type} {τ : Tandem th same} {Q : Tandem th same → α → α → Prop} (hτ : Later σ τ) :
      Sim τ (Act.raiseError th .argCount p.source (Act.int32 args'.length))
        (Act.raiseError th .argCount p'.source (Act.int32 args'.length)) Q :=
    Simulation.raiseError_sim .argCount (Val.later hτ hp.source).live (.int _)
  -- the keys, or what is left over
  have hend {τ : Tandem th same} (hτ : Later σ τ) (hlaid : Laid text σ τ) {rest rest' : List Value}
      (hrest : List.Forall₂ (Item text τ) rest rest') :
      Sim τ (if p.keys.isEmpty then
          if p.rest.isNone && !rest.isEmpty then Act.raiseError th .argCount p.source (Act.int32 args'.length) else pure ()
        else do Act.pushKeys th (← Act.keyedArgs th rest []) p.keys)
        (if p'.keys.isEmpty then
          if p'.rest.isNone && !rest'.isEmpty then Act.raiseError th .argCount p'.source (Act.int32 args'.length) else pure ()
        else do Act.pushKeys th (← Act.keyedArgs th rest' []) p'.keys) fun υ _ _ => Laid text σ υ := by
    rw [forall₂_isEmpty hp.keys, ← Option.not_isSome, optionRel_isSome hp.rest, Option.not_isSome, forall₂_isEmpty hrest]
    split
    · split
      · exact hmiscounted hτ
      · exact .pure hlaid
    · refine (Simulation.keyedArgs_sim (fun _ _ h => h.val) hrest .nil).bind ?_
      rintro υ given given' _ ⟨rfl, hgiven⟩
      refine Sim.mono (pushKeys_sim hgiven (hp.keys.imp fun _ _ h => hτ.kept h)) fun φ _ _ hφ h => ?_
      exact hlaid.trans hφ h
  unfold Act.pushArgs
  simp only [hargs.length_eq, hp.required.length_eq]
  split
  · exact (hmiscounted (.refl σ) (Q := fun _ _ _ => False)).bind fun _ _ _ _ h => h.elim
  · refine (pushRequired_sim hp.required hargs).bind fun τ₁ rest₁ rest₁' hτ₁ h₁ => ?_
    refine (pushOptional_sim (hp.optional.imp fun _ _ h => hτ₁.kept h) h₁.2).bind fun τ₂ rest rest' hτ₂ h₂ => ?_
    have hτ := hτ₁.trans hτ₂
    have hlaid := h₁.1.trans hτ₂ h₂.1
    rw [optionRel_isSome hp.rest]
    split
    · refine (Sim.of_quiet (newListOf_item h₂.2)).bind fun τ₃ list list' hτ₃ hlist => ?_
      refine (push_item hlist.2).bind fun τ₄ _ _ hτ₄ hpushed => ?_
      have hlater := hτ₃.trans hτ₄
      refine hend (hτ.trans hlater) ?_ (h₂.2.imp fun _ _ h => h.later hlater)
      exact (hlaid.trans hτ₃ (.of_quiet hlist.1)).trans hτ₄ hpushed
    · exact hend hτ hlaid h₂.2

/-- the values of a frame are what was laid there -/
theorem frameValues_sim (hlaid : Laid text σ τ) {base : Nat} (hbase : base = (σ.left.thread th).stack.items.size) (n : Nat) :
    Sim τ (Act.frameValues th base n) (Act.frameValues th base n) fun υ vs vs' =>
      υ = τ ∧ List.Forall₂ (Item text τ) vs vs' := by
  obtain ⟨vs, vs', hl, hr, hvs⟩ := hlaid
  refine .read rfl rfl ⟨rfl, ?_⟩
  rw [List.forall₂_map_left_iff, List.forall₂_map_right_iff, List.forall₂_same]
  intro i _
  have hitem (i : Nat) : Item text τ ((vs[i]?).getD .unset) ((vs'[i]?).getD .unset) := by
    clear hl hr
    induction hvs generalizing i with
    | nil => exact .unset text τ
    | cons hv _ ih =>
      cases i with
      | zero => exact hv
      | succ i => exact ih i
  have hget {m m₀ : Machine} {ws : List Value} (h : items m th = items m₀ th ++ ws)
      (hbase : base = (m₀.thread th).stack.items.size) : (m.thread th).stack.get (base + i) = (ws[i]?).getD .unset := by
    unfold items at h
    rw [Stack.get, ← Array.getElem?_toList, h, List.getElem?_append_right (by simp [hbase])]
    simp [hbase]
  change Item text τ ((τ.left.thread th).stack.get (base + i)) ((τ.right.thread th).stack.get (base + i))
  rw [hget hl hbase, hget hr (hbase.trans σ.items_size)]
  exact hitem i

end

/-! ## Temporary bindings -/

theorem pushAll_sim {vs vs' refs refs' : List Value} (hvs : List.Forall₂ (Val σ) vs vs')
    (hrefs : List.Forall₂ (Value.Leads σ.Kept) refs refs') :
    Sim σ (Act.pushAll th vs refs) (Act.pushAll th vs' refs') fun τ rs rs' => List.Forall₂ (Value.Leads τ.Kept) rs rs' := by
  induction vs generalizing σ vs' refs refs' with
  | nil => cases hvs; exact .pure (List.rel_reverse hrefs)
  | cons v vs ih =>
    cases hvs with
    | cons hv hvs =>
      unfold Act.pushAll
      refine (push_sim hv.live).bind fun τ r r' hτ hr => ?_
      exact ih (hvs.imp fun _ _ h => h.later hτ) (.cons hr.1 (hrefs.imp fun _ _ h => hτ.placed h))

/-- temporary bindings with the scope entered and left around the action -/
theorem withBindings_eq {α : Type} (th : ThreadId) (syms : List Handle) (vals : List Value) (x : Act α) (m : Machine) :
    (Act.withBindings th syms vals x).run m = (do
      let base ← Act.stackSize th
      match ← Act.attempt (Act.pushAll th vals []) with
      | .error c =>
        let pushed := (← Act.stackSize th) - base
        Act.andThen (do Act.raise (.object (← Act.asError th c))) (Act.dropSlots th pushed)
      | .ok refs =>
        let scope ← Act.onFailure (do Act.newTransient th (.scope (← Act.currentScope th)) syms refs)
          (Act.dropSlots th vals.length)
        Act.andThen (Act.inScope th scope x) (Act.dropSlots th vals.length) : Act α).run m := by
  unfold Act.withBindings Act.enterBindings Act.inScope Act.andThen Act.onFailure
  have hsize (m : Machine) : (Act.stackSize th).run m = .ok (m.thread th).stack.size m := rfl
  have henter (scope : Handle) (m : Machine) : ∃ m', (Act.enterScope th scope).run m = .ok () m' := ⟨_, rfl⟩
  simp only [Act.run_bind, hsize]
  cases (Act.attempt (Act.pushAll th vals [])).run m with
  | error e m₁ => rfl
  | ok r m₁ =>
    cases r with
    | error c =>
      simp only [Act.run_bind, Act.run_observe, hsize]
      cases (Act.asError th c).run m₁ with
      | error e m₂ =>
        simp only
        cases (Act.dropSlots th _).run m₂ <;> rfl
      | ok e m₂ =>
        simp only [Act.run_raise]
        cases (Act.dropSlots th _).run m₂ <;> rfl
    | ok refs =>
      simp only [Act.run_bind, Act.run_observe]
      cases (Act.currentScope th).run m₁ with
      | error e m₂ =>
        simp only [Act.run_bind]
        cases (Act.dropSlots th _).run m₂ <;> rfl
      | ok outer m₂ =>
        simp only
        cases (Act.newTransient th (.scope outer) syms refs).run m₂ with
        | error e m₃ =>
          simp only [Act.run_bind]
          cases (Act.dropSlots th _).run m₃ <;> rfl
        | ok scope m₃ =>
          obtain ⟨m₄, hm₄⟩ := henter scope m₃
          simp only [Act.run_pure, Act.run_bind, Act.run_observe, hm₄, Act.leaveBindings, Act.andThen]
          cases x.run m₄ with
          | error e m₅ =>
            simp only
            cases (Act.leaveScope th scope).run m₅ with
            | error e m₆ => simp only; cases (Act.dropSlots th _).run m₆ <;> rfl
            | ok _ m₆ =>
              simp only [Act.settle, Act.run_pure, Act.run_throw]
              cases (Act.dropSlots th _).run m₆ <;> rfl
          | ok a m₅ =>
            simp only
            cases (Act.leaveScope th scope).run m₅ with
            | error e m₆ => simp only; cases (Act.dropSlots th _).run m₆ <;> rfl
            | ok _ m₆ =>
              simp only [Act.settle, Act.run_pure]
              cases (Act.dropSlots th _).run m₆ <;> rfl

theorem withBindings_sim {α β : Type} {Q : Tandem th same → α → β → Prop} {syms syms' : List Handle} {vals vals' : List Value}
    (hsyms : List.Forall₂ (σ.Kept .symbol) syms syms') (hvals : List.Forall₂ (Val σ) vals vals') {x : Act α} {y : Act β}
    (hx : ∀ τ, Later σ τ → Sim τ x y Q) (hQ : ∀ τ υ a b, Later τ υ → Q τ a b → Q υ a b) :
    Sim σ (Act.withBindings th syms vals x) (Act.withBindings th syms' vals' y) Q := by
  have hdrop {γ δ : Type} {P : Tandem th same → γ → δ → Prop} {τ : Tandem th same} {z : Act γ} {w : Act δ} (n : Nat)
      (hz : Sim τ z w P) (hP : ∀ τ υ a b, Later τ υ → P τ a b → P υ a b) :
      Sim τ (Act.andThen z (Act.dropSlots th n)) (Act.andThen w (Act.dropSlots th n)) P :=
    Sim.andThen hz (fun υ _ => dropSlots_sim υ n) hP
  unfold Simulation.Sim Simulation.InStep
  rw [withBindings_eq, withBindings_eq]
  change Sim σ _ _ Q
  refine (stackSize_sim σ).bind ?_
  rintro τ base _ _ ⟨rfl, rfl, -⟩
  refine (Sim.attempt (pushAll_sim hvals .nil)).bind fun υ r r' hυ hr => ?_
  cases hr with
  | error hc =>
    refine (stackSize_sim υ).bind ?_
    rintro υ size _ _ ⟨rfl, rfl, -⟩
    cases hc with
    | raised hc =>
      refine hdrop _ ?_ hQ
      exact (Simulation.asError_sim hc).bind fun _ _ _ _ he => .raise (.object he)
  | @ok refs refs' hrefs =>
    have hmade : Sim υ
        (Act.onFailure (do Act.newTransient th (.scope (← Act.currentScope th)) syms refs) (Act.dropSlots th vals.length))
        (Act.onFailure (do Act.newTransient th (.scope (← Act.currentScope th)) syms' refs') (Act.dropSlots th vals'.length))
        fun φ h h' => φ.Kept .scope h h' := by
      rw [hvals.length_eq]
      unfold Act.onFailure
      refine Sim.bind (Sim.observe (Q := fun φ h h' => φ.Kept .scope h h') ?_) fun φ r r' _ hr => ?_
      · refine (currentScope_sim υ).bind ?_
        rintro φ h h' hφ ⟨rfl, hk⟩
        exact newTransient_sim (.scope hk) (hsyms.imp fun _ _ h => hφ.kept (hυ.kept h)) hrefs
      · cases hr with
        | ok hk => exact .pure hk
        | error he => exact (dropSlots_sim φ _).bind fun _ _ _ hψ _ => .throw (he.later hψ)
    refine hmade.bind fun φ h h' hφ hk => ?_
    rw [hvals.length_eq]
    exact hdrop _ (inScope_sim hk (fun ψ hψ => hx ψ ((hυ.trans hφ).trans hψ)) hQ) hQ

end Tandem

end LispMachine
