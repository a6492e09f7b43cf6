/-
Steps of a machine.

Whatever an action does, it does in steps of a few kinds: an object is made, a symbol is made and listed under its name, a pair,
a box or a scope gets other contents, objects are marked, a pass is taken, or something changes that is neither an object nor a
symbol. `Machine.Step` lists them with what each of them asks for. `Machine.Move` says more of the steps that are no passes: what
they leave of the collector. A run is moves and completed passes, and `Machine.Takes` lists these passes.

`Act.Walks` says of an action that it goes by such a run from wherever it starts, however it ends. What no step breaks holds
throughout a run.

Actions that build go by steps (`Goes.allowsBuilding`). Here are the others on objects, stacks and scopes: those that store, take
a pass, or change threads, and what is made of them.
-/
import LispMachine.Proofs.Building

namespace LispMachine

namespace Machine

/-- one change of a machine, as far as its objects and its symbols go -/
inductive Step : Machine → Machine → Prop where
  /-- objects and symbols stay as they are -/
  | beside {m m' : Machine} : m'.heap = m.heap → m'.symbols = m.symbols → m.gensyms ≤ m'.gensyms → Step m m'
  /-- a new object that is no symbol -/
  | allocate (m : Machine) (c : Cell) (text : Bool) : c.kind ≠ .symbol → m.heap.isFull = false →
      Step m { m with heap := m.heap.insert c m.collector.epoch text }
  /-- a new symbol under a name that is not taken -/
  | intern (m : Machine) (name : String) : m.symbols.lookup name = none → m.heap.isFull = false →
      Step m { m with heap := m.heap.insert (.symbol name) m.collector.epoch false,
                      symbols := (name, m.heap.nextHandle) :: m.symbols }
  /-- new contents for a pair, a box or a scope -/
  | write (m : Machine) {h : Handle} {old : Cell} (new : Cell) : m.cell? h = some old → new.kind = old.kind →
      old.kind = .cons ∨ old.kind = .box ∨ old.kind = .scope → Step m { m with heap := m.heap.write h new }
  /-- objects are marked outside a pass -/
  | mark (m : Machine) (work : List Handle) : Step m { m with heap := m.heap.mark m.collector.epoch work }
  /-- a pass -/
  | pass (m : Machine) : Step m { m with
      heap := ((m.heap.mark (m.collector.epoch + 1) m.markingStart).sweep (m.collector.epoch + 1)).1 }
  /-- a limit on the heap, and its end -/
  | restrict (m : Machine) (n : Nat) : Step m { m with heap := (m.heap.restrict n).2 }
  | relax (m : Machine) (q : Quota) : Step m { m with heap := m.heap.relax q }

/-- what a run changes, step after step -/
def Steps : Machine → Machine → Prop := Relation.ReflTransGen Step

/-! ## Runs and their passes -/

/-- one change of a machine that is no pass, as far as its objects, its symbols and its collector go -/
inductive Move : Machine → Machine → Prop where
  /-- objects, symbols and what the collector keeps of its passes stay as they are -/
  | beside {m m' : Machine} : m'.heap = m.heap → m'.symbols = m.symbols → m.gensyms ≤ m'.gensyms →
      m'.collector = { m.collector with running := m'.collector.running } → Move m m'
  | allocate (m : Machine) (c : Cell) (text : Bool) : c.kind ≠ .symbol → m.heap.isFull = false →
      Move m { m with heap := m.heap.insert c m.collector.epoch text }
  | intern (m : Machine) (name : String) : m.symbols.lookup name = none → m.heap.isFull = false →
      Move m { m with heap := m.heap.insert (.symbol name) m.collector.epoch false,
                      symbols := (name, m.heap.nextHandle) :: m.symbols }
  | write (m : Machine) {h : Handle} {old : Cell} (new : Cell) : m.cell? h = some old → new.kind = old.kind →
      old.kind = .cons ∨ old.kind = .box ∨ old.kind = .scope → Move m { m with heap := m.heap.write h new }
  | mark (m : Machine) (work : List Handle) : Move m { m with heap := m.heap.mark m.collector.epoch work }
  | restrict (m : Machine) (n : Nat) : Move m { m with heap := (m.heap.restrict n).2 }
  | relax (m : Machine) (q : Quota) : Move m { m with heap := m.heap.relax q }
  /-- a least threshold is configured -/
  | minimum (m : Machine) (n : Int) : Move m { m with collector := m.collector.setMinThreshold n }
  /-- a pass that cannot read its roots stays in its first phase -/
  | broken {m m' : Machine} : m.brokenStack?.isSome → m'.heap = m.heap → m'.symbols = m.symbols → m.gensyms ≤ m'.gensyms →
      m'.collector = { m.collector with epoch := m.collector.epoch + 1, marking := true, phase := .marking } → Move m m'

/-- a pass that was completed: the machine that it began on, the machine that it left and its record -/
structure Taken where
  before : Machine
  after : Machine
  record : Pass

/-- a run from one machine to another, and the passes that are completed on the way -/
inductive Takes (start : Machine) : List Taken → Machine → Prop where
  | refl : Takes start [] start
  | move {log : List Taken} {m m' : Machine} : Takes start log m → m.Move m' → Takes start log m'
  | pass {log : List Taken} {m m' : Machine} {t : Trigger} {p : Pass} : Takes start log m →
      (Act.collect t).run m = .ok p m' → Takes start (log ++ [⟨m, m', p⟩]) m'

/-- a run, whatever passes are completed on the way -/
def Goes (m m' : Machine) : Prop := ∃ log, m.Takes log m'

variable {m m' m'' : Machine}

theorem Move.noted (m : Machine) (e : Event) : m.Move { m with journal := e :: m.journal } := .beside rfl rfl le_rfl rfl

theorem Move.step (h : m.Move m') : m.Step m' := by
  cases h with
  | beside hheap hsymbols hgensyms _ => exact .beside hheap hsymbols hgensyms
  | allocate c text hc hroom => exact .allocate m c text hc hroom
  | intern name hnew hroom => exact .intern m name hnew hroom
  | write new hold hkind hopen => exact .write m new hold hkind hopen
  | mark work => exact .mark m work
  | restrict n => exact .restrict m n
  | relax q => exact .relax m q
  | minimum n => exact .beside rfl rfl le_rfl
  | broken _ hheap hsymbols hgensyms _ => exact .beside hheap hsymbols hgensyms

/-- a pass is one step, between what is noted of it before and after -/
theorem steps_collect (t : Trigger) (m : Machine) : m.Steps (Outcome.machine ((Act.collect t).run m)) := by
  have hbroken : brokenStack? { m with journal := .passed t :: m.journal } = m.brokenStack? := rfl
  simp only [Act.collect, Act.checkRoots, Act.run_bind, Act.run_note, Act.run_get, hbroken]
  cases m.brokenStack? with
  | some s => exact .single (.beside rfl rfl le_rfl)
  | none => exact .head (.pass m) (.single (.beside rfl rfl le_rfl))

namespace Takes

variable {log log' : List Taken}

theorem trans (h₁ : m.Takes log m') (h₂ : m'.Takes log' m'') : m.Takes (log ++ log') m'' := by
  induction h₂ with
  | refl => rwa [List.append_nil]
  | move _ hmove ih => exact ih.move hmove
  | pass _ hrun ih => exact List.append_assoc .. ▸ ih.pass hrun

theorem steps (h : m.Takes log m') : m.Steps m' := by
  induction h with
  | refl => exact .refl
  | move _ hmove ih => exact ih.tail hmove.step
  | @pass _ m₁ _ t p _ hrun ih =>
    have hpass := steps_collect t m₁
    rw [hrun] at hpass
    exact ih.trans hpass

end Takes

namespace Goes

theorem refl : m.Goes m := ⟨[], .refl⟩

theorem single (h : m.Move m') : m.Goes m' := ⟨[], .move .refl h⟩

theorem trans (h₁ : m.Goes m') (h₂ : m'.Goes m'') : m.Goes m'' :=
  have ⟨_, h₁⟩ := h₁
  have ⟨_, h₂⟩ := h₂
  ⟨_, h₁.trans h₂⟩

theorem head (h₁ : m.Move m') (h₂ : m'.Goes m'') : m.Goes m'' := (single h₁).trans h₂

theorem steps (h : m.Goes m') : m.Steps m' := have ⟨_, h⟩ := h; h.steps

instance allowsBuilding : AllowsBuilding Goes where
  refl _ := refl
  trans := trans
  noted m e := single (.noted m e)
  pinned _ _ _ := single (.beside rfl rfl le_rfl rfl)
  allocate m c text hsymbol _ hroom := single (.allocate m c text hsymbol hroom)
  intern m name hnew hroom := single (.intern m name hnew hroom)

end Goes

end Machine

namespace Act

open Machine

variable {α β : Type} {m m' : Machine} {th : ThreadId}

/-- an action that goes by steps, wherever it starts and however it ends -/
abbrev Walks (x : Act α) : Prop := Obeys Machine.Goes x

namespace Walks

variable {x : Act α} {f : α → Act β}

theorem goes [Walks x] (m : Machine) : m.Goes (Outcome.machine (x.run m)) := Obeys.leads m

theorem steps [Walks x] (m : Machine) : m.Steps (Outcome.machine (x.run m)) := (Walks.goes m).steps

theorem of_move (h : ∀ m, Machine.Move m (Outcome.machine (x.run m))) : Walks x := ⟨fun m => .single (h m)⟩

/-- what is changed of a machine is neither objects nor symbols, nor what the collector keeps of its passes -/
theorem modify {g : Machine → Machine} (h : ∀ m, (g m).heap = m.heap ∧ (g m).symbols = m.symbols ∧ m.gensyms ≤ (g m).gensyms ∧
    (g m).collector = { m.collector with running := (g m).collector.running }) : Walks (modify g : Act PUnit) :=
  of_move fun m => .beside (h m).1 (h m).2.1 (h m).2.2.1 (h m).2.2.2

end Walks

instance (f : Thread → Thread) : Walks (modify fun m => m.onThread th f : Act PUnit) := .modify fun _ => ⟨rfl, rfl, le_rfl, rfl⟩

/-! ## Objects -/

instance (s : Scope) : Walks (allocate (.scope s)) where
  leads m := by
    rw [run_allocate]
    cases hfull : m.heap.isFull with
    | true => exact .single (.noted m _)
    | false => exact .single (.allocate m (.scope s) false (by simp [Cell.kind]) hfull)

instance : Walks gensym where
  leads m := by
    have hcount : m.Move { m with gensyms := m.gensyms + 1 } := .beside rfl rfl (Nat.le_succ _) rfl
    exact .head hcount (Walks.goes (x := intern _) _)

/-! ## Passes -/

/-- a pass is completed, or it cannot read its roots -/
instance (t : Trigger) : Walks (collect t) where
  leads m := by
    cases hr : (collect t).run m with
    | ok p m' => exact ⟨_, .pass .refl hr⟩
    | error e m' =>
      have hbroken : brokenStack? { m with journal := .passed t :: m.journal } = m.brokenStack? := rfl
      simp only [collect, checkRoots, run_bind, run_note, run_get, hbroken] at hr
      cases hs : m.brokenStack? with
      | none => rw [hs] at hr; cases hr
      | some s =>
        rw [hs] at hr
        cases hr
        exact .single (.broken (by rw [hs]; rfl) rfl rfl le_rfl rfl)

instance : Walks maybeCollect := by
  unfold maybeCollect
  infer_instance

/-! ## Storing into objects -/

instance (old : Value) : Walks (shade old) where
  leads m := by
    unfold shade
    rw [run_modify]
    cases hmarking : m.collector.marking with
    | false => simpa using .refl
    | true => exact .single (.mark m _)

/-- an object that can be written to gets contents of its kind -/
theorem goes_overwrite {h : Handle} {old : Value} {was is : Cell} (hwas : m.cell? h = some was) (hkind : is.kind = was.kind)
    (hopen : was.kind = .cons ∨ was.kind = .box ∨ was.kind = .scope) :
    m.Goes (Outcome.machine ((overwrite h old is).run m)) :=
  .head (.write m is hwas hkind hopen) (Walks.goes (x := shade old) _)

instance (p : Place) (v : Value) : Walks (store p v) where
  leads m := by
    unfold store
    rw [bind_ok (run_get m)]
    have hmissing : m.Goes (Outcome.machine ((missing p).run m)) := Walks.goes m
    cases p with
    | stack id i =>
      suffices h : Walks _ from h.goes m
      simp only
      split
      · infer_instance
      · split <;> infer_instance
    | box h =>
      simp only
      split
      · rename_i hc
        exact goes_overwrite hc rfl (.inr (.inl rfl))
      · exact hmissing
    | car h =>
      simp only
      split
      · rename_i a d _ _ _ hs
        have hc : m.cell? h = some (.cons a d) := Heap.cell?_of_slot? hs
        rw [bind_ok (run_note ..)]
        exact .head (.noted m _) (goes_overwrite hc rfl (.inl rfl))
      · exact hmissing
    | cdr h =>
      simp only
      split
      · rename_i a d _ _ _ hs
        have hc : m.cell? h = some (.cons a d) := Heap.cell?_of_slot? hs
        rw [bind_ok (run_note ..)]
        exact .head (.noted m _) (goes_overwrite hc rfl (.inl rfl))
      · exact hmissing

instance (r v : Value) : Walks (storeThrough r v) := by
  unfold storeThrough
  split <;> infer_instance

/-! ## Threads -/

instance : Walks (stackOf th) := by
  unfold stackOf
  infer_instance

instance : Walks (stackSize th) := by
  unfold stackSize
  infer_instance

instance : Walks (stackId th) := by
  unfold stackId
  infer_instance

instance : Walks (stackBeyond th) := by
  unfold stackBeyond
  infer_instance

instance (s : Stack) : Walks (setStack th s) := by
  unfold setStack
  infer_instance

instance (id : Nat) (e : StackError) : Walks (stackFailure id e) := by
  unfold stackFailure
  cases e <;> infer_instance

instance (f : Stack → Except StackError α) : Walks (readStack th f) := by
  unfold readStack
  exact .next fun s => by split <;> infer_instance

instance (f : Stack → Except StackError Stack) : Walks (onStack th f) := by
  unfold onStack
  infer_instance

instance (f : Stack → Except StackError α × Stack) : Walks (throughStack th f) := by
  unfold throughStack
  refine .next fun s => ?_
  split
  exact .next fun _ => by split <;> infer_instance

instance (v : Value) : Walks (push th v) := by
  unfold push
  infer_instance

instance : Walks (popRaw th) := by
  unfold popRaw
  infer_instance

instance : Walks (pop th) := by
  unfold pop
  infer_instance

instance (n : Int) : Walks (endFrame th n) := by
  unfold endFrame
  infer_instance

instance (n : Int) : Walks (argReference th n) := by
  unfold argReference
  infer_instance

instance (f : Thread → Prop) [DecidablePred f] (g : Thread → Thread) :
    Walks (modify fun m => m.onThread th fun t => if f t then t else g t : Act PUnit) := inferInstance

instance (n : Nat) : Walks (dropSlots th n) := by
  unfold dropSlots
  infer_instance

instance (base : Nat) : Walks (dropAbove th base) := by
  unfold dropAbove
  infer_instance

instance (base : Nat) (r : Except Failure Value) : Walks (contain th base r) := by
  unfold contain
  split
  · exact .next fun r => by cases r <;> infer_instance
  · infer_instance

instance (pins : Nat) (r : Except Failure Value) : Walks (conclude th pins r) := by
  unfold conclude
  split <;> infer_instance

instance : Walks (openGuard th) := by
  unfold openGuard
  infer_instance

instance (g : Guard) (r : Except Failure Value) : Walks (closeGuard th g r) := by
  unfold closeGuard
  infer_instance

instance Walks.guarded {x : Act Value} [Walks x] : Walks (guarded th x) := by
  unfold Act.guarded
  infer_instance

instance (f : Machine → Array Nat) : Walks (modify fun m => { m with uses := f m } : Act PUnit) :=
  .modify fun _ => ⟨rfl, rfl, le_rfl, rfl⟩

instance (h : Handle) : Walks (useScope h) := by
  unfold useScope
  infer_instance

instance (h : Handle) : Walks (unuseScope h) := by
  unfold unuseScope
  infer_instance

instance (h : Handle) : Walks (enterScope th h) := by
  unfold enterScope
  infer_instance

instance (h : Handle) : Walks (leaveScope th h) := by
  unfold leaveScope
  infer_instance

instance (h : Handle) {x : Act α} [Walks x] : Walks (inScope th h x) := by
  unfold inScope
  infer_instance

instance (h : Handle) : Walks (enterGlobal th h) := by
  unfold enterGlobal
  infer_instance

instance (h old : Handle) : Walks (leaveGlobal th h old) := by
  unfold leaveGlobal
  infer_instance

instance (h : Handle) {x : Act α} [Walks x] : Walks (withGlobal th h x) := by
  unfold withGlobal
  infer_instance

instance : Walks defaultGlobal := by
  unfold defaultGlobal
  refine .next fun m => ?_
  split
  · infer_instance
  · have : ∀ h : Handle, Walks (modify fun m => { m with globalScope := some h } : Act PUnit) := fun h =>
      .modify fun _ => ⟨rfl, rfl, le_rfl, rfl⟩
    infer_instance

instance : Walks takeStackId where
  leads m := by
    unfold takeStackId
    rw [bind_ok (run_get m)]
    split
    · exact .single (.beside rfl rfl le_rfl rfl)
    · split
      · exact .refl
      · exact .single (.beside rfl rfl le_rfl rfl)

instance (capacity : Int) : Walks (openThread capacity) := by
  have (t : Thread) : Walks (modify fun m => { m with threads := m.threads.push t } : Act PUnit) :=
    .modify fun _ => ⟨rfl, rfl, le_rfl, rfl⟩
  unfold openThread
  infer_instance

instance : Walks openDefaultThread := by
  unfold openDefaultThread
  infer_instance

instance {x : β → Act Unit} [hx : ∀ b, Walks (x b)] (bs : List β) : Walks (bs.forM x) := by
  induction bs with
  | nil => exact .pure _
  | cons b bs ih => exact .next fun _ => ih

instance : Walks (closeThread th) := by
  unfold closeThread
  refine .next fun m => ?_
  have : Walks (modify fun m' =>
      let id := (m.thread th).stack.id
      if (m'.stackOwners[id]?).join = some th then
        { m' with stackOwners := m'.stackOwners.setIfInBounds id none, freeStacks := id :: m'.freeStacks }
      else m' : Act PUnit) := .modify fun m' => by dsimp only; split <;> exact ⟨rfl, rfl, le_rfl, rfl⟩
  infer_instance

/-! ## Scopes -/

instance (h : Handle) (f : Scope → Scope) : Walks (onScope h f) where
  leads m := by
    unfold onScope
    rw [run_modify]
    split
    · rename_i s hs
      exact .single (.write m (.scope (f s)) hs rfl (.inr (.inr rfl)))
    · exact .refl

instance (name parent : Option Handle) : Walks (newScope th name parent) := by
  unfold newScope
  infer_instance

instance (parent : Outer) (syms : List Handle) (refs : List Value) : Walks (newTransient th parent syms refs) := by
  unfold newTransient
  infer_instance

instance (scope sym : Handle) (v : Value) (overwrite : Bool) : Walks (bindIn scope sym v overwrite) := by
  unfold bindIn
  exact .next fun m => by split <;> infer_instance

instance (scope sym : Handle) (v : Value) : Walks (bind scope sym v) := by
  unfold Act.bind
  infer_instance

instance (scope sym : Handle) : Walks (bindingIn scope sym) := by
  unfold bindingIn
  infer_instance

instance (scope sym : Handle) : Walks (bindingFrom scope sym) := by
  unfold bindingFrom
  exact .next fun m => by split <;> infer_instance

instance (sym : Handle) : Walks (lookup th sym) := by
  unfold lookup
  exact .next fun h => .next fun m => by split <;> infer_instance

instance (scope : Handle) (table : List (Handle × Value)) : Walks (promoteBindings scope table) := by
  induction table with
  | nil => exact .pure _
  | cons e table ih =>
    obtain ⟨sym, r⟩ := e
    unfold promoteBindings
    split <;> infer_instance

instance (n : Nat) (h : Handle) : Walks (promoteWithin n h) := by
  induction n generalizing h with
  | zero => exact .fault _
  | succ n ih =>
    unfold promoteWithin
    exact .next fun m => by split <;> infer_instance

instance (h : Handle) : Walks (promote h) := by
  unfold promote
  infer_instance

instance : Walks (scopeForFunction th) := by
  unfold scopeForFunction
  infer_instance

instance (vs refs : List Value) : Walks (pushAll th vs refs) := by
  induction vs generalizing refs <;> unfold pushAll <;> infer_instance

instance (syms : List Handle) (vals : List Value) : Walks (enterBindings th syms vals) := by
  unfold enterBindings
  exact .next fun _ => .next fun r => by cases r <;> infer_instance

instance (scope : Handle) (count : Nat) : Walks (leaveBindings th scope count) := by
  unfold leaveBindings
  infer_instance

instance (syms : List Handle) (vals : List Value) {x : Act α} [Walks x] : Walks (withBindings th syms vals x) := by
  unfold withBindings
  infer_instance

/-! ## Parameters -/

instance (v : Value) : Walks (push_ th v) := by
  unfold push_
  infer_instance

instance (ps : List Handle) (vs : List Value) : Walks (pushRequired th ps vs) := by
  fun_induction pushRequired th ps vs <;> infer_instance

instance (ps : List Handle) (vs : List Value) : Walks (pushOptional th ps vs) := by
  fun_induction pushOptional th ps vs <;> infer_instance

instance (args : List Value) (given : List (Handle × Value)) : Walks (keyedArgs th args given) := by
  fun_induction keyedArgs th args given with
  | case1 => infer_instance
  | case2 k => exact .next fun key => by cases key <;> infer_instance
  | case3 k v rest given ih => exact .next fun key => by cases key <;> infer_instance

instance (sym : Handle) : Walks (keyOf sym) := by
  unfold keyOf
  infer_instance

instance (given : List (Handle × Value)) (ks : List Handle) : Walks (pushKeys th given ks) := by
  induction ks <;> unfold pushKeys <;> infer_instance

instance (text : Bool) (p : Params) (args : List Value) : Walks (pushArgs th text p args) := by
  unfold pushArgs
  extract_lets miscounted lay
  have {α : Type} : Walks (miscounted : Act α) := by
    unfold miscounted
    infer_instance
  have (r : PUnit) : Walks (lay r) := .next fun args => .next fun args => by
    dsimp only
    infer_instance
  split
  · exact .next fun r => this r
  · exact this ()

end Act

end LispMachine
