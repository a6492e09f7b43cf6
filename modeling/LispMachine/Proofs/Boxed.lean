/-
Whether variables live on a stack cannot be observed.

A source text is run by a new machine and, beside it, by the language with a cell for every variable. The machine lays the
arguments of a call, the bindings of a `let` and a caught error on its stack, lets the scope of the call refer to their slots, and
moves them into boxes only when a function captures the scope. In the language with cells each of them is a box of its own from
the start, and functions share these boxes. The two print the same results and errors, line by line, and end alike, in whatever
order variables are captured, assigned and left behind (`stack_unobservable`). Only what the machine does besides could tell them
apart: a pass, a full heap, a stack or a nesting at its limit. The journal tells of each. Passes that are not asked for could not
either (`session_faithful`).
-/
import LispMachine.Proofs.Boxed.Installing
import LispMachine.Proofs.Unobservable

namespace LispMachine.Boxed

/-- the machine with room for any number of objects -/
def boundless (m : Machine) : Machine := { m with heap := { m.heap with limit := none } }

/-- a new machine is beside the same machine with room for any number of objects: there is nothing yet that could differ -/
theorem beside_fresh {config config' : Config} (allocator : AllocatorMode) {c c' : Collector}
    (hcapacity : config.stackCapacity = config'.stackCapacity) (hepoch : 1 ≤ c.epoch) (hmarking : c.marking = false)
    (hepoch' : 1 ≤ c'.epoch) (hmarking' : c'.marking = false) :
    Beside ⟨fun _ _ _ => False, fun _ _ => False, fun _ _ _ _ => False⟩
      (Machine.fresh config allocator c) (boundless (Machine.fresh config' allocator c')) :=
  have htidy : (Machine.fresh config allocator c).heap.Tidy c.epoch := (Machine.sound_heap_fresh hepoch).tidy
  have htidy' : (Machine.fresh config' allocator c').heap.Tidy c'.epoch := (Machine.sound_heap_fresh hepoch').tidy
  { store :=
      { fits := False.elim
        unique := False.elim
        backs := False.elim
        apart := False.elim
        single := False.elim
        owned := False.elim
        stores := False.elim
        hidden := False.elim
        distinct := False.elim }
    plain := fun _ _ => id
    tidy := htidy
    tidy' := { htidy' with }
    unbounded := rfl
    marking := hmarking
    marking' := hmarking'
    symbols := .nil
    gensyms := rfl
    globalScope := .none
    lines := rfl
    budget := rfl
    size := rfl
    owners := rfl
    free := rfl
    unowned := fun _ hid => by cases hid
    capacity := hcapacity }

/-- two runs that look the same to a reader of what they print -/
structure SameLines (o o' : Outcome Unit) : Prop where
  /-- both end without an error, with the same fault, or with errors; or neither has come to its end -/
  ends : match o, o' with
    | .ok _ _, .ok _ _ => True
    | .error e _, .error e' _ => e.Akin e'
    | _, _ => False
  /-- the same results and errors are printed in the same order -/
  lines : (Outcome.machine o).console.lines = (Outcome.machine o').console.lines

theorem SameLines.of_ended {o o' : Outcome Unit} (h : Ended o o') : SameLines o o' := by
  cases h with
  | ok h => exact ⟨trivial, h.lines⟩
  | error he h => exact ⟨he, h.lines⟩

theorem SameLines.of_abreast {o o' : Outcome Unit} (h : Machine.Ended o o') : SameLines o o' := by
  cases h with
  | ok h => exact ⟨trivial, h.agree.lines⟩
  | error he h => exact ⟨he, h.agree.lines⟩

theorem SameLines.trans {o o' o'' : Outcome Unit} (h : SameLines o o') (h' : SameLines o' o'') : SameLines o o'' where
  ends := by
    have hends := h.ends
    have hends' := h'.ends
    cases o <;> cases o' <;> cases o'' <;> first | trivial | exact hends.elim | exact hends'.elim | exact hends.trans hends'
  lines := h.lines.trans h'.lines

/-- a source text comes to the same whether variables live on the stack until they are captured or in cells from the start, unless
the run has taken a pass, filled the heap, or come to the limit of its stack or of the nesting of its evaluations -/
theorem stack_unobservable (r : Request) (fuel : Nat) (showPrompt : Bool) (c : Source.Cursor) :
    (∃ e ∈ (Outcome.machine (Machine.session r fuel showPrompt c)).journal, e.interrupts = true) ∨
    SameLines (Machine.session r fuel showPrompt c) (session r fuel showPrompt c) := by
  have hleft : Machine.session r fuel showPrompt c =
      (Act.replRun fuel showPrompt c).run (Machine.fresh r.config r.allocator r.collector) := rfl
  have hright : session r fuel showPrompt c =
      (replRun fuel showPrompt c).run (boundless (Machine.fresh r.config r.allocator r.collector)) := rfl
  have hbeside : Beside _ (Machine.fresh r.config r.allocator r.collector)
      (boundless (Machine.fresh r.config r.allocator r.collector)) :=
    beside_fresh r.allocator rfl (Nat.le_refl 1) rfl (Nat.le_refl 1) rfl
  rw [hleft, hright]
  exact (hbeside.replRun rfl rfl fuel showPrompt c).imp_right .of_ended

/-- a captured variable is assigned to, and the machine does nothing that could tell the two apart -/
example : (Outcome.machine (Machine.session {} 12 false
    (Source.Cursor.ofString "(let ((x 1)) (let ((f (lambda () x))) (setf x 2) (f)))"))).journal = [] := by decide +kernel

/-- **Neither the stack nor a pass is seen in what a program prints.** If with some threshold a source text is run without a pass,
a full heap or a limit, then with any other threshold, wherever passes are taken and whatever handles are used again, it prints what
the language with a cell for every variable prints: no look-up reads a slot that has been left. What could tell the two apart is a
store into program text, a pass that is asked for, or a heap that is full. -/
theorem session_faithful (r : Request) (n n' : Int) (fuel : Nat) (showPrompt : Bool) (c : Source.Cursor) :
    (∃ e ∈ (Outcome.machine (Machine.session { r with threshold := n } fuel showPrompt c)).journal, e.disturbs = true) ∨
    (∃ e ∈ (Outcome.machine (Machine.session { r with threshold := n' } fuel showPrompt c)).journal,
      e.interrupts = true ∨ e.disturbs = true) ∨
    SameLines (Machine.session { r with threshold := n } fuel showPrompt c) (session r fuel showPrompt c) := by
  have hrun (r : Request) : Machine.session r fuel showPrompt c =
      (Act.replRun fuel showPrompt c).run (Machine.fresh r.config r.allocator r.collector) := rfl
  have hboxed : session r fuel showPrompt c =
      (replRun fuel showPrompt c).run (boundless (Machine.fresh r.config r.allocator r.collector)) := rfl
  have habreast : (Machine.fresh { r with threshold := n }.config r.allocator { r with threshold := n }.collector).Abreast
      (Machine.fresh { r with threshold := n' }.config r.allocator { r with threshold := n' }.collector) :=
    Machine.abreast_fresh rfl (Nat.le_refl 1) rfl (Nat.le_refl 1) rfl
  have hbeside : Beside _ (Machine.fresh { r with threshold := n' }.config r.allocator { r with threshold := n' }.collector)
      (boundless (Machine.fresh r.config r.allocator r.collector)) :=
    beside_fresh r.allocator rfl (Nat.le_refl 1) rfl (Nat.le_refl 1) rfl
  rw [hrun, hrun, hboxed]
  rcases habreast.replRun rfl rfl fuel showPrompt c with (⟨e, he, hs⟩ | ⟨e, he, hs⟩) | hend
  · exact .inl ⟨e, he, Event.disturbs_of_spoils hs⟩
  · exact .inr (.inl ⟨e, he, .inr (Event.disturbs_of_spoils hs)⟩)
  · rcases hbeside.replRun rfl rfl fuel showPrompt c with ⟨e, he, hinterrupts⟩ | hend'
    · exact .inr (.inl ⟨e, he, .inl hinterrupts⟩)
    · exact .inr (.inr ((SameLines.of_abreast hend).trans (.of_ended hend')))

end LispMachine.Boxed
