/-
Scopes over what lies on the stack, and scopes over boxes.

A call on the left enters a scope whose variables are the slots just filled; on the right one whose variables are new boxes with the
same values. The two stand for each other while the call runs. After it the scope on the left may still be there but stands for
nothing, unless something has captured it; then it has been promoted, and the slots are nobody's variables any more.
-/
import LispMachine.Proofs.Boxed.Arguments

namespace LispMachine

/-- the bindings that come of binding symbols one after the other -/
def Scope.ofBindings (syms : List Handle) (refs : List Value) : Scope :=
  (syms.zip refs).foldl (fun s (sym, r) => Scope.insert s sym r) {}

section

variable {S : Handle → Handle → Prop} {V : Handle → Value → Value → Prop} {syms syms' : List Handle} {refs refs' : List Value}

theorem Scope.Tables.foldl (hunique : ∀ a a' b b', S a a' → S b b' → (a = b ↔ a' = b')) {es es' : List (Handle × Value)}
    (hes : List.Forall₂ (fun e e' => S e.1 e'.1 ∧ V e.1 e.2 e'.2) es es') {s s' : Scope} (hs : s.Tables S V s')
    (hkeys : (s.table.map Prod.fst).Nodup) :
    (es.foldl (fun s (sym, r) => Scope.insert s sym r) s).Tables S V (es'.foldl (fun s (sym, r) => Scope.insert s sym r) s') ∧
      ((es.foldl (fun s (sym, r) => Scope.insert s sym r) s).table.map Prod.fst).Nodup := by
  induction hes generalizing s s' with
  | nil => exact ⟨hs, hkeys⟩
  | cons he _ ih => exact ih (hs.insert hunique he.1 he.2) (Scope.nodup_insert hkeys _ _)

theorem Scope.tables_ofBindings (hunique : ∀ a a' b b', S a a' → S b b' → (a = b ↔ a' = b')) (hsyms : List.Forall₂ S syms syms')
    (hlen : refs.length = refs'.length)
    (hrefs : ∀ (j : Nat) sym r r', syms[j]? = some sym → refs[j]? = some r → refs'[j]? = some r' → V sym r r') :
    (Scope.ofBindings syms refs).Tables S V (Scope.ofBindings syms' refs') ∧ ((Scope.ofBindings syms refs).table.map Prod.fst).Nodup := by
  refine Scope.Tables.foldl hunique (List.forall₂_iff_get.2 ⟨?_, fun j hj hj' => ?_⟩) .nil List.nodup_nil
  · rw [List.length_zip, List.length_zip, hsyms.length_eq, hlen]
  · rw [List.length_zip] at hj hj'
    obtain ⟨hj, hr⟩ := Nat.lt_min.1 hj
    obtain ⟨hj', hr'⟩ := Nat.lt_min.1 hj'
    simp only [List.get_eq_getElem, List.getElem_zip]
    exact ⟨hsyms.get hj hj', hrefs j _ _ _ (List.getElem?_eq_getElem hj) (List.getElem?_eq_getElem hr) (List.getElem?_eq_getElem hr')⟩

end

namespace Boxed

open Pairing
open Simulation (InStep Sim Later Val)

variable {th : ThreadId} {σ τ υ : Situation th}

/-! ## New boxes -/

/-- new boxes with given values, on a heap that has room for any number of them -/
structure Boxes (hp hp' : Heap) (epoch : Nat) (vals : List Value) (bs : List Handle) : Prop where
  grows : hp.Grows hp'
  tidy : hp'.Tidy epoch
  unbounded : hp'.limit = none
  fresh : ∀ b ∈ bs, hp.slot? b = none
  nodup : bs.Nodup
  stored : List.Forall₂ (fun b v => ∃ s, hp'.slot? b = some s ∧ s.cell = .box v ∧ s.text = false) bs vals

theorem fresh_of_grows {hp hp' : Heap} (hg : hp.Grows hp') {h : Handle} (hn : hp'.slot? h = none) : hp.slot? h = none := by
  cases hs : hp.slot? h with
  | none => rfl
  | some s => rw [hg h s hs] at hn; cases hn

theorem run_newVariables (vals : List Value) {m : Machine} (ht : m.heap.Tidy m.collector.epoch) (hu : m.heap.limit = none) :
    ∃ hp bs, (newVariables vals).run m = .ok (bs.map fun b => .ref (.box b)) { m with heap := hp } ∧
      Boxes m.heap hp m.collector.epoch vals bs := by
  induction vals generalizing m with
  | nil => exact ⟨m.heap, [], rfl, .refl _, ht, hu, fun _ hb => absurd hb List.not_mem_nil, List.nodup_nil, .nil⟩
  | cons v vals ih =>
    have hgrows := ht.grows_insert (.box v) false
    obtain ⟨hp, bs, hrun, hb⟩ := ih (m := m.alloc (.box v) false) (ht.insert _ _) ((limit_insert ..).trans hu)
    refine ⟨hp, m.heap.nextHandle :: bs, ?_, hgrows.trans hb.grows, hb.tidy, hb.unbounded, ?_, ?_, ?_⟩
    · unfold newVariables
      rw [Act.bind_ok (Tandem.run_allocate (isFull_of_unbounded hu)), Act.bind_ok hrun]
      rfl
    · rintro b hin
      rcases List.mem_cons.1 hin with rfl | hin
      · exact ht.slot?_nextHandle
      · exact fresh_of_grows hgrows (hb.fresh b hin)
    · refine List.nodup_cons.2 ⟨fun hin => ?_, hb.nodup⟩
      have hnone := hb.fresh _ hin
      rw [show (m.alloc (.box v) false).heap.slot? m.heap.nextHandle = _ from ht.slot?_new (.box v) false] at hnone
      cases hnone
    · exact .cons ⟨_, hb.grows _ _ (ht.slot?_new (.box v) false), rfl, rfl⟩ hb.stored

/-! ## New scopes -/

/-- the variables of a new scope: the symbols in their order, the slots from `base` on and boxes -/
def Slots (syms : List Handle) (base : Nat) (bs : List Handle) (sym : Handle) (i : Nat) (b : Handle) : Prop :=
  ∃ j : Nat, syms[j]? = some sym ∧ i = base + j ∧ bs[j]? = some b

/-- between two situations a scope with the variables in the slots above those in use before has come to be backed by the stack -/
structure Enters (σ τ : Situation th) (h : Handle) : Prop where
  obj : ∀ {k g g'}, σ.pairing.obj k g g' → τ.pairing.obj k g g'
  opened : ∀ {g g'}, σ.pairing.frame g g' → τ.Open g g'
  frame : ∀ {g g'}, τ.pairing.frame g g' → g ≠ h → σ.pairing.frame g g'
  slot : ∀ {g sym i b}, τ.pairing.slot g sym i b → g ≠ h → σ.pairing.slot g sym i b
  above : ∀ {sym i b}, τ.pairing.slot h sym i b → σ.height ≤ i
  fresh : σ.left.heap.slot? h = none
  older : ∀ {g g'}, σ.pairing.frame g g' → τ.left.heap.Older g h
  lasts : σ.left.heap.Lasts τ.left.heap
  lasts' : σ.right.heap.Lasts τ.right.heap
  stays : Stays th σ.left τ.left
  stays' : Stays th σ.right τ.right
  height : σ.height ≤ τ.height
  item? : ∀ i, i < σ.height → (∀ g sym b, ¬ σ.pairing.slot g sym i b) → τ.item? i = σ.item? i

namespace Enters

variable {h : Handle}

theorem free (he : Enters σ τ h) {i : Nat} (hi : i < σ.height) (hfree : ∀ g sym b, ¬ σ.pairing.slot g sym i b) (g sym b : Handle) :
    ¬ τ.pairing.slot g sym i b := fun hs => by
  by_cases heq : g = h
  · subst heq
    exact Nat.not_lt.2 (he.above hs) hi
  · exact hfree g sym b (he.slot hs heq)

/-- what is run then leaves it so -/
theorem balanced (he : Enters σ τ h) (hb : Situation.Balanced τ υ) : Enters σ υ h where
  obj ho := hb.extends_.obj (he.obj ho)
  opened hf := hb.extends_.opened (he.opened hf)
  frame hf hne := he.frame (hb.frame hf) hne
  slot hs hne := he.slot (hb.slot hs) hne
  above hs := he.above (hb.slot hs)
  fresh := he.fresh
  older hf := (he.older hf).labelled hb.lasts.labelled
  lasts := he.lasts.trans hb.lasts
  lasts' := he.lasts'.trans hb.lasts'
  stays := he.stays.trans hb.stays
  stays' := he.stays'.trans hb.stays'
  height := Nat.le_trans he.height (Nat.le_of_eq hb.level.symm)
  item? i hi hfree := (hb.item? i (Nat.lt_of_lt_of_le hi he.height) (he.free hi hfree)).trans (he.item? i hi hfree)

/-- without the scope all is as before -/
theorem extends_ (he : Enters σ τ h) : σ.pairing.Extends (τ.pairing.dropping h) where
  obj := he.obj
  frame {g g'} hf := (he.opened hf).imp id fun hf' => by
    refine ⟨hf', ?_⟩
    rintro rfl
    simpa [he.fresh] using (σ.agree.store.frame_some hf).1

/-- the situation in which the scope stands for nothing any more -/
def closed (he : Enters σ τ h) : Situation th where
  left := τ.left
  right := τ.right
  pairing := τ.pairing.dropping h
  agree :=
    { τ.agree with
      store := τ.agree.store.drop fun hf hne => he.older (he.frame hf hne)
      scopes := by
        rw [he.stays.scopes, he.stays'.scopes]
        exact σ.agree.scopes.imp fun _ _ => he.extends_.opened }

theorem keeps (he : Enters σ τ h) : Situation.Keeps σ he.closed where
  extends_ := he.extends_
  frame hf := he.frame hf.1 hf.2
  slot hs := he.slot hs.1 hs.2
  lasts := he.lasts
  lasts' := he.lasts'
  stays := he.stays
  stays' := he.stays'
  height := he.height
  item? := he.item?

theorem ends (he : Enters σ τ h) : ∃ υ, Ends σ τ υ := by
  obtain ⟨υ, hυ, hlater, hleft, hright⟩ := he.keeps.ends
  have hclosed : Later τ he.closed := ⟨id, id, fun _ => id, fun _ => ⟨rfl, rfl⟩⟩
  exact ⟨υ, hυ, hclosed.trans hlater, hleft, hright⟩

end Enters

/-! ## Entering a scope over what has been laid -/

/-- what a scope over slots and its like over boxes are made from -/
structure Frame (σ τ : Situation th) (syms syms' : List Handle) (parent parent' : Outer) (vs vs' : List Value) : Prop where
  laid : Laid σ τ vs
  values : List.Forall₂ (Val τ) vs vs'
  symbols : List.Forall₂ (τ.pairing.obj .symbol) syms syms'
  parent : parent.Like (fun _ => τ.Open) parent'

/-- a scope over references that are there already -/
def slotScope (syms : List Handle) (parent : Outer) (refs : List Value) : Scope :=
  { parent := parent, table := (Scope.ofBindings syms refs).table, transient := true }

/-- the scope over new boxes -/
def boxScope (syms : List Handle) (parent : Outer) (bs : List Handle) : Scope :=
  { parent := parent, table := (Scope.ofBindings syms (bs.map fun b => .ref (.box b))).table }

/-- the slots of a frame -/
def frameRefs (σ τ : Situation th) (vs : List Value) : List Value :=
  Act.slotRefs (τ.left.thread th).stack.id σ.height vs.length

theorem length_frameRefs (σ τ : Situation th) (vs : List Value) : (frameRefs σ τ vs).length = vs.length := by
  simp [frameRefs, Act.slotRefs]

namespace Frame

variable {syms syms' : List Handle} {parent parent' : Outer} {vs vs' : List Value} (hf : Frame σ τ syms syms' parent parent' vs vs')
  {hp : Heap} {bs : List Handle} (hb : Boxes τ.right.heap hp τ.right.collector.epoch vs' bs)

/-- the pairing with the new scopes -/
def pairing (σ τ : Situation th) (syms : List Handle) (hp : Heap) (bs : List Handle) : Pairing :=
  τ.pairing.framing τ.left.heap.nextHandle hp.nextHandle (Slots syms σ.height bs)

/-- the heaps with the new scopes -/
def heaps (σ τ : Situation th) (syms syms' : List Handle) (parent parent' : Outer) (vs : List Value) (hp : Heap)
    (bs : List Handle) : Heap × Heap :=
  (τ.left.heap.insert (.scope (slotScope syms parent (frameRefs σ τ vs))) τ.left.collector.epoch false,
    hp.insert (.scope (boxScope syms' parent' bs)) τ.right.collector.epoch false)

include hb

omit hf in
theorem grows (syms syms' : List Handle) (parent parent' : Outer) (vs : List Value) :
    τ.left.heap.Grows (heaps σ τ syms syms' parent parent' vs hp bs).1 ∧
    τ.right.heap.Grows (heaps σ τ syms syms' parent parent' vs hp bs).2 :=
  ⟨τ.agree.tidy.grows_insert _ false, hb.grows.trans (hb.tidy.grows_insert _ false)⟩

include hf

theorem length_eq : bs.length = vs.length := hb.stored.length_eq.trans hf.values.length_eq.symm

/-- the variables of the new scopes stand for each other -/
theorem tables : (slotScope syms parent (frameRefs σ τ vs)).Tables (τ.pairing.obj .symbol)
      ((pairing σ τ syms hp bs).Variable (τ.left.thread th).stack.id τ.left.heap.nextHandle) (boxScope syms' parent' bs) ∧
    ((slotScope syms parent (frameRefs σ τ vs)).table.map Prod.fst).Nodup := by
  refine Scope.tables_ofBindings (fun _ _ _ _ => τ.agree.store.unique) hf.symbols ?_ fun j sym r r' hsym hr hr' => ?_
  · rw [length_frameRefs, List.length_map, length_eq hf hb]
  · obtain ⟨i, hi, rfl⟩ := Option.map_eq_some_iff.1 ((List.getElem?_map ..).symm.trans hr)
    obtain ⟨b, hin, rfl⟩ := Option.map_eq_some_iff.1 ((List.getElem?_map ..).symm.trans hr')
    obtain ⟨_, rfl⟩ := List.getElem?_eq_some_iff.1 hi
    rw [List.getElem_range]
    exact .slot (.inr ⟨rfl, j, hsym, rfl, hin⟩)

/-- a new variable has the same value in its slot and in its box -/
theorem stores {sym b : Handle} {i : Nat} (hs : Slots syms σ.height bs sym i b) : ∃ v t v',
    Stores τ.pairing.obj (τ.left.thread th).stack.items (heaps σ τ syms syms' parent parent' vs hp bs).2 i b v t v' := by
  obtain ⟨j, -, rfl, hin⟩ := hs
  obtain ⟨hj, rfl⟩ := List.getElem?_eq_some_iff.1 hin
  have hj' : j < vs.length := length_eq hf hb ▸ hj
  have hj'' : j < vs'.length := hf.values.length_eq ▸ hj'
  obtain ⟨s, hs, hcell, htext⟩ := hb.stored.get hj hj''
  refine ⟨vs[j], s, vs'[j], (hf.laid.values j hj').trans (List.getElem?_eq_getElem hj'), ?_, hcell, htext, hf.values.get hj' hj''⟩
  exact hb.tidy.grows_insert _ false _ _ hs

omit hb in
/-- the slots of the new variables are above those of all others -/
theorem below {g sym b : Handle} {i : Nat} (hs : τ.pairing.slot g sym i b) : i < σ.height :=
  Situation.lt_height (hf.laid.slot hs)

theorem holds : (pairing σ τ syms hp bs).Holds (τ.left.thread th).stack.id (τ.left.thread th).stack.items
    (heaps σ τ syms syms' parent parent' vs hp bs).1 (heaps σ τ syms syms' parent parent' vs hp bs).2 := by
  have H := τ.agree.store
  obtain ⟨hgrows, hgrows'⟩ := grows (σ := σ) hb syms syms' parent parent' vs
  have hspare : τ.pairing.Spare τ.left.heap.nextHandle hp.nextHandle :=
    H.spare τ.agree.tidy.slot?_nextHandle (fresh_of_grows hb.grows hb.tidy.slot?_nextHandle)
  have hbox {sym b : Handle} {i : Nat} (hs : Slots syms σ.height bs sym i b) : τ.right.heap.slot? b = none := by
    obtain ⟨j, -, -, hin⟩ := hs
    exact hb.fresh b (List.mem_of_getElem? hin)
  obtain ⟨htables, hkeys⟩ := tables hf hb
  refine (H.grow hgrows hgrows').frame (s := ⟨_, _, _, _⟩) hspare
    { slot := τ.agree.tidy.slot?_new _ false
      slot' := hb.tidy.slot?_new _ false
      cell := rfl
      cell' := rfl
      text := rfl
      transient := rfl
      mirrors := ⟨.none, ?_, htables, hkeys, rfl⟩ } (fun hs => stores hf hb hs) (fun hs k g ho => ?_) (fun hs => fun hs' => ⟨?_, ?_⟩)
    fun hs hs' heq => ?_
  · refine hf.parent.mono fun _ p p' ho => ?_
    obtain ⟨hin, hin'⟩ := some_of_open ho
    obtain ⟨s, hs⟩ := Option.isSome_iff_exists.1 hin'
    exact ⟨(τ.pairing.extends_framing ..).opened ho, older_new τ.agree.tidy _ false hin,
      older_new hb.tidy _ false (by rw [hb.grows _ _ hs]; rfl)⟩
  · simpa [hbox hs] using (H.some ho).2
  · obtain ⟨j, -, rfl, -⟩ := hs
    exact Nat.ne_of_gt (Nat.lt_of_lt_of_le (below hf hs') (Nat.le_add_right _ _))
  · rintro rfl
    obtain ⟨v, s', v', hst⟩ := H.stores hs'
    cases (hbox hs).symm.trans hst.slot'
  · obtain ⟨j, hsym, rfl, hin⟩ := hs
    obtain ⟨k, hsym', rfl, hin'⟩ := hs'
    have hjk : j = k := by
      rcases heq with heq | rfl
      · exact Nat.add_left_cancel heq
      · exact (List.getElem?_inj (List.getElem?_eq_some_iff.1 hin).1 hb.nodup).1 (hin.trans hin'.symm)
    subst hjk
    exact ⟨Option.some.inj (hsym.symm.trans hsym'), rfl, Option.some.inj (hin.symm.trans hin')⟩

/-- the situation with the new scopes -/
def made : Situation th where
  left := { τ.left with heap := (heaps σ τ syms syms' parent parent' vs hp bs).1 }
  right := { τ.right with heap := (heaps σ τ syms syms' parent parent' vs hp bs).2 }
  pairing := pairing σ τ syms hp bs
  agree := τ.agree.reheap (τ.pairing.extends_framing ..) (holds hf hb) (τ.agree.tidy.insert _ false) (hb.tidy.insert _ false)
    ((limit_insert ..).trans hb.unbounded)

theorem enters : Enters σ (made hf hb) τ.left.heap.nextHandle := by
  have hkeeps := hf.laid.toKeeps
  have hext := hkeeps.extends_.trans (τ.pairing.extends_framing τ.left.heap.nextHandle hp.nextHandle (Slots syms σ.height bs))
  obtain ⟨hgrows, hgrows'⟩ := grows (σ := σ) hb syms syms' parent parent' vs
  have hin {g g' : Handle} (hg : σ.pairing.frame g g') : (τ.left.heap.slot? g).isSome :=
    (some_of_open (hkeeps.extends_.frame hg)).1
  exact
    { obj := hext.obj
      opened := hext.frame
      frame := fun hg hne => hkeeps.frame (hg.resolve_right fun h => hne h.1)
      slot := fun hs hne => hkeeps.slot (hs.resolve_right fun h => hne h.1)
      above := fun hs => hs.elim
        (fun hs => by
          obtain ⟨g', hg⟩ := τ.agree.store.owned hs
          simpa [τ.agree.tidy.slot?_nextHandle] using (τ.agree.store.frame_some hg).1)
        fun ⟨_, _, _, hi, _⟩ => hi ▸ Nat.le_add_right _ _
      fresh := by
        cases hs : σ.left.heap.slot? τ.left.heap.nextHandle with
        | none => rfl
        | some s =>
          obtain ⟨u, hu, -⟩ := hkeeps.lasts.slot _ s hs
          rw [τ.agree.tidy.slot?_nextHandle] at hu
          cases hu
      older := fun hg => older_new τ.agree.tidy _ false (hin hg)
      lasts := hkeeps.lasts.trans hgrows.lasts
      lasts' := hkeeps.lasts'.trans hgrows'.lasts
      stays := hkeeps.stays.trans ⟨rfl, rfl, fun _ => rfl, rfl, rfl, rfl, rfl, rfl⟩
      stays' := hkeeps.stays'.trans ⟨rfl, rfl, fun _ => rfl, rfl, rfl, rfl, rfl, rfl⟩
      height := hkeeps.height
      item? := hkeeps.item? }

theorem later : Later τ (made hf hb) :=
  have ⟨hgrows, hgrows'⟩ := grows (σ := σ) hb syms syms' parent parent' vs
  Situation.later_of_lasts id hgrows.lasts hgrows'.lasts

end Frame

section

variable {syms syms' : List Handle} {parent parent' : Outer} {vs vs' : List Value}

theorem run_newScope {m : Machine} {hp : Heap} {bs : List Handle} (hlen : ¬ vs'.length < syms'.length)
    (hrun : (newVariables vs').run m = .ok (bs.map fun b => .ref (.box b)) { m with heap := hp }) (hu : hp.limit = none) :
    (newScope parent' syms' vs').run m = .ok hp.nextHandle
      { m with heap := hp.insert (.scope (boxScope syms' parent' bs)) m.collector.epoch false } := by
  unfold newScope
  rw [if_neg hlen, Act.bind_ok hrun]
  exact Tandem.run_allocate (isFull_of_unbounded hu)

theorem run_newScope_short {m : Machine} (hlen : vs'.length < syms'.length) :
    (newScope parent' syms' vs').run m = .error (.fault (.fewerValues vs'.length)) m := by
  unfold newScope
  rw [if_pos hlen]
  rfl

variable {m : Machine} {refs : List Value}

theorem run_newTransient (ho : (m.thread th).isOpen = true) (hlen : ¬ refs.length < syms.length)
    (hfull : m.heap.isFull = false) : ∃ m', (Act.newTransient th parent syms refs).run m = .ok m.heap.nextHandle m' ∧
      Idle th (m.alloc (.scope (slotScope syms parent refs)) false) m' := by
  obtain ⟨m', hpin, hidle⟩ := run_pin (m := m.alloc (.scope (slotScope syms parent refs)) false) ho (.scope m.heap.nextHandle)
  refine ⟨m', ?_, hidle⟩
  unfold Act.newTransient
  rw [if_neg hlen, Act.bind_ok (Tandem.run_allocate hfull)]
  exact Act.bind_ok hpin

theorem run_newTransient_short (hlen : refs.length < syms.length) :
    (Act.newTransient th parent syms refs).run m = .error (.fault (.fewerValues refs.length)) m := by
  unfold Act.newTransient
  rw [if_pos hlen]
  rfl

theorem run_newTransient_full (hlen : ¬ refs.length < syms.length) (hfull : m.heap.isFull = true) :
    (Act.newTransient th parent syms refs).run m = .error (.fault .exhausted) { m with journal := .refused :: m.journal } := by
  unfold Act.newTransient
  rw [if_neg hlen]
  exact Act.bind_error (Tandem.run_allocate_full hfull)

/-- an action in a scope over what has been laid on the stack, and in a scope over boxes -/
theorem framed_sim {α β : Type} {Q : Situation th → α → β → Prop} (hf : Frame σ τ syms syms' parent parent' vs vs') {x : Act α}
    {y : Act β} (hx : ∀ υ, Later τ υ → Sim υ x y Q) (hQ : ∀ τ υ a b, Later τ υ → Q τ a b → Q υ a b) :
    InStep (fun _ υ => Situation.Balanced σ υ) Simulation.Failure.Like τ
      (Act.andThen (do
        let env ← Act.newTransient th parent syms (frameRefs σ τ vs)
        Act.inScope th env x) (Act.dropSlots th vs.length))
      (do
        let env ← newScope parent' syms' vs'
        Act.inScope th env y) Q := by
  have hcut {υ : Situation th} (hυ : υ.height = τ.height) (φ : Situation th) (hφ : Situation.Balanced υ φ) :=
    run_dropSlots (σ := σ) (τ := φ) (hφ.level.trans (hυ.trans hf.laid.level))
  have hsize := length_frameRefs σ τ vs
  by_cases hlen : vs.length < syms.length
  · have hlen' : vs'.length < syms'.length := by rwa [← hf.symbols.length_eq, ← hf.values.length_eq]
    have hl : (Act.newTransient th parent syms (frameRefs σ τ vs)).run τ.left = _ :=
      run_newTransient_short (hsize.symm ▸ hlen)
    have hr : (newScope parent' syms' vs').run τ.right = _ := run_newScope_short hlen'
    rw [hsize, hf.values.length_eq] at hl
    refine ending_sim ?_ (fun φ hφ => (hf.laid.toKeeps.trans hφ.toKeeps).ends) (hcut rfl) hQ
    exact Simulation.failed τ (.refl τ) (Act.bind_error hl) (Act.bind_error hr) (.fault (Simulation.common (by simp) (by simp)))
  have hlen' : ¬ vs'.length < syms'.length := by rwa [← hf.symbols.length_eq, ← hf.values.length_eq]
  have hroom : ¬ (frameRefs σ τ vs).length < syms.length := by rwa [hsize]
  cases hfull : τ.left.heap.isFull with
  | true =>
    refine interrupted (e := .refused) rfl (((Simulation.bind_grows _ _ _).trans (andThen_grows _ _ _)).subset ?_)
    rw [run_newTransient_full hroom hfull]
    exact List.mem_cons_self
  | false =>
    obtain ⟨hp, bs, hrun, hb⟩ := run_newVariables vs' τ.agree.tidy' τ.agree.unbounded
    obtain ⟨l, hl, hidle⟩ : ∃ l, (Act.newTransient th parent syms (frameRefs σ τ vs)).run τ.left = .ok _ l ∧ _ :=
      run_newTransient τ.agree.isOpen hroom hfull
    have hr : (newScope parent' syms' vs').run τ.right = _ := run_newScope hlen' hrun hb.unbounded
    -- the new scopes stand for each other while the actions run
    let υ : Situation th := (Frame.made hf hb).idle hidle (.refl th _)
    have hidled := (Frame.made hf hb).balanced_idle hidle (.refl th _)
    have he : Enters σ υ τ.left.heap.nextHandle := (Frame.enters hf hb).balanced hidled
    have hlater : Later τ υ := (Frame.later hf hb).trans (.of_balanced hidled)
    have ho : υ.Open τ.left.heap.nextHandle hp.nextHandle := .inr (Or.inr ⟨rfl, rfl⟩)
    have hinside : InStep (fun _ υ => Situation.Balanced σ υ) Simulation.Failure.Like υ
        (Act.andThen (Act.inScope th τ.left.heap.nextHandle x) (Act.dropSlots th vs.length)) (Act.inScope th hp.nextHandle y) Q :=
      ending_sim (inScope_sim ho (fun φ hφ => hx φ (hlater.trans hφ)) hQ) (fun φ hφ => (he.balanced hφ).ends) (hcut hidled.level) hQ
    unfold Simulation.InStep at hinside ⊢
    rw [show (Act.andThen _ _).run (Simulation.left τ) = _ from run_andThen_bind hl,
      show (newScope parent' syms' vs' >>= _).run (Simulation.right τ) = _ from Act.bind_ok hr]
    exact hinside

end

end Boxed

end LispMachine
