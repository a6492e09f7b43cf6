/-
Actions on the heap alone: allocating and interning, looking at objects, walking lists, printing, and collecting.

None of them touches a thread, and none makes an object of a clean heap unclean: a new object is clean if what is put into it
is, a pass keeps contents or lets go of the scope around an object, and printing only interns names.
-/
import LispMachine.Proofs.Collection
import LispMachine.Proofs.Marking
import LispMachine.Proofs.Nesting
import LispMachine.Proofs.Orderly

namespace LispMachine

/-! ## Clean heaps -/

theorem Cell.IsClean.releaseOuter {b : Nat} {c : Cell} (hc : c.IsClean b) : c.releaseOuter.IsClean b := by
  cases hc with
  | scope ht => exact .scope ht
  | @function f hs hb =>
    obtain ⟨name, params, body⟩ := f
    cases hb with
    | forms outer hl => exact .function hs (.forms .released hl)
    | primitive hp hsignal => exact .function hs (.primitive hp hsignal)
  | cons ha hd => exact .cons ha hd
  | symbol name => exact .symbol name
  | error hf hs => exact .error hf hs
  | box hv => exact .box hv

/-- there is no scope to let go of twice -/
theorem Cell.releaseOuter_releaseOuter (c : Cell) : c.releaseOuter.releaseOuter = c.releaseOuter := by
  cases c with
  | function f =>
    obtain ⟨name, params, body⟩ := f
    cases body <;> rfl
  | _ => rfl

/-- only an object that lies in a scope is changed by letting go of it -/
theorem Cell.eq_of_releaseOuter {c c' : Cell} (h : c.releaseOuter = c') (hout : c'.outer = .none) : c = c' := by
  subst h
  cases c with
  | function f =>
    obtain ⟨name, params, body⟩ := f
    cases body with
    | forms list scope => cases hout
    | primitive p special => rfl
  | scope s => cases hout
  | _ => rfl

namespace Heap

variable {b : Nat} {hp : Heap}

theorem cell?_insert_cases {c x : Cell} {epoch : Nat} {text : Bool} {h : Handle}
    (hx : (hp.insert c epoch text).cell? h = some x) : x = c ∨ hp.cell? h = some x := by
  unfold insert at hx
  split at hx
  · simp only [cell?, slot?, Array.getElem?_setIfInBounds] at hx ⊢
    split at hx
    · split at hx
      · exact .inl (by simpa using hx.symm)
      · simp at hx
    · exact .inr hx
  · simp only [cell?, slot?, Array.getElem?_push] at hx ⊢
    split at hx
    · exact .inl (by simpa using hx.symm)
    · exact .inr hx

theorem Clean.insert (hhp : hp.Clean b) {c : Cell} (hc : c.IsClean b) (epoch : Nat) (text : Bool) :
    (hp.insert c epoch text).Clean b where
  cells h x hx := by
    rcases cell?_insert_cases hx with rfl | hx
    · exact hc
    · exact hhp.cells h x hx
  order := hhp.order.insert c epoch text
  spare := hhp.spare.insert hhp.order c epoch text

/-- an object that is no error is written to -/
theorem Clean.write (hhp : hp.Clean b) {h : Handle} (hh : ∀ x, hp.cell? h ≠ some (.error x)) {c : Cell} (hc : c.IsClean b) :
    (hp.write h c).Clean b where
  cells t x hx := by
    obtain ⟨s, hs, rfl⟩ := cell?_eq_some.1 hx
    rw [slot?_write] at hs
    split at hs
    · obtain ⟨s₀, -, rfl⟩ := Option.map_eq_some_iff.1 hs
      exact hc
    · exact hhp.cells t s.cell (cell?_of_slot? hs)
  order := hhp.order.same (.write ..)
  spare := hhp.spare.write hh

theorem Clean.mark (hhp : hp.Clean b) (epoch : Nat) (work : List Handle) : (hp.mark epoch work).Clean b where
  cells h x hx := hhp.cells h x (by rw [← (mark_restamped hp work).cell?]; exact hx)
  order := hhp.order.mark epoch work
  spare := hhp.spare.restamped (mark_restamped hp work)

/-- after a sweep there are no objects but those that were there, perhaps without the scope around them -/
theorem cell?_sweep {epoch : Nat} {h : Handle} {x : Cell} (hx : (hp.sweep epoch).1.cell? h = some x) :
    ∃ c, hp.cell? h = some c ∧ (x = c ∨ x = c.releaseOuter) := by
  have hdetach (kept : List Handle) : ∀ {hp : Heap}, (kept.foldl Heap.detach hp).cell? h = some x →
      ∃ c, hp.cell? h = some c ∧ (x = c ∨ x = c.releaseOuter) := by
    induction kept with
    | nil => exact fun hx => ⟨x, hx, .inl rfl⟩
    | cons t kept ih =>
      intro hp hx
      obtain ⟨c, hc, hsame⟩ := ih hx
      unfold Heap.detach at hc
      split at hc
      · exact ⟨c, hc, hsame⟩
      · rename_i old hold
        split at hc
        · split at hc
          · obtain ⟨s, hs, rfl⟩ := cell?_eq_some.1 hc
            rw [slot?_write] at hs
            split at hs
            · rename_i ht
              obtain ⟨s₀, -, rfl⟩ := Option.map_eq_some_iff.1 hs
              refine ⟨old, ht ▸ hold, .inr ?_⟩
              rcases hsame with rfl | rfl
              · rfl
              · exact Cell.releaseOuter_releaseOuter old
            · exact ⟨s.cell, cell?_of_slot? hs, hsame⟩
          · exact ⟨c, hc, hsame⟩
        · exact ⟨c, hc, hsame⟩
  rw [sweep_eq] at hx
  obtain ⟨c, hc, hsame⟩ := hdetach _ (show (List.foldl Heap.detach _ _).cell? h = some x from hx)
  obtain ⟨s, hs, rfl⟩ := cell?_eq_some.1 hc
  rw [slot?_releaseAll] at hs
  split at hs
  · cases hs
  · exact ⟨s.cell, cell?_of_slot? hs, hsame⟩

/-- a pass that starts from the error for a full heap -/
theorem Clean.pass (hhp : hp.Clean b) {epoch : Nat} {work : List Handle}
    (hwork : Machine.exhaustedError.handle ∈ work) : ((hp.mark epoch work).sweep epoch).1.Clean b where
  cells h x hx := by
    obtain ⟨c, hc, rfl | rfl⟩ := cell?_sweep hx
    · exact (hhp.mark epoch work).cells h x hc
    · exact ((hhp.mark epoch work).cells h c hc).releaseOuter
  order := (hhp.order.mark epoch work).sweep epoch
  spare := hhp.spare.pass hwork

end Heap

/-- taking a parameter list apart keeps the list it was read from -/
theorem Params.source_step {p p' : Params} {s s' : Section} {sym : Handle} {name : String}
    (h : p.step s sym name = .ok (p', s')) : p'.source = p.source := by
  have hadd {p'} (h : p.add s sym = .ok p') : p'.source = p.source := by
    cases s with
    | rest =>
      simp only [Params.add] at h
      split at h <;> cases h
      rfl
    | _ => cases h; rfl
  unfold Params.step at h
  split at h
  · split at h <;> cases h
    rfl
  · split at h <;> cases h
    exact hadd ‹_›

/-! ## Allocating -/

namespace Act

variable {b : Nat} {C : Cause → Prop}

/-- a new object gets the next handle, unless the heap is full -/
theorem ends_allocate (c : Cell) (text : Bool) (m : Machine) :
    (allocate c text).Ends m
      (fun h m' => h = m.heap.nextHandle ∧ m' = { m with heap := m.heap.insert c m.collector.epoch text })
      fun e m' => e = .fault .exhausted ∧ m' = { m with journal := .refused :: m.journal } := by
  unfold allocate
  refine .read ?_
  split
  · exact ⟨rfl, rfl⟩
  · exact ⟨rfl, rfl⟩

theorem still_allocate {c : Cell} (hc : c.IsClean b) (text : Bool) :
    Still b C (allocate c text) fun _ => True := fun m hm =>
  (ends_allocate c text m).mono (by rintro _ _ ⟨rfl, rfl⟩; exact ⟨⟨hm.insert hc _ _, rfl, rfl, rfl⟩, trivial⟩)
    (by rintro _ _ ⟨rfl, rfl⟩; exact ⟨⟨hm, rfl, rfl, rfl⟩, Failure.isKnown_fault nofun, nofun⟩)

theorem still_intern (name : String) : Still b C (intern name) fun _ => True := by
  unfold intern
  refine .read fun m hm => ?_
  split
  · exact .pure trivial
  · exact (still_allocate (.symbol name) false).bind fun _ _ =>
      .bind (.modify fun m hm => ⟨hm, rfl, rfl, rfl⟩) fun _ _ => .pure trivial

theorem still_symbol (name : String) : Still b C (symbol name) Value.IsPlain :=
  (still_intern name).bind fun _ _ => .pure ⟨rfl, rfl⟩

theorem still_gensym : Still b C gensym fun _ => True := by
  unfold gensym
  exact .read fun m hm => .bind (.modify fun m hm => ⟨hm, rfl, rfl, rfl⟩) fun _ _ => still_intern _

/-! ## Looking at objects -/

/-- the object a value names is clean -/
theorem still_resolve (v : Value) : Still b C (resolve v) fun o => ∀ s, o = some s → s.cell.IsClean b := by
  unfold resolve
  split
  · exact .pure (by simp)
  · refine .read fun m hm => ?_
    split
    · rename_i s hs
      refine .pure ?_
      rintro _ ⟨⟩
      exact hm.cells _ _ (Heap.cell?_of_slot? hs)
    · exact (Still.note _).bind fun _ _ => .fault (by simp)

/-- the object is looked at where it is -/
theorem ends_resolve (v : Value) (m : Machine) : (resolve v).Ends m
    (fun o m' => m' = m ∧ ∀ s, o = some s → ∃ h, v.handle? = some h ∧ m.heap.slot? h = some s)
    fun e m' => m' = { m with journal := .missed :: m.journal } ∧ ∃ h k, e = .fault (.freed h k) := by
  unfold resolve
  split
  · exact ⟨rfl, by simp⟩
  · rename_i h hh
    refine .read ?_
    split
    · rename_i s hs
      exact ⟨rfl, by rintro _ ⟨⟩; exact ⟨h, hh, hs⟩⟩
    · exact ⟨rfl, h, v.kind, rfl⟩

theorem still_asCons (v : Value) : Still b C (asCons v) fun _ => True := by
  unfold asCons
  split
  · refine (still_resolve _).bind fun o _ => ?_
    split <;> exact .pure trivial
  · exact .pure trivial

theorem still_asSymbol (v : Value) : Still b C (asSymbol v) fun _ => True := by
  unfold asSymbol
  split
  · refine (still_resolve _).bind fun o _ => ?_
    split <;> exact .pure trivial
  · exact .pure trivial

theorem still_asScope (v : Value) : Still b C (asScope v) fun _ => True := by
  unfold asScope
  split
  · refine (still_resolve _).bind fun o _ => ?_
    split <;> exact .pure trivial
  · exact .pure trivial

theorem still_asFunction (v : Value) :
    Still b C (asFunction v) fun o => ∀ f, o = some f → (Cell.function f).IsClean b := by
  unfold asFunction
  split
  · refine (still_resolve _).bind fun o ho => ?_
    split
    · refine .pure ?_
      rintro _ ⟨⟩
      exact ho _ rfl
    · exact .pure (by simp)
  · exact .pure (by simp)

theorem still_asBox (v : Value) : Still b C (asBox v) fun o => ∀ p, o = some p → p.2.IsPlain := by
  unfold asBox
  split
  · refine (still_resolve _).bind fun o ho => ?_
    split
    · refine .pure ?_
      rintro _ ⟨⟩
      have hclean := ho _ rfl
      cases hclean
      assumption
    · exact .pure (by simp)
  · exact .pure (by simp)

/-- a value that names an error is taken for that error -/
theorem ends_asErrorObject (v : Value) (m : Machine) : (asErrorObject v).Ends m
    (fun o m' => m' = m ∧ ∀ e, o = some e → m.heap.HoldsError e ∧ ∃ mood, v = e.value mood)
    fun e m' => m' = { m with journal := .missed :: m.journal } ∧ ∃ h k, e = .fault (.freed h k) := by
  unfold asErrorObject
  split
  · rename_i h mood
    refine Ends.bind (ends_resolve _ m) ?_
    rintro o _ ⟨rfl, ho⟩
    split
    · rename_i x epoch serial text
      obtain ⟨t, ht, hs⟩ := ho _ rfl
      cases ht
      exact ⟨rfl, by rintro _ ⟨⟩; exact ⟨⟨_, x, hs, rfl, rfl, rfl⟩, mood, rfl⟩⟩
    · exact ⟨rfl, by simp⟩
  · exact ⟨rfl, by simp⟩

/-- a function that has been looked up is looked up again with the same result, as long as the heap is the same -/
theorem ends_asFunction (v : Value) (m : Machine) : (asFunction v).Ends m
    (fun o m' => m' = m ∧ ∀ f, o = some f → ∀ m₁ : Machine, m₁.heap = m.heap → (asFunction v).run m₁ = .ok (some f) m₁)
    fun _ _ => True := by
  unfold asFunction
  split
  · refine Ends.bind ((ends_resolve _ m).mono (fun _ _ h => h) fun _ _ _ => trivial) ?_
    rintro o _ ⟨rfl, ho⟩
    split
    · rename_i g epoch serial text
      refine ⟨rfl, ?_⟩
      rintro _ ⟨⟩ m₁ hheap
      obtain ⟨t, ht, hs⟩ := ho _ rfl
      cases ht
      simp only [resolve, Value.handle?, run_bind, run_get, hheap, hs]
      rfl
    · exact ⟨rfl, by simp⟩
  · exact ⟨rfl, by simp⟩

theorem isPlain_fields {m : Machine} (hm : m.heap.Clean b) (c : Held) : (m.fields c).1.IsPlain ∧ (m.fields c).2.IsPlain := by
  unfold Machine.fields
  split
  · rename_i hs
    split
    · cases hm.cells _ _ (Heap.cell?_of_slot? hs)
      exact ⟨‹_›, ‹_›⟩
    · exact ⟨⟨rfl, rfl⟩, rfl, rfl⟩
  · exact ⟨⟨rfl, rfl⟩, rfl, rfl⟩

theorem still_fieldsOf (c : Held) : Still b C (fieldsOf c) fun p => p.1.IsPlain ∧ p.2.IsPlain := by
  unfold fieldsOf
  exact .read fun m hm => .noteIf (.pure (isPlain_fields hm c))

theorem still_carOf (c : Held) : Still b C (carOf c) Value.IsPlain :=
  (still_fieldsOf c).bind fun _ h => .pure h.1

theorem still_cdrOf (c : Held) : Still b C (cdrOf c) Value.IsPlain :=
  (still_fieldsOf c).bind fun _ h => .pure h.2

theorem still_keep {v : Value} (hv : v.IsPlain) : Still b C (keep v) fun k => k.value.IsPlain :=
  .read fun _ _ => .pure hv

theorem still_keepAll {vs : List Value} (hvs : ∀ v ∈ vs, v.IsPlain) :
    Still b C (keepAll vs) fun ks => ∀ k ∈ ks, k.value.IsPlain := by
  induction vs with
  | nil => exact .pure (by simp)
  | cons v vs ih =>
    rw [List.forall_mem_cons] at hvs
    exact (still_keep hvs.1).bind fun k hk => (ih hvs.2).bind fun ks hks => .pure (List.forall_mem_cons.2 ⟨hk, hks⟩)

theorem still_retrieve {k : Saved} (hk : k.value.IsPlain) : Still b C (retrieve k) Value.IsPlain :=
  .read fun _ _ => .noteIf (.pure hk)

theorem still_look (p : Place) : Still b C (look p) fun _ => True := .read fun _ _ => .noteIf (.pure trivial)

theorem still_numberOf (v : Value) : Still b C (numberOf v) fun _ => True := by
  unfold numberOf
  split
  · exact (still_look _).bind fun _ _ => .pure trivial
  · exact .pure trivial

/-! ## Walking lists -/

/-- what holds of the elements gone through so far goes on to hold -/
theorem still_walkFrom {α : Type} {f : α → Value → α} {P : α → Prop} (hf : ∀ acc a, P acc → a.IsPlain → P (f acc a)) (n : Nat)
    (second : Bool) (slow cur : Value) {acc : α} (hacc : P acc) :
    Still b C (walkFrom f n second slow cur acc) fun o => ∀ r, o = some r → P r := by
  have hend {acc : α} (hacc : P acc) : ∀ r, some acc = some r → P r := fun r hr => Option.some.inj hr ▸ hacc
  induction n generalizing second slow cur acc with
  | zero =>
    cases cur with
    | nil => exact .pure (hend hacc)
    | _ => exact .fault (by simp)
  | succ n ih =>
    cases cur with
    | nil => exact .pure (hend hacc)
    | _ =>
      simp only [walkFrom]
      refine (still_asCons _).bind fun o _ => ?_
      cases o with
      | none => exact .pure (by simp)
      | some c =>
        refine .read fun m hm => ?_
        have hnext := hf acc _ hacc (isPlain_fields hm c).1
        split
        · refine (still_asCons _).bind fun o _ => ?_
          cases o with
          | none => exact .fault (by simp)
          | some s =>
            refine .read fun m' _ => ?_
            split
            · exact .pure (by simp)
            · exact ih _ _ _ hnext
        · exact ih _ _ _ hnext

/-- walking along a list changes nothing on the heap -/
theorem ends_listItems (list : Value) (m : Machine) : (listItems list).Ends m (fun _ m' => m'.heap = m.heap) fun _ _ => True := by
  have hcons (v : Value) (m : Machine) : (asCons v).Ends m (fun _ m' => m' = m) fun _ _ => True := by
    unfold asCons
    split
    · refine Ends.bind ((ends_resolve _ m).mono (fun _ _ h => h.1) fun _ _ _ => trivial) ?_
      rintro o _ rfl
      split <;> exact rfl
    · exact rfl
  have hwalk (n : Nat) : ∀ (second : Bool) (slow cur : Value) (acc : List Value) (m : Machine),
      (walkFrom (fun items a => a :: items) n second slow cur acc).Ends m (fun _ m' => m' = m) fun _ _ => True := by
    induction n with
    | zero =>
      intro second slow cur acc m
      cases cur <;> first | exact rfl | trivial
    | succ n ih =>
      intro second slow cur acc m
      cases cur with
      | nil => exact rfl
      | _ =>
        simp only [walkFrom]
        refine Ends.bind (hcons _ m) ?_
        rintro o _ rfl
        split
        · exact rfl
        · refine .read ?_
          split
          · refine Ends.bind (hcons _ _) ?_
            rintro o _ rfl
            split
            · trivial
            · refine .read ?_
              split
              · exact rfl
              · exact ih _ _ _ _ _
          · exact ih _ _ _ _ _
  unfold listItems walkList
  refine Ends.bind (P := fun _ m' => m' = m) (.read (Ends.bind (P := fun _ m' => m' = m) (hwalk _ _ _ _ _ m) ?_)) ?_
  · rintro o _ rfl
    split
    · exact rfl
    · trivial
  · rintro items _ rfl
    exact rfl

theorem still_walkList {α : Type} {f : α → Value → α} {P : α → Prop} (hf : ∀ acc a, P acc → a.IsPlain → P (f acc a)) {init : α}
    (hinit : P init) {list : Value} (hlist : list.IsPlain) : Still b Cause.IsFine (walkList f init list) P := by
  unfold walkList
  refine .read fun m hm => (still_walkFrom hf _ _ _ _ hinit).bind fun o ho => ?_
  split
  · exact .pure (ho _ rfl)
  · exact .raise (by rintro _ ⟨⟩; exact hlist) (by simp)

theorem still_listItems {list : Value} (hlist : list.IsPlain) :
    Still b Cause.IsFine (listItems list) fun items => ∀ v ∈ items, v.IsPlain := by
  have hcons (items : List Value) (a : Value) (hitems : ∀ v ∈ items, v.IsPlain) (ha : a.IsPlain) : ∀ v ∈ a :: items, v.IsPlain :=
    List.forall_mem_cons.2 ⟨ha, hitems⟩
  exact (still_walkList hcons (by simp) hlist).bind fun items hitems => .pure fun v hv => hitems v (List.mem_reverse.1 hv)

theorem still_listLength {list : Value} (hlist : list.IsPlain) : Still b Cause.IsFine (listLength list) fun _ => True :=
  still_walkList (fun _ _ _ _ => trivial) trivial hlist

/-! ## Printing -/

section Printing

open Render

theorem still_into (around : List Value) (v : Value) : Still b C (into around v) fun _ => True := by
  unfold into
  split
  · exact .fault (by simp)
  · exact .pure trivial

theorem still_start (around : List Value) (v : Value) : Still b C (start around v) fun _ => True := by
  have hobject (m : Machine) (v : Value) (h : Handle) (c : Cell) :
      Still b C (startObject m around v h c) fun _ => True := by
    cases c with
    | box x => exact (still_into around v).bind fun _ _ => .pure trivial
    | error e => exact (still_into around v).bind fun _ _ => .pure trivial
    | _ => exact .pure trivial
  unfold start
  split
  · exact .pure trivial
  · split
    · exact (still_into around _).bind fun _ _ => (still_look _).bind fun _ _ => .pure trivial
    · split
      · exact .pure trivial
      · refine .read fun m hm => ?_
        split
        · exact hobject _ _ _ _
        · exact (Still.note _).bind fun _ _ => .pure trivial

theorem still_run (n : Nat) (j : Job) (acc : List String) : Still b C (Render.run n j acc) fun _ => True := by
  induction n generalizing j acc with
  | zero => simp only [Render.run]; exact .fault (by simp)
  | succ n ih =>
    cases j with
    | value around v =>
      simp only [Render.run]
      refine (still_start around v).bind fun r _ => ?_
      cases r with
      | inl s => exact .pure trivial
      | inr job => exact ih job acc
    | element around opened v =>
      cases v with
      | cons h =>
        simp only [Render.run]
        refine .read fun m hm => ?_
        split
        · exact (Still.note _).bind fun _ _ => .fault (by simp)
        · exact ih _ _
        · exact ih _ _
      | _ => simp only [Render.run]; exact ih _ _
    | list around opened h =>
      simp only [Render.run]
      split
      · exact .pure trivial
      · exact ih _ _
    | chain around opened h =>
      simp only [Render.run]
      refine .read fun m hm => ?_
      split
      · rename_i a d _
        refine (ih _ _).bind fun acc _ => ?_
        have hdotted (opened : List Handle) : Still b C
            (do return ")" :: (← Render.run n (.element around opened d) (" . " :: acc)) : Act (List String)) fun _ => True :=
          (ih _ _).bind fun _ _ => .pure trivial
        split
        · exact .pure trivial
        · refine .read fun m hm => ?_
          split
          · exact (Still.note _).bind fun _ _ => .fault (by simp)
          · split
            · exact .pure trivial
            · exact ih _ _
          · exact hdotted _
        · exact hdotted _
      · exact .pure trivial
    | parts around ps =>
      cases ps with
      | nil => simp only [Render.run]; exact .pure trivial
      | cons p ps =>
        cases p with
        | text s => simp only [Render.run]; exact ih _ _
        | kindName kind => simp only [Render.run]; exact (still_intern _).bind fun _ _ => ih _ _
        | payload v =>
          simp only [Render.run]
          refine (ih _ _).observe.bind fun r hr => ?_
          split
          · exact ih _ _
          · exact .fault (by simp)
          · exact ih _ _
          · exact .throw hr

theorem still_printJob (j : Job) : Still b C (printJob j) fun _ => True := by
  rw [printJob_eq]
  exact (still_run _ j []).bind fun _ _ => .pure trivial

theorem still_print (v : Value) : Still b C (print v) fun _ => True := still_printJob _

theorem still_printIn (verb : String) (v : Value) : Still b C (printIn verb v) fun _ => True := by
  unfold printIn
  refine (still_print v (C := C)).observe.bind fun r hr => ?_
  split
  · exact .pure trivial
  · exact .fault (by simp)
  · exact .pure trivial
  · exact .throw hr

theorem still_errorMessage (e : HeldError) : Still b C (errorMessage e) fun _ => True := by
  unfold errorMessage
  exact .read fun m hm => .noteIf (still_printJob _)

theorem still_debugText (v : Value) : Still b C (debugText v) fun _ => True :=
  (still_printIn "s" v).bind fun _ _ => .pure trivial

end Printing

/-! ## Parameter lists -/

theorem still_parseItems {list : Value} (items : List Value) {p : Params} (hp : p.source.IsPlain) (s : Section) :
    Still b Cause.IsFine (parseItems list items p s) fun p => p.source.IsPlain := by
  induction items generalizing p s with
  | nil => exact .pure hp
  | cons item items ih =>
    unfold parseItems
    refine (still_asSymbol item).bind fun o _ => ?_
    split
    · exact .raise (by rintro _ ⟨⟩) (by simp)
    · refine .read fun m hm => ?_
      split
      · rename_i hstep
        exact ih (Params.source_step hstep ▸ hp) _
      · exact (still_printIn "s" list).bind fun _ _ => .raise (by rintro _ ⟨⟩) (by simp)
      · exact (still_printIn "s" list).bind fun _ _ => .raise (by rintro _ ⟨⟩) (by simp)

theorem still_parseParams {list : Value} (hlist : list.IsPlain) :
    Still b Cause.IsFine (parseParams list) fun p => p.source.IsPlain :=
  (still_listItems hlist).bind fun items _ => still_parseItems items hlist .required

theorem still_keyOf (sym : Handle) : Still b C (keyOf sym) fun _ => True := by
  unfold keyOf
  refine .read fun m hm => ?_
  simp only
  split
  · exact .pure trivial
  · exact still_intern _

/-! ## Collecting -/

theorem still_collect (trigger : Trigger) : Still b C (collect trigger) fun _ => True := by
  unfold collect checkRoots
  refine (Still.note _).bind fun _ _ => Still.bind (P := fun _ => True) (.read fun m hm => ?_) fun _ _ => fun m hm => ?_
  · split
    · exact .pure trivial
    · exact .bind (.modify fun m hm => ⟨hm, rfl, rfl, rfl⟩) fun _ _ => .fault (by simp)
  · exact ⟨⟨hm.pass (by simp [Machine.markingStart]), rfl, rfl, rfl⟩, trivial⟩

theorem still_maybeCollect : Still b C maybeCollect fun _ => True := by
  unfold maybeCollect
  refine .read fun m hm => ?_
  split
  · exact .pure trivial
  · split
    · exact .pure trivial
    · exact (still_collect .threshold).bind fun _ _ => .pure trivial

/-- a pass that may be taken keeps the objects of the errors that are to stay -/
theorem ends_maybeCollect {th : ThreadId} {m : Machine} (hm : m.heap.Clean b) (ho : (m.thread th).isOpen = true) :
    maybeCollect.Ends m (fun _ m' => Machine.Steady b m m' ∧ ∀ e, m.Secure th e → m'.Secure th e) fun e m' =>
      Machine.Steady b m m' ∧ e.IsBare C := by
  have hpass (trigger : Trigger) : (collect trigger).Ends m
      (fun _ m' => ∃ epoch, m'.heap = ((m.heap.mark epoch m.markingStart).sweep epoch).1) fun _ _ => True := by
    unfold collect checkRoots
    refine Ends.bind (P := fun _ m' => m' = { m with journal := .passed trigger :: m.journal }) rfl ?_
    rintro _ _ rfl
    refine Ends.bind (P := fun _ m' => m' = { m with journal := .passed trigger :: m.journal }) (.read ?_) ?_
    · split
      · exact rfl
      · trivial
    · rintro _ _ rfl
      exact ⟨_, rfl⟩
  have hheap : maybeCollect.Ends m (fun _ m' => m'.heap = m.heap ∨
      ∃ epoch, m'.heap = ((m.heap.mark epoch m.markingStart).sweep epoch).1) fun _ _ => True := by
    unfold maybeCollect
    refine .read ?_
    split
    · exact .inl rfl
    · split
      · exact .inl rfl
      · exact Ends.bind (hpass .threshold) fun _ _ h => .inr h
  refine ((still_maybeCollect m hm).and hheap).mono (fun _ m' h => ⟨h.1.1, fun e he => ⟨?_, ?_⟩⟩) fun _ _ h => h.1
  · rcases h.2 with heq | ⟨epoch, heq⟩ <;> rw [heq]
    · exact he.holds
    · refine he.holds.pass (Machine.mem_markingStart.2 ?_)
      rcases he.pinned with rfl | ⟨mood, hpin⟩
      · exact .exhausted
      · exact .pin (Machine.mem_threads ho) ho hpin (.error _ _)
  · rw [h.1.1.thread]
    exact he.pinned

end Act

end LispMachine
