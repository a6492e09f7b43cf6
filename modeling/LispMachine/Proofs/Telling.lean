/-
When printing ends.

The printer does one job after another (`Act.prints_run`): each takes one step, starts others that fewer steps are due for, and has
told of its values what its parts have told. `Machine.print_decides`: printing ends in one of the two ways, unless the heap is full or
a value refers to what has been released, and the journal tells of that. It makes symbols, for the names of the kinds of errors, and
changes nothing else (`Machine.Worded`).
-/
import LispMachine.Proofs.Interning
import LispMachine.Proofs.Orderly
import LispMachine.Proofs.Parts

namespace LispMachine

namespace Machine

variable {m m' m'' : Machine} {h : Handle}

/-! ## What printing changes -/

/-- a machine in which nothing is new but symbols -/
structure Worded (m m' : Machine) : Prop where
  order : m'.heap.InOrder
  kept : ∀ h c, m.cell? h = some c → m'.cell? h = some c
  new : ∀ h c, m'.cell? h = some c → m.cell? h = some c ∨ ∃ name, c = .symbol name
  slots : ∀ id i, m'.load (.stack id i) = m.load (.stack id i)
  journal : m.journal <:+ m'.journal

theorem Worded.refl (hm : m.heap.InOrder) : m.Worded m :=
  ⟨hm, fun _ _ h => h, fun _ _ h => .inl h, fun _ _ => rfl, List.suffix_rfl⟩

theorem Worded.noted (hw : m.Worded m') (e : Event) : m.Worded { m' with journal := e :: m'.journal } :=
  ⟨hw.order, hw.kept, hw.new, hw.slots, hw.journal.trans (List.suffix_cons ..)⟩

theorem Worded.noted_ne (hw : m.Worded m') (e : Event) : e :: m'.journal ≠ m.journal := by
  intro h
  have := hw.journal.length_le
  rw [← h, List.length_cons] at this
  omega

/-- when nothing has been noted at the end, nothing had been before -/
theorem Worded.calm (hw : m.Worded m') (hgrows : m'.journal <:+ m''.journal) (hcalm : m''.journal = m.journal) :
    m'.journal = m.journal := (hw.journal.eq_of_length (le_antisymm hw.journal.length_le (hcalm ▸ hgrows.length_le))).symm

theorem Worded.load_eq (hw : m.Worded m') (p : Place) : m'.load p = m.load p := by
  cases p with
  | stack id i => exact hw.slots id i
  | _ h =>
    cases hc : m.cell? h with
    | some c => simp only [load, hc, hw.kept h c hc]
    | none =>
      cases hc' : m'.cell? h with
      | none => simp only [load, hc, hc']
      | some c =>
        obtain ⟨name, rfl⟩ := (hw.new h c hc').resolve_left (by simp [hc])
        simp only [load, hc, hc']

theorem Worded.cell_eq (hw : m.Worded m') {c : Cell} (hc : m'.cell? h = some c) (hsymbol : ∀ name, c ≠ .symbol name) :
    m.cell? h = some c := (hw.new h c hc).resolve_right fun ⟨name, hname⟩ => hsymbol name hname

/-- what is no pair now has not been one before -/
theorem Worded.not_isPair (hw : m.Worded m') (hc : ∀ a d, m'.cell? h ≠ some (.cons a d)) : ¬ m.IsPair (.cons h) := by
  rintro ⟨_, a, d, ⟨⟩, hc'⟩
  exact hc a d (hw.kept h _ hc')

/-- a new symbol -/
theorem Worded.named (hw : m.Worded m') (name : String) {symbols : List (String × Handle)} :
    m.Worded { m'.inserting (.symbol name) false with symbols := symbols } where
  order := hw.order.insert ..
  kept h c hc := Heap.cell?_insert hw.order (hw.kept h c hc) ..
  new h c hc := by
    unfold cell? Heap.cell? inserting at hc
    rw [hw.order.slot?_insert] at hc
    split at hc
    · exact .inr ⟨name, (Option.some.inj hc).symm⟩
    · exact hw.new h c hc
  slots := hw.slots
  journal := hw.journal

/-! ## Jobs -/

/-- how printing fails: the heap has no room for a name, or something is gone, and that has been noted; or it would never end -/
def PrintFails (m : Machine) (endless : Prop) (e : Failure) (m' : Machine) : Prop :=
  m.Worded m' ∧ (m'.journal ≠ m.journal ∧ (e = .fault .exhausted ∨ ∃ h, e = .fault (.freed h .cons)) ∨ e = .fault .endless ∧ endless)

theorem PrintFails.mono {p q : Prop} {e : Failure} (hpq : p → q) (hf : m.PrintFails p e m') : m.PrintFails q e m' :=
  ⟨hf.1, hf.2.imp_right fun h => ⟨h.1, hpq h.2⟩⟩

/-- the steps are too few for a job, wherever it belongs to -/
def Lacks (m : Machine) (n : Nat) (j : Render.Job) : Prop := ∀ v₀, m.OnlyPairsRecur v₀ → ¬ m.Affords v₀ n j

/-- How a job is printed: if nothing is noted then a text tells what it should, and it goes on for ever only where there are too few
steps for it. -/
def Prints (m : Machine) (n : Nat) (j : Render.Job) : Prop := ∀ (m' : Machine) (acc : List String), m.Worded m' →
  (Render.run n j acc).Ends m' (fun _ m'' => m.Worded m'' ∧ (m''.journal = m.journal → m.Told j)) (m.PrintFails (m.Lacks n j))

/-- a job comes down to another one -/
theorem Prints.of {n : Nat} {j j' : Render.Job} {told : Prop} (hj : m.Prints n j')
    (haffords : ∀ v₀, m.OnlyPairsRecur v₀ → m.Affords v₀ (n + 1) j → m.Affords v₀ n j') (htold : m.Told j' → told) (hw : m.Worded m')
    (acc : List String) : (Render.run n j' acc).Ends m' (fun _ m'' => m.Worded m'' ∧ (m''.journal = m.journal → told))
      (m.PrintFails (m.Lacks (n + 1) j)) :=
  (hj m' acc hw).mono (fun _ _ h => ⟨h.1, fun hcalm => htold (h.2 hcalm)⟩) fun _ _ h =>
    h.mono fun hlacks v₀ hrecur hf => hlacks v₀ hrecur (haffords v₀ hrecur hf)

end Machine

namespace Act

open Machine

variable {α : Type} {m m' : Machine} {v v₀ w : Value} {h : Handle} {path around : List Value} {opened : List Handle} {p : Prop}

/-- something that is gone has been noted -/
theorem ends_missed (hw : m.Worded m') {x : Act α} {Q : α → Machine → Prop} (hx : ∀ m'' : Machine, m.Worded m'' →
    m''.journal ≠ m.journal → x.Ends m'' Q (m.PrintFails p)) : (do note .missed; x).Ends m' Q (m.PrintFails p) :=
  Ends.bind (P := fun _ m'' => m.Worded m'' ∧ m''.journal ≠ m.journal) ⟨hw.noted _, hw.noted_ne _⟩ fun _ m'' h => hx m'' h.1 h.2

theorem ends_freed (hw : m.Worded m') (h : Handle) {Q : α → Machine → Prop} :
    (do note .missed; fault (.freed h .cons) : Act α).Ends m' Q (m.PrintFails p) :=
  ends_missed hw fun _ hw hnoted => ⟨hw, .inl ⟨hnoted, .inr ⟨h, rfl⟩⟩⟩

theorem ends_into (hw : m.Worded m') (hv : ¬ m.IsPair v) : (Render.into around v).Ends m'
    (fun inner m'' => inner = v :: around ∧ m.Worded m'') (m.PrintFails (¬ m.IsPair v ∧ v ∈ around)) := by
  unfold Render.into
  split
  · rename_i hmem
    exact ⟨hw, .inr ⟨rfl, hv, List.contains_iff_mem.1 hmem⟩⟩
  · exact ⟨rfl, hw⟩

theorem ends_look (hw : m.Worded m') (q : Place) : (look q).Ends m' (fun x m'' => x = m.load q ∧ m.Worded m'') (m.PrintFails p) := by
  unfold look
  refine .read ?_
  split
  · exact ends_missed hw fun _ hw' _ => ⟨hw.load_eq q, hw'⟩
  · exact ⟨hw.load_eq q, hw⟩

theorem ends_intern (hw : m.Worded m') (name : String) : (intern name).Ends m' (fun _ m'' => m.Worded m'') (m.PrintFails p) := by
  cases hs : m'.symbols.lookup name with
  | some h =>
    unfold Ends
    rw [run_intern_known hs]
    exact hw
  | none =>
    unfold Ends
    rw [run_intern_new hs]
    cases m'.heap.isFull with
    | true => exact ⟨hw.noted _, .inl ⟨hw.noted_ne _, .inl rfl⟩⟩
    | false => exact hw.named name

/-- `x` starts the printing of a value -/
def IsStart (m : Machine) (around : List Value) (v : Value) (x : Act (String ⊕ Render.Job)) (m' : Machine) : Prop :=
  x.Ends m' (fun r m'' => m.Worded m'' ∧ (m.Starts around v r ∨ (∃ s, r = .inl s) ∧ m''.journal ≠ m.journal))
    (m.PrintFails (¬ m.IsPair v ∧ v ∈ around))

theorem isStart_object (hw : m.Worded m') {c : Cell} (hv : v.handle? = some h) (hc : m'.cell? h = some c) :
    IsStart m around v (Render.startObject m' around v h c) m' := by
  unfold Render.startObject
  cases c with
  | box x =>
    have hc := hw.cell_eq hc (by simp)
    have hother := not_isPair_of_cell hv hc (by simp)
    refine (ends_into hw hother).bind ?_
    rintro _ m'' ⟨rfl, hw⟩
    exact ⟨hw, .inl (.value hother fun w => by simp [hasPart_iff_of_handle hv hc, shownIn])⟩
  | cons a d =>
    have hc := hw.cell_eq hc (by simp)
    refine ⟨hw, .inl ?_⟩
    by_cases hpair : m.IsPair v
    · obtain ⟨h', _, _, rfl, -⟩ := id hpair
      cases hv
      exact .pair rfl hpair
    · exact .list hpair ⟨h, a, d, rfl, hc⟩ fun w => by rw [hasPart_iff_of_handle hv hc, hasPart_iff_of_handle rfl hc]
  | error e =>
    have hc := hw.cell_eq hc (by simp)
    have hother := not_isPair_of_cell hv hc (by simp)
    refine (ends_into hw hother).bind ?_
    rintro _ m'' ⟨rfl, hw⟩
    refine ⟨hw, .inl (.parts hother (Render.length_message m' e).1 fun w => ?_)⟩
    rw [Render.payloads_message m m', hasPart_iff_of_handle hv hc, shownIn]
  | symbol name =>
    -- the symbol may be new where there was nothing
    refine ⟨hw, .inl (.text fun w hpart => ?_)⟩
    cases hpart with
    | place => cases hv
    | held hv' hc' hmem =>
      cases hv.symm.trans hv'
      cases hc.symm.trans (hw.kept h _ hc')
      simp [shownIn] at hmem
  | scope s | function f =>
    have hc := hw.cell_eq hc (by simp)
    exact ⟨hw, .inl (.text fun w => by simp [hasPart_iff_of_handle hv hc, shownIn])⟩

theorem isStart_start (hw : m.Worded m') (around : List Value) (v : Value) : IsStart m around v (Render.start around v) m' := by
  have htext {s : String} (hplain : v.handle? = none) (hplace : ∀ q, v ≠ .ref q) : IsStart m around v (pure (.inl s)) m' := by
    refine ⟨hw, .inl (.text fun w hpart => ?_)⟩
    cases hpart with
    | place q => exact hplace q rfl
    | held hv => cases hplain.symm.trans hv
  cases v with
  | ref q =>
    have hother : ¬ m.IsPair (.ref q) := not_isPair_ref q
    refine (ends_into hw hother).bind ?_
    rintro _ m'' ⟨rfl, hw⟩
    refine (ends_look hw q).bind ?_
    rintro _ m'' ⟨rfl, hw⟩
    exact ⟨hw, .inl (.value hother fun u => hasPart_ref_iff)⟩
  | cons h | symbol h | scope h | function h | error h mood | box h =>
    unfold IsStart
    refine .read ?_
    cases hc : m'.cell? h with
    | some c => exact isStart_object hw rfl hc
    | none => exact ends_missed hw fun _ hw hnoted => ⟨hw, .inr ⟨⟨_, rfl⟩, hnoted⟩⟩
  | _ =>
    refine htext rfl fun q hv => ?_
    cases hv

/-- what holds if nothing is noted is not lost on the way to a later machine where nothing is -/
theorem ends_calm (hw : m.Worded m') {x : Act α} {before after : Prop} (hbefore : m'.journal = m.journal → before)
    (hx : x.Ends m' (fun _ m'' => m.Worded m'' ∧ (m''.journal = m.journal → before → after)) (m.PrintFails p)) :
    x.Ends m' (fun _ m'' => m.Worded m'' ∧ (m''.journal = m.journal → after)) (m.PrintFails p) := by
  have hgrows := x.grows m'
  unfold Ends at *
  cases hrun : x.run m' with
  | ok a m'' =>
    rw [hrun] at hx hgrows
    exact ⟨hx.1, fun hcalm => hx.2 hcalm (hbefore (hw.calm hgrows hcalm))⟩
  | error e m'' =>
    rw [hrun] at hx
    exact hx

section

variable {n : Nat} (ih : ∀ j, m.Prints n j)
include ih

theorem prints_value (around : List Value) (v : Value) : m.Prints (n + 1) (.value around v) := by
  intro m' acc hw
  rw [Render.run]
  refine ((isStart_start hw around v).mono (fun _ _ h => h) fun _ _ h => h.mono ?_).bind ?_
  · rintro ⟨hother, hmem⟩ v₀ hrecur ⟨path, hway, -⟩
    exact hway.not_mem hrecur hother (hway.around hmem)
  · rintro r m'' ⟨hw, hs | ⟨⟨s, rfl⟩, hnoted⟩⟩
    · cases r with
      | inl s =>
        cases hs with
        | text hno => exact ⟨hw, fun _ => onlyPairsRecur_of_parts fun w hpart => absurd hpart (hno w)⟩
      | inr job => exact (ih job).of (fun v₀ hrecur hf => hs.affords hrecur hf) (fun htold => hs.told htold) hw acc
    · exact ⟨hw, fun hcalm => absurd hcalm hnoted⟩

theorem prints_element (around : List Value) (opened : List Handle) (v : Value) : m.Prints (n + 1) (.element around opened v) := by
  intro m' acc hw
  have hvalue (hother : ¬ m.IsPair v) := (ih (.value around v)).of (j := .element around opened v)
    (fun v₀ _ hf => affords_other hother hf) (fun htold w (hmeets : m.Meets opened v w) => hmeets.eq hother ▸ htold) hw acc
  cases v with
  | cons h =>
    rw [Render.run]
    refine .read ?_
    cases hc : m'.cell? h with
    | none => exact ends_freed hw h
    | some c =>
      cases c with
      | cons a d =>
        have hpair : m.IsPair (.cons h) := ⟨h, a, d, rfl, hw.cell_eq hc (by simp)⟩
        exact (ih (.list around opened h)).of (j := .element around opened (.cons h))
          (fun v₀ _ hf => affords_list hf) (fun htold => htold hpair) hw acc
      | _ => exact hvalue (hw.not_isPair (by simp [hc]))
  | _ =>
    simp only [Render.run]
    refine hvalue ?_
    rintro ⟨_, _, _, hv, _⟩
    cases hv

theorem prints_list (around : List Value) (opened : List Handle) (h : Handle) : m.Prints (n + 1) (.list around opened h) := by
  intro m' acc hw
  rw [Render.run]
  split
  · rename_i hin
    exact ⟨hw, fun _ hpair w hmeets => absurd (List.contains_iff_mem.1 hin) (hmeets.not_mem hpair)⟩
  · rename_i hout
    have hout : h ∉ opened := fun hmem => hout (List.contains_iff_mem.2 hmem)
    exact (ih (.chain around opened h)).of (j := .list around opened h)
      (fun v₀ _ hf => affords_chain hout hf)
      (fun htold hpair w hmeets => told_meets htold hpair hmeets) hw _

theorem prints_chain (around : List Value) (opened : List Handle) (h : Handle) : m.Prints (n + 1) (.chain around opened h) := by
  intro m' acc hw
  rw [Render.run]
  refine .read ?_
  dsimp only
  cases hc : m'.cell? h with
  | none => exact ⟨hw, fun _ hpair => absurd hpair (hw.not_isPair (by simp [hc]))⟩
  | some c =>
    cases c with
    | cons a d =>
      have hc := hw.cell_eq hc (by simp)
      have helement (w : Value) (hmem : w ∈ [a, d]) {told : Prop} (htold : m.Told (.element around (h :: opened) w) → told)
          {m₁ : Machine} (hw : m.Worded m₁) := (ih (.element around (h :: opened) w)).of (j := .chain around opened h)
            (fun v₀ _ hf => affords_field hc hmem hf) htold hw
      refine (helement a (by simp) id hw acc).bind ?_
      rintro acc m₁ ⟨hw, hfirst⟩
      refine ends_calm hw hfirst ?_
      have hdotted : (do return ")" :: (← Render.run n (.element around (h :: opened) d) (" . " :: acc)) : Act (List String)).Ends m₁
          (fun _ m'' => m.Worded m'' ∧
            (m''.journal = m.journal → m.Told (.element around (h :: opened) a) → m.Told (.chain around opened h)))
          (m.PrintFails (m.Lacks (n + 1) (.chain around opened h))) :=
        (helement d (by simp) (fun hrest hfirst => told_chain hc hfirst hrest) hw _).bind fun _ _ h => h
      cases d with
      | nil => exact ⟨hw, fun _ hfirst => told_chain hc hfirst fun w hmeets => hmeets.of_nil⟩
      | cons next =>
        refine .read ?_
        cases hc' : m₁.cell? next with
        | none => exact ends_freed hw next
        | some c =>
          cases c with
          | cons a' d' =>
            have hpair : m.IsPair (.cons next) := ⟨next, a', d', rfl, hw.cell_eq hc' (by simp)⟩
            dsimp only
            split
            -- the list comes back to a pair that is open: nothing is met beyond it that has not been met before
            · rename_i hin
              exact ⟨hw, fun _ hfirst => told_chain hc hfirst fun w hmeets =>
                absurd (List.contains_iff_mem.1 hin) (hmeets.not_mem hpair)⟩
            · rename_i hout
              have hout : next ∉ h :: opened := fun hmem => hout (List.contains_iff_mem.2 hmem)
              exact (ih (.chain around (h :: opened) next)).of (j := .chain around opened h) (fun v₀ _ hf => affords_next hc hout hf)
                (fun htold hfirst => told_chain hc hfirst fun w hmeets => told_meets htold hpair hmeets) hw _
          | _ => exact hdotted
      | _ => exact hdotted
    | _ => exact ⟨hw, fun _ hpair => absurd hpair (hw.not_isPair (by simp [hc]))⟩

theorem prints_parts (around : List Value) (ps : List Part) : m.Prints (n + 1) (.parts around ps) := by
  intro m' acc hw
  cases ps with
  | nil => exact ⟨hw, fun _ w hmem => nomatch hmem⟩
  | cons part ps =>
    have hrest {told : Prop} (htold : m.Told (.parts around ps) → told) {m₁ : Machine} (hw : m.Worded m₁) :=
      (ih (.parts around ps)).of (j := .parts around (part :: ps)) (fun v₀ _ hf => affords_parts hf) htold hw
    cases part with
    | text s =>
      rw [Render.run]
      exact hrest id hw _
    | kindName k =>
      rw [Render.run]
      exact (ends_intern hw k.name).bind fun _ _ hw => hrest id hw _
    | payload v =>
      have htold (hps : m.Told (.parts around ps)) (hv : m.OnlyPairsRecur v) : m.Told (.parts around (.payload v :: ps)) :=
        List.forall_mem_cons.2 ⟨hv, hps⟩
      have hvalue := (ih (.value around v)).of (j := .parts around (.payload v :: ps)) (fun v₀ _ hf => affords_payload hf) id hw []
      rw [Render.run]
      refine hvalue.observing ?_ ?_
      · rintro texts m₁ ⟨hw, hv⟩
        exact ends_calm hw hv (hrest htold hw _)
      · rintro e m₁ ⟨hw, ⟨hnoted, rfl | ⟨h, rfl⟩⟩ | ⟨rfl, hlacks⟩⟩
        · exact ends_calm hw (fun hcalm => absurd hcalm hnoted) (hrest htold hw _)
        · exact ends_calm hw (fun hcalm => absurd hcalm hnoted) (hrest htold hw _)
        · exact ⟨hw, .inr ⟨rfl, hlacks⟩⟩

end

/-- every job is printed so, in whatever number of steps -/
theorem prints_run (m : Machine) (n : Nat) (j : Render.Job) : m.Prints n j := by
  induction n generalizing j with
  | zero =>
    -- whatever a job belongs to, at least one step is due for it
    refine fun m' acc hw => ⟨hw, .inr ⟨rfl, fun v₀ _ hf => ?_⟩⟩
    cases j with
    | value | element | list | chain =>
      obtain ⟨path, hf⟩ := hf
      simp only [due] at hf
      omega
    | parts => exact absurd hf.1 (by omega)
  | succ n ih =>
    cases j with
    | value around v => exact prints_value ih around v
    | element around opened v => exact prints_element ih around opened v
    | list around opened h => exact prints_list ih around opened h
    | chain around opened h => exact prints_chain ih around opened h
    | parts around ps => exact prints_parts ih around ps

end Act

namespace Machine

variable {m : Machine}

/-- **Printing ends exactly where only pairs are parts of themselves.** If nothing is noted on the way, neither that the heap is full nor
that something is gone, then a value has a text if no box, reference or error is a part of itself, and otherwise printing it would
never end. If something is noted, printing still ends for such a value, with a text, over the full heap or over the pair that is gone.
However it ends, no object is new but symbols, and none has been changed. -/
theorem print_decides (hm : m.heap.InOrder) (hslots : m.heap.slots.size ≤ 0x10000000) (hextent : m.extent ≤ 0x40000000) (v : Value) :
    (Act.print v).Ends m (fun _ m' => m.Worded m' ∧ (m'.journal = m.journal → m.OnlyPairsRecur v)) fun e m' => m.Worded m' ∧
      (m'.journal ≠ m.journal ∧ (e = .fault .exhausted ∨ ∃ h, e = .fault (.freed h .cons)) ∨
        e = .fault .endless ∧ ¬ m.OnlyPairsRecur v) := by
  rw [Act.print, Act.printJob_eq]
  refine ((Act.prints_run m Render.fuel (.value [] v) m [] (.refl hm)).mono (fun _ _ h => h) fun _ _ h => h.mono ?_).bind
    fun _ _ h => h
  exact fun hlacks hrecur => hlacks v hrecur (affords_fuel hslots hextent v)

end Machine

end LispMachine
