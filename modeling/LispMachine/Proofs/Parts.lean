/-
Values and their parts.

A value is printed with its parts: a pair with its two fields, a box or a reference with what it holds, an error with the payloads of
its message. The printer cuts a pair off that it meets inside itself. It has nothing of the kind for the others: a box, a reference or
an error that is met inside itself has no text.

So a value has a text exactly if only pairs are parts of themselves (`Machine.OnlyPairsRecur`). Two facts about the parts of values
are behind that:

* if only pairs are parts of themselves then the other values on a way down are all different. There are no more of them than there are
  values in the machine, and between two of them there are no more pairs than slots, so the steps that are due are fewer than the
  printer has (`Machine.Affords`, `Machine.affords_fuel`);
* whatever a value comprises is on a way down on which no pair is met twice, and a text has been printed along all of these
  (`Machine.Told`, `Machine.onlyPairsRecur_of_meets`).
-/
import Mathlib.Tactic
import LispMachine.Proofs.Equality
import LispMachine.Proofs.Sharing

namespace LispMachine

/-! ## Parts -/

def Part.payload? : Part → Option Value
  | .payload v => some v
  | _ => none

/-- a message has few parts, and they are the same whatever symbols there are -/
theorem Render.payloads_message (m m' : Machine) (e : ErrorObject) :
    (message m' e).filterMap Part.payload? = (message m e).filterMap Part.payload? := by
  unfold message
  cases e.kind with
  | user => cases e.name <;> rfl
  | _ => rfl

theorem Render.length_message (m : Machine) (e : ErrorObject) :
    (message m e).length ≤ 5 ∧ ((message m e).filterMap Part.payload?).length ≤ 2 := by
  unfold message
  cases e.kind with
  | user => cases e.name <;> simp [Part.payload?, List.filterMap_cons]
  | _ => simp [Part.payload?, List.filterMap_cons]

namespace Machine

variable {m : Machine} {v w v₀ : Value} {h : Handle} {path around : List Value} {opened : List Handle}

/-- what is printed with an object -/
def shownIn (m : Machine) : Cell → List Value
  | .cons a d => [a, d]
  | .box x => [x]
  | .error e => (Render.message m e).filterMap Part.payload?
  | _ => []

/-- from a value to one that is printed with it -/
inductive HasPart (m : Machine) : Value → Value → Prop where
  | place (p : Place) : HasPart m (.ref p) (m.load p)
  | held {v w : Value} {h : Handle} {c : Cell} : v.handle? = some h → m.cell? h = some c → w ∈ m.shownIn c → HasPart m v w

/-- from a value to its parts and theirs -/
def Comprises (m : Machine) : Value → Value → Prop := Relation.ReflTransGen m.HasPart

def IsPair (m : Machine) (v : Value) : Prop := ∃ h a d, v = .cons h ∧ m.cell? h = some (.cons a d)

/-- no part of a value is a part of itself, unless it is a pair -/
def OnlyPairsRecur (m : Machine) (v : Value) : Prop := ∀ w, m.Comprises v w → Relation.TransGen m.HasPart w w → m.IsPair w

theorem not_isPair_ref (p : Place) : ¬ m.IsPair (.ref p) := by
  rintro ⟨h, a, d, hv, -⟩
  cases hv

theorem not_isPair_of_cell {c : Cell} (hv : v.handle? = some h) (hc : m.cell? h = some c) (hpair : ∀ a d, c ≠ .cons a d) :
    ¬ m.IsPair v := by
  rintro ⟨h', a, d, rfl, hc'⟩
  cases hv
  exact hpair a d (Option.some.inj (hc.symm.trans hc'))

theorem length_shownIn (m : Machine) (c : Cell) : (m.shownIn c).length ≤ 2 := by
  cases c with
  | error e => exact (Render.length_message m e).2
  | _ => simp [shownIn]

/-- what has parts is in the machine, or is the value that is printed -/
theorem Comprises.mem (hv : m.Comprises v₀ v) (hpart : m.HasPart v w) : v = v₀ ∨ v ∈ m.valuesIn m.shownIn := by
  rcases Relation.ReflTransGen.cases_tail hv with rfl | ⟨u, -, hu⟩
  · exact .inl rfl
  refine .inr ?_
  cases hu with
  | held hh hc hmem => exact mem_valuesIn_of_cell hc hmem
  | place p =>
    have hne : m.load p ≠ .unset := by
      intro hunset
      rw [hunset] at hpart
      rcases hpart with _ | ⟨hh, -, -⟩
      cases hh
    rcases List.mem_append.1 (load_mem_contents p hne) with hmem | hmem
    · obtain ⟨s, hs, hmem⟩ := List.mem_flatMap.1 hmem
      refine List.mem_append_left _ (List.mem_flatMap.2 ⟨s, hs, ?_⟩)
      cases s with
      | none => cases hmem
      | some s =>
        obtain ⟨c, _, _, _⟩ := s
        cases c with
        | cons a d | box x => exact hmem
        | _ => cases hmem
    · exact List.mem_append_right _ hmem

/-! ## On the way down -/

/-- A value on the way down from `v₀`, with the values above it that are no pairs. They are all different and found in the machine, and
`around` has some of them. -/
structure Way (m : Machine) (v₀ : Value) (path around : List Value) (v : Value) : Prop where
  reached : m.Comprises v₀ v
  nodup : path.Nodup
  known : ∀ w ∈ path, w = v₀ ∨ w ∈ m.valuesIn m.shownIn
  inside : ∀ w ∈ path, ¬ m.IsPair w ∧ Relation.TransGen m.HasPart w v
  around : around ⊆ path

theorem Way.start (m : Machine) (v₀ : Value) : m.Way v₀ [] [] v₀ := ⟨.refl, List.nodup_nil, nofun, nofun, List.Subset.refl _⟩

/-- a part is further down -/
theorem Way.part (hway : m.Way v₀ path around v) (hpart : m.HasPart v w) : m.Way v₀ path around w :=
  ⟨hway.reached.tail hpart, hway.nodup, hway.known, fun u hu => ⟨(hway.inside u hu).1, (hway.inside u hu).2.tail hpart⟩, hway.around⟩

section

variable (hrecur : m.OnlyPairsRecur v₀)
include hrecur

/-- what is no pair has not been met above -/
theorem Way.not_mem (hway : m.Way v₀ path around v) (hv : ¬ m.IsPair v) : v ∉ path :=
  fun hmem => hv (hrecur v hway.reached (hway.inside v hmem).2)

/-- a part of a value that is no pair has one more above it -/
theorem Way.inner (hway : m.Way v₀ path around v) (hv : ¬ m.IsPair v) (hpart : m.HasPart v w) {around' : List Value}
    (haround : around' ⊆ v :: around) : m.Way v₀ (v :: path) around' w where
  reached := hway.reached.tail hpart
  nodup := List.nodup_cons.2 ⟨hway.not_mem hrecur hv, hway.nodup⟩
  known := List.forall_mem_cons.2 ⟨hway.reached.mem hpart, hway.known⟩
  inside := List.forall_mem_cons.2 ⟨⟨hv, .single hpart⟩, (hway.part hpart).inside⟩
  around := List.Subset.trans haround (List.cons_subset_cons v hway.around)

end

/-- the number of values that can be met on a way down -/
def breadth (m : Machine) : Nat := (m.valuesIn m.shownIn).length + 1

theorem Way.length_le (hway : m.Way v₀ path around v) : path.length ≤ m.breadth := by
  have hsub : path ⊆ v₀ :: m.valuesIn m.shownIn := fun w hw => List.mem_cons.2 (hway.known w hw)
  simpa [breadth] using (hway.nodup.subperm hsub).length_le

/-- the steps that the pairs take between two values that are none -/
def stretch (m : Machine) : Nat := 3 * m.heap.slots.size + 16

/-- the steps that a value takes that is no pair, under `path` -/
def due (m : Machine) (path : List Value) : Nat := (m.breadth - path.length) * m.stretch + 10

/-- the printer can do a job that belongs to the printing of `v₀` in `n` steps -/
def Affords (m : Machine) (v₀ : Value) (n : Nat) : Render.Job → Prop
  | .value around v => ∃ path, m.Way v₀ path around v ∧ m.due path ≤ n ∧ (m.IsPair v → m.due path + 3 * m.heap.slots.size + 2 ≤ n)
  | .element around opened v => ∃ path, m.Way v₀ path around v ∧ m.Nest opened ∧
      m.due path + 3 * (m.heap.slots.size - opened.length) + 2 ≤ n
  | .list around opened h => ∃ path, (∀ w, m.HasPart (.cons h) w → m.Way v₀ path around w) ∧ m.Nest opened ∧
      m.due path + 3 * (m.heap.slots.size - opened.length) + 1 ≤ n
  | .chain around opened h => ∃ path, (∀ w, m.HasPart (.cons h) w → m.Way v₀ path around w) ∧ h ∉ opened ∧ m.Nest opened ∧
      m.due path + 3 * (m.heap.slots.size - opened.length) ≤ n
  | .parts around ps => ps.length + 1 ≤ n ∧ ∀ w ∈ ps.filterMap Part.payload?, ∃ path, m.Way v₀ path around w ∧
      m.due path + 3 * m.heap.slots.size + ps.length + 3 ≤ n

/-- below a value that is no pair there is less to do -/
theorem Way.due_inner (hway : m.Way v₀ (v :: path) around w) : m.due (v :: path) + m.stretch = m.due path := by
  have hlt := hway.length_le
  rw [List.length_cons] at hlt
  obtain ⟨k, hk⟩ := Nat.exists_eq_add_of_lt hlt
  have hpath : m.breadth - path.length = k + 1 := by omega
  have hinner : m.breadth - (v :: path).length = k := by rw [List.length_cons]; omega
  rw [due, due, hpath, hinner, Nat.succ_mul]
  omega

/-! ## What a text tells -/

theorem OnlyPairsRecur.part (hv : m.OnlyPairsRecur v) (hpart : m.HasPart v w) : m.OnlyPairsRecur w := fun u hu => hv u (.head hpart hu)

/-- what is a part of itself is a part of its parts -/
theorem onlyPairsRecur_of_parts (hparts : ∀ w, m.HasPart v w → m.OnlyPairsRecur w) : m.OnlyPairsRecur v := by
  intro u hu hagain
  rcases Relation.ReflTransGen.cases_head hu with rfl | ⟨w, hw, hu⟩
  · obtain ⟨w, hw, hback⟩ := Relation.TransGen.head'_iff.1 hagain
    exact hparts w hw v hback hagain
  · exact hparts w hw u hu hagain

/-- a value that is no pair is met going down from one, through pairs that are not in `opened` and of which none is met twice -/
inductive Meets (m : Machine) : List Handle → Value → Value → Prop where
  | here {opened : List Handle} {v : Value} : ¬ m.IsPair v → Meets m opened v v
  | pair {opened : List Handle} {h : Handle} {u w : Value} : m.IsPair (.cons h) → h ∉ opened → m.HasPart (.cons h) u →
      Meets m (h :: opened) u w → Meets m opened (.cons h) w

theorem Meets.eq (hmeets : m.Meets opened v w) (hv : ¬ m.IsPair v) : w = v := by
  cases hmeets with
  | here => rfl
  | pair hpair => exact absurd hpair hv

theorem Meets.not_mem (hmeets : m.Meets opened (.cons h) w) (hpair : m.IsPair (.cons h)) : h ∉ opened := by
  cases hmeets with
  | here hother => exact absurd hpair hother
  | pair _ hout => exact hout

/-- a value that is no pair is `k` pairs below another one -/
inductive Below (m : Machine) (w : Value) : ℕ → Value → Prop where
  | here : ¬ m.IsPair w → Below m w 0 w
  | pair {k : ℕ} {h : Handle} {u : Value} : m.IsPair (.cons h) → m.HasPart (.cons h) u → Below m w k u → Below m w (k + 1) (.cons h)

/-- on a shortest way down no pair is met twice -/
theorem Below.meets {k : ℕ} (hbelow : m.Below w k v) (hshortest : ∀ j < k, ¬ m.Below w j v)
    (hopened : ∀ g ∈ opened, ∀ j ≤ k, ¬ m.Below w j (.cons g)) : m.Meets opened v w := by
  induction hbelow generalizing opened with
  | here hw => exact .here hw
  | @pair k h u hpair hpart hu ih =>
    refine .pair hpair (fun hmem => hopened h hmem (k + 1) le_rfl (.pair hpair hpart hu)) hpart (ih (fun j hj hju => ?_) ?_)
    · exact hshortest (j + 1) (Nat.succ_lt_succ hj) (.pair hpair hpart hju)
    · refine List.forall_mem_cons.2 ⟨fun j hj => hshortest j (Nat.lt_succ_of_le hj), fun g hg j hj => ?_⟩
      exact hopened g hg j (hj.trans (Nat.le_succ k))

/-- what a value comprises is met on such a way, or comprised by something that is -/
theorem Comprises.exists_below {u : Value} (hv : m.Comprises v u) (hu : ¬ m.IsPair u) :
    ∃ w, (∃ k, m.Below w k v) ∧ m.Comprises w u := by
  induction hv using Relation.ReflTransGen.head_induction_on with
  | refl => exact ⟨u, ⟨0, .here hu⟩, .refl⟩
  | @head v w hpart hrest ih =>
    by_cases hv : m.IsPair v
    · obtain ⟨x, ⟨k, hbelow⟩, hx⟩ := ih
      obtain ⟨h, a, d, rfl, hc⟩ := id hv
      exact ⟨x, ⟨k + 1, .pair hv hpart hbelow⟩, hx⟩
    · exact ⟨v, ⟨0, .here hv⟩, .head hpart hrest⟩

theorem onlyPairsRecur_of_meets (hmeets : ∀ w, m.Meets [] v w → m.OnlyPairsRecur w) : m.OnlyPairsRecur v := by
  intro u hu hagain
  by_contra hpair
  obtain ⟨w, hbelow, hw⟩ := hu.exists_below hpair
  classical
  have hmet : m.Meets [] v w := (Nat.find_spec hbelow).meets (fun j hj => Nat.find_min hbelow hj) (by simp)
  exact hpair (hmeets w hmet u hw hagain)

/-- nothing is met from the end of a list but the end -/
theorem Meets.of_nil (hmeets : m.Meets opened .nil w) : m.OnlyPairsRecur w := by
  cases hmeets with
  | here =>
    refine onlyPairsRecur_of_parts fun u hpart => ?_
    cases hpart with
    | held hv => cases hv

/-- what the text of a job tells of the values in it -/
def Told (m : Machine) : Render.Job → Prop
  | .value _ v => m.OnlyPairsRecur v
  | .element _ opened v => ∀ w, m.Meets opened v w → m.OnlyPairsRecur w
  | .list _ opened h => m.IsPair (.cons h) → ∀ w, m.Meets opened (.cons h) w → m.OnlyPairsRecur w
  | .chain _ opened h => m.IsPair (.cons h) → ∀ u w, m.HasPart (.cons h) u → m.Meets (h :: opened) u w → m.OnlyPairsRecur w
  | .parts _ ps => ∀ w ∈ ps.filterMap Part.payload?, m.OnlyPairsRecur w

/-! ## What a value starts -/

/-- the text of a value, or the job it starts: its parts are those of the job -/
inductive Starts (m : Machine) (around : List Value) (v : Value) : String ⊕ Render.Job → Prop where
  | text {s : String} : (∀ w, ¬ m.HasPart v w) → Starts m around v (.inl s)
  | pair {h : Handle} : v = .cons h → m.IsPair v → Starts m around v (.inr (.list around [] h))
  /-- a pair under the name of something else -/
  | list {h : Handle} : ¬ m.IsPair v → m.IsPair (.cons h) → (∀ w, m.HasPart v w ↔ m.HasPart (.cons h) w) →
      Starts m around v (.inr (.list around [] h))
  | value {w : Value} : ¬ m.IsPair v → (∀ u, m.HasPart v u ↔ u = w) → Starts m around v (.inr (.value (v :: around) w))
  | parts {ps : List Part} : ¬ m.IsPair v → ps.length ≤ 5 → (∀ w, m.HasPart v w ↔ w ∈ ps.filterMap Part.payload?) →
      Starts m around v (.inr (.parts (v :: around) ps))

theorem hasPart_iff_of_handle {c : Cell} (hv : v.handle? = some h) (hc : m.cell? h = some c) :
    m.HasPart v w ↔ w ∈ m.shownIn c := by
  refine ⟨fun hpart => ?_, fun hmem => .held hv hc hmem⟩
  cases hpart with
  | place p => cases hv
  | held hv' hc' hmem =>
    cases hv.symm.trans hv'
    cases hc.symm.trans hc'
    exact hmem

theorem hasPart_ref_iff {p : Place} : m.HasPart (.ref p) w ↔ w = m.load p := by
  refine ⟨fun hpart => ?_, fun hw => hw ▸ .place p⟩
  cases hpart with
  | place p => rfl
  | held hv => cases hv

/-- the text of the job that a value starts tells the same of the value -/
theorem Starts.told {job : Render.Job} (hs : m.Starts around v (.inr job)) (htold : m.Told job) : m.OnlyPairsRecur v := by
  cases hs with
  | pair hv hpair =>
    subst hv
    exact onlyPairsRecur_of_meets (htold hpair)
  | list _ hpair hparts =>
    have hrecur := onlyPairsRecur_of_meets (htold hpair)
    exact onlyPairsRecur_of_parts fun w hpart => hrecur.part ((hparts w).1 hpart)
  | value _ hparts =>
    refine onlyPairsRecur_of_parts fun w hpart => ?_
    rw [(hparts w).1 hpart]
    exact htold
  | parts _ _ hparts => exact onlyPairsRecur_of_parts fun w hpart => htold w ((hparts w).1 hpart)

/-- there are enough steps left for the job that a value starts -/
theorem Starts.affords (hrecur : m.OnlyPairsRecur v₀) {n : Nat} {job : Render.Job} (hs : m.Starts around v (.inr job))
    (hf : m.Affords v₀ (n + 1) (.value around v)) : m.Affords v₀ n job := by
  obtain ⟨path, hway, hdue, hpair⟩ := hf
  have hstretch : m.stretch = 3 * m.heap.slots.size + 16 := rfl
  cases hs with
  | pair hv hv' =>
    subst hv
    have := hpair hv'
    exact ⟨path, fun w hpart => hway.part hpart, Nest.nil m, by simp only [List.length_nil]; omega⟩
  | list hother hv' hparts =>
    have hinner (w : Value) (hpart : m.HasPart (.cons _) w) :=
      hway.inner hrecur hother ((hparts w).2 hpart) (List.subset_cons_self v around)
    obtain ⟨h, a, d, heq, hc⟩ := hv'
    cases heq
    have := (hinner a (.held rfl hc (by simp [shownIn]))).due_inner
    exact ⟨v :: path, hinner, Nest.nil m, by simp only [List.length_nil]; omega⟩
  | value hother hparts =>
    have hinner := hway.inner hrecur hother ((hparts _).2 rfl) (List.Subset.refl _)
    have := hinner.due_inner
    exact ⟨v :: path, hinner, by omega, fun _ => by omega⟩
  | parts hother hlength hparts =>
    refine ⟨?_, fun w hw => ?_⟩
    · unfold due at hdue
      omega
    · have hinner := hway.inner hrecur hother ((hparts w).2 hw) (List.Subset.refl _)
      have := hinner.due_inner
      exact ⟨v :: path, hinner, by omega⟩

/-! ## From one job to the next -/

/-- a chain tells of what is met from its first pair -/
theorem told_meets (htold : m.Told (.chain around opened h)) (hpair : m.IsPair (.cons h)) (hmeets : m.Meets opened (.cons h) w) :
    m.OnlyPairsRecur w := by
  cases hmeets with
  | here hother => exact absurd hpair hother
  | pair _ _ hpart hmeets => exact htold hpair _ _ hpart hmeets

/-- it is told of a chain what is told of the two fields of the pair -/
theorem told_chain {a d : Value} (hc : m.cell? h = some (.cons a d)) (hfirst : m.Told (.element around (h :: opened) a))
    (hrest : ∀ w, m.Meets (h :: opened) d w → m.OnlyPairsRecur w) : m.Told (.chain around opened h) := by
  intro _ u w hpart hmeets
  have hmem := (hasPart_iff_of_handle rfl hc).1 hpart
  simp only [shownIn, List.mem_cons, List.not_mem_nil, or_false] at hmem
  rcases hmem with rfl | rfl
  · exact hfirst w hmeets
  · exact hrest w hmeets

/-- what is no pair is printed inside a list as it is on its own -/
theorem affords_other {n : Nat} (hother : ¬ m.IsPair v) (hf : m.Affords v₀ (n + 1) (.element around opened v)) :
    m.Affords v₀ n (.value around v) := by
  obtain ⟨path, hway, -, hdue⟩ := hf
  exact ⟨path, hway, by omega, fun hpair => absurd hpair hother⟩

theorem affords_list {n : Nat} (hf : m.Affords v₀ (n + 1) (.element around opened (.cons h))) :
    m.Affords v₀ n (.list around opened h) := by
  obtain ⟨path, hway, hopened, hdue⟩ := hf
  exact ⟨path, fun w hpart => hway.part hpart, hopened, by omega⟩

theorem affords_chain {n : Nat} (hout : h ∉ opened) (hf : m.Affords v₀ (n + 1) (.list around opened h)) :
    m.Affords v₀ n (.chain around opened h) := by
  obtain ⟨path, hparts, hopened, hdue⟩ := hf
  exact ⟨path, hparts, hout, hopened, by omega⟩

/-- what is printed of a pair inside a chain -/
theorem affords_field {n : Nat} {a d : Value} (hc : m.cell? h = some (.cons a d)) (hmem : w ∈ [a, d])
    (hf : m.Affords v₀ (n + 1) (.chain around opened h)) : m.Affords v₀ n (.element around (h :: opened) w) := by
  obtain ⟨path, hparts, hout, hopened, hdue⟩ := hf
  have hinner := hopened.cons hc hout
  have hleft := hinner.length_le
  exact ⟨path, hparts w (.held rfl hc hmem), hinner, by rw [List.length_cons] at hleft ⊢; omega⟩

theorem affords_next {n : Nat} {a : Value} {next : Handle} (hc : m.cell? h = some (.cons a (.cons next))) (hout : next ∉ h :: opened)
    (hf : m.Affords v₀ (n + 1) (.chain around opened h)) : m.Affords v₀ n (.chain around (h :: opened) next) := by
  obtain ⟨path, hway, hinner, hdue⟩ := affords_field (w := .cons next) hc (by simp) hf
  exact ⟨path, fun w hpart => hway.part hpart, hout, hinner, by omega⟩

theorem affords_parts {n : Nat} {part : Part} {ps : List Part} (hf : m.Affords v₀ (n + 1) (.parts around (part :: ps))) :
    m.Affords v₀ n (.parts around ps) := by
  obtain ⟨hlength, hdue⟩ := hf
  refine ⟨by simpa using hlength, fun w hmem => ?_⟩
  obtain ⟨path, hway, hsteps⟩ := hdue w (by simp only [List.filterMap_cons]; split <;> simp_all)
  rw [List.length_cons] at hsteps
  exact ⟨path, hway, by omega⟩

theorem affords_payload {n : Nat} {ps : List Part} (hf : m.Affords v₀ (n + 1) (.parts around (.payload v :: ps))) :
    m.Affords v₀ n (.value around v) := by
  obtain ⟨path, hway, hsteps⟩ := hf.2 v (by simp [Part.payload?])
  exact ⟨path, hway, by omega, fun _ => by omega⟩

/-- no machine is so large that a way down would be too long to be printed -/
theorem affords_fuel (hslots : m.heap.slots.size ≤ 0x10000000) (hextent : m.extent ≤ 0x40000000) (v : Value) :
    m.Affords v Render.fuel (.value [] v) := by
  have hbreadth : m.breadth ≤ 0x40000000 := by
    have := length_valuesIn m.length_shownIn m
    unfold breadth
    omega
  have hstretch : m.stretch ≤ 0x30000010 := by
    unfold stretch
    omega
  have hdue := Nat.mul_le_mul hbreadth hstretch
  have hfuel : Render.fuel = 0x1000000000000000 := rfl
  refine ⟨[], .start m v, ?_, fun _ => ?_⟩
  all_goals
    simp only [due, List.length_nil, Nat.sub_zero]
    omega

end Machine

end LispMachine
