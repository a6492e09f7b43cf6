/-
Equality of what values unfold to.

Looked at through references and boxes a value shows another one. If that is a pair it goes on in the two fields of the pair, so
a value unfolds to a tree, without end if pairs run in a circle. The comparison keeps the pairs of cells it has started on and
takes them for equal when it comes back to them; its fuel is enough since there are only so many pairs of cells
(`run_equalWithin`). A comparison that finds no difference leaves a set of pairs of cells behind in which the fields agree again,
and along any path the two trees stay in that set. So values are found equal exactly if they unfold to the same tree
(`equal_decides`), whatever cells are shared and wherever circles are closed.
-/
import Mathlib
import LispMachine.Proofs.Exactness
import LispMachine.Proofs.Lists

namespace LispMachine

/-! ## Unfoldings -/

/-- a field of a pair -/
inductive Side where
  | car
  | cdr
deriving DecidableEq

def Side.of : Side → Value → Value → Value
  | .car, a, _ => a
  | .cdr, _, d => d

/-- a leaf of an unfolding: what a number stands for, or any other value as it is -/
inductive Leaf where
  | number (q : Magnitude)
  | other (v : Value)

/-- what is at one place of an unfolding -/
inductive Node where
  | pair
  | leaf (l : Leaf)

namespace Value

def leaf (v : Value) : Leaf :=
  match v.number?.bind Number.magnitude? with
  | some q => .number q
  | none => .other v

def node : Value → Node
  | .cons _ => .pair
  | v => .leaf v.leaf

/-- the place that a reference or a box stands for -/
def place? : Value → Option Place
  | .ref p => some p
  | .box h => some (.box h)
  | _ => none

end Value

namespace Machine

/-- a value shows another one behind references and boxes -/
inductive Shows (m : Machine) : Value → Value → Prop where
  | here {v : Value} : v.place? = none → Shows m v v
  | behind {v w : Value} {p : Place} : v.place? = some p → Shows m (m.load p) w → Shows m v w

/-- what is at the end of a path through the fields of pairs -/
inductive Unfolds (m : Machine) : Value → List Side → Node → Prop where
  | root {v w : Value} : m.Shows v w → Unfolds m v [] w.node
  | field {v a d : Value} {h : Handle} {path : List Side} {x : Node} (s : Side) : m.Shows v (.cons h) →
      m.cell? h = some (.cons a d) → Unfolds m (s.of a d) path x → Unfolds m v (s :: path) x

/-- two values unfold to the same tree -/
def SameUnfolding (m : Machine) (v w : Value) : Prop := ∀ path x, m.Unfolds v path x ↔ m.Unfolds w path x

/-- the pair or the box that a value names is there -/
def Finds (m : Machine) : Value → Prop
  | .cons h => ∃ a d, m.cell? h = some (.cons a d)
  | .box h => ∃ v, m.cell? h = some (.box v)
  | _ => True

/-- no place holds the handle of a pair or of a box that is gone, and references and boxes lead to something in the end -/
structure Traceable (m : Machine) : Prop where
  finds : ∀ p, m.Finds (m.load p)
  shows : ∀ v, ∃ w, m.Shows v w

variable {m : Machine} {v w a b d e : Value} {h k : Handle} {path : List Side} {x : Node} {s : Side}

theorem Shows.plain (hs : m.Shows v w) : w.place? = none := by
  induction hs with
  | here hv => exact hv
  | behind _ _ ih => exact ih

theorem Shows.unique {w' : Value} (hs : m.Shows v w) (hs' : m.Shows v w') : w = w' := by
  induction hs generalizing w' with
  | here hv =>
    cases hs' with
    | here _ => rfl
    | behind hp _ => rw [hv] at hp; cases hp
  | behind hp _ ih =>
    cases hs' with
    | here hv => rw [hv] at hp; cases hp
    | behind hp' hs' =>
      rw [hp] at hp'
      cases hp'
      exact ih hs'

theorem Traceable.finds_of_shows (hm : m.Traceable) (hv : m.Finds v) (hs : m.Shows v w) : m.Finds w := by
  induction hs with
  | here _ => exact hv
  | behind _ _ ih => exact ih (hm.finds _)

theorem Traceable.finds_of (hm : m.Traceable) (hc : m.cell? h = some (.cons a d)) (s : Side) : m.Finds (s.of a d) := by
  have hcar := hm.finds (.car h)
  have hcdr := hm.finds (.cdr h)
  simp only [load, hc] at hcar hcdr
  cases s with
  | car => exact hcar
  | cdr => exact hcdr

theorem unfolds_root (hs : m.Shows v w) : m.Unfolds v [] x ↔ x = w.node := by
  constructor
  · rintro ⟨hs'⟩
    rw [hs.unique hs']
  · rintro rfl
    exact .root hs

theorem unfolds_field (hs : m.Shows v (.cons h)) (hc : m.cell? h = some (.cons a d)) :
    m.Unfolds v (s :: path) x ↔ m.Unfolds (s.of a d) path x := by
  constructor
  · rintro (_ | ⟨_, hs', hc', hx⟩)
    cases hs.unique hs'
    rw [hc] at hc'
    cases hc'
    exact hx
  · exact .field s hs hc

/-- only a pair has fields -/
theorem Unfolds.exists_cons (hx : m.Unfolds v (s :: path) x) : ∃ h, m.Shows v (.cons h) := by
  obtain _ | ⟨_, hs, _, _⟩ := hx
  exact ⟨_, hs⟩

/-! ## Leaves -/

theorem leaf_cons (h : Handle) : (Value.cons h).leaf = .other (.cons h) := rfl

/-- a leaf that is no number is the value itself -/
theorem eq_of_leaf_eq_other (hw : w.leaf = .other v) : w = v := by
  unfold Value.leaf at hw
  split at hw
  · cases hw
  · exact Leaf.other.inj hw

theorem eq_of_leaf_eq_cons (heq : v.leaf = (Value.cons h).leaf) : v = .cons h :=
  eq_of_leaf_eq_other (heq.trans (leaf_cons h))

/-- leaves are the same for the same values and for numbers that stand for the same -/
theorem leaf_eq_iff : v.leaf = w.leaf ↔ v = w ∨ ∃ x y q, v.number? = some x ∧ w.number? = some y ∧
    x.magnitude? = some q ∧ y.magnitude? = some q := by
  constructor
  · intro heq
    cases hw : w.leaf with
    | other u => exact .inl ((eq_of_leaf_eq_other (heq.trans hw)).trans (eq_of_leaf_eq_other hw).symm)
    | number q =>
      have hmag {u : Value} (hu : u.leaf = .number q) : ∃ x, u.number? = some x ∧ x.magnitude? = some q := by
        unfold Value.leaf at hu
        split at hu
        · cases hu
          rename_i hbind
          exact Option.bind_eq_some_iff.1 hbind
        · cases hu
      obtain ⟨x, hx, hq⟩ := hmag (heq.trans hw)
      obtain ⟨y, hy, hq'⟩ := hmag hw
      exact .inr ⟨x, y, q, hx, hy, hq, hq'⟩
  · rintro (rfl | ⟨x, y, q, hx, hy, hq, hq'⟩)
    · rfl
    · simp [Value.leaf, hx, hy, hq, hq']

/-- comparing two values that are no references compares leaves -/
theorem run_eql (hv : v.isReference = false) (hw : w.isReference = false) :
    ∃ r, (Act.eql v w).run m = .ok r m ∧ (r = true ↔ v.leaf = w.leaf) := by
  have hnumber {u : Value} (hu : u.isReference = false) : (Act.numberOf u).run m = .ok u.number? m := by
    cases u with
    | ref p => cases hu
    | _ => rfl
  rw [leaf_eq_iff]
  unfold Act.eql
  by_cases heq : v = w
  · rw [if_pos heq]
    exact ⟨true, rfl, by simp [heq]⟩
  · rw [if_neg heq, Act.bind_ok (hnumber hv), Act.bind_ok (hnumber hw)]
    cases hx : v.number? with
    | none => exact ⟨false, rfl, by simp [heq]⟩
    | some x =>
      cases hy : w.number? with
      | none => exact ⟨false, rfl, by simp [heq]⟩
      | some y => exact ⟨x.equal y, rfl, by simp [heq, Number.equal_iff]⟩

/-! ## Looking through -/

/-- a value shows another one after so many places -/
inductive ShowsIn (m : Machine) : ℕ → Value → Value → Prop where
  | here {v : Value} : v.place? = none → ShowsIn m 0 v v
  | behind {n : ℕ} {v w : Value} {p : Place} : v.place? = some p → ShowsIn m n (m.load p) w → ShowsIn m (n + 1) v w

theorem Shows.exists_count (hs : m.Shows v w) : ∃ n, m.ShowsIn n v w := by
  induction hs with
  | here hv => exact ⟨0, .here hv⟩
  | behind hp _ ih => exact ih.imp' (· + 1) fun _ => .behind hp

theorem ShowsIn.unique {n k : ℕ} (hs : m.ShowsIn n v w) (hs' : m.ShowsIn k v w) : n = k := by
  induction hs generalizing k with
  | here hv =>
    cases hs' with
    | here _ => rfl
    | behind hp _ => rw [hv] at hp; cases hp
  | behind hp _ ih =>
    cases hs' with
    | here hv => rw [hv] at hp; cases hp
    | behind hp' hs' =>
      rw [hp] at hp'
      cases hp'
      rw [ih hs']

/-- the values in the places of an object -/
def heldIn : Cell → List Value
  | .cons a d => [a, d]
  | .box v => [v]
  | _ => []

/-- the values in the slots of the stacks and those that `f` tells of an object -/
def valuesIn (f : Cell → List Value) (m : Machine) : List Value :=
  m.heap.slots.toList.flatMap (fun s => (s.map fun s => f s.cell).getD []) ++
    m.threads.toList.flatMap fun t => t.stack.items.toList

/-- the values in the places of a machine -/
def contents (m : Machine) : List Value :=
  m.heap.slots.toList.flatMap (fun s => (s.map fun s => heldIn s.cell).getD []) ++
    m.threads.toList.flatMap fun t => t.stack.items.toList

theorem mem_valuesIn_of_cell {f : Cell → List Value} {c : Cell} (hc : m.cell? h = some c) (hv : v ∈ f c) : v ∈ m.valuesIn f := by
  obtain ⟨s, hs, rfl⟩ := Heap.cell?_eq_some.1 hc
  refine List.mem_append_left _ (List.mem_flatMap.2 ⟨some s, ?_, hv⟩)
  exact Array.mem_toList_iff.2 (Array.mem_of_getElem? (Heap.slot?_eq_some.1 hs))

theorem mem_contents_of_cell {c : Cell} (hc : m.cell? h = some c) (hv : v ∈ heldIn c) : v ∈ m.contents := mem_valuesIn_of_cell hc hv

/-- what a place reads as is in the place, unless the place is gone -/
theorem load_mem_contents (p : Place) (hne : m.load p ≠ .unset) : m.load p ∈ m.contents := by
  unfold load at hne ⊢
  cases p with
  | stack id i =>
    simp only [stack?] at hne ⊢
    cases hown : (m.stackOwners[id]?).join with
    | none => simp [hown] at hne
    | some th =>
      simp only [hown, Option.map_some, Stack.get] at hne ⊢
      cases hitem : (m.thread th).stack.items[i]? with
      | none => simp [hitem] at hne
      | some v =>
        have hthread : m.thread th ∈ m.threads.toList := by
          unfold thread at hitem ⊢
          cases ht : m.threads[th]? with
          | none => simp [ht, Thread.blank] at hitem
          | some t => exact Array.mem_toList_iff.2 (Array.mem_of_getElem? ht)
        exact List.mem_append_right _ (List.mem_flatMap.2 ⟨_, hthread, Array.mem_toList_iff.2 (Array.mem_of_getElem? hitem)⟩)
  | box h =>
    simp only at hne ⊢
    split at hne
    · rename_i hc
      exact mem_contents_of_cell hc List.mem_cons_self
    · exact absurd rfl hne
  | car h =>
    simp only at hne ⊢
    split at hne
    · rename_i hc
      exact mem_contents_of_cell hc List.mem_cons_self
    · exact absurd rfl hne
  | cdr h =>
    simp only at hne ⊢
    split at hne
    · rename_i hc
      exact mem_contents_of_cell hc (List.mem_cons_of_mem _ List.mem_cons_self)
    · exact absurd rfl hne

theorem length_valuesIn {f : Cell → List Value} (hf : ∀ c, (f c).length ≤ 2) (m : Machine) :
    (m.valuesIn f).length + 2 ≤ m.extent := by
  have hslots (slots : List (Option Slot)) :
      (slots.flatMap fun s => (s.map fun s => f s.cell).getD []).length ≤ 2 * slots.length := by
    induction slots with
    | nil => exact le_rfl
    | cons s slots ih =>
      have hheld : ((s.map fun s => f s.cell).getD []).length ≤ 2 := by
        cases s with
        | none => simp
        | some s => exact hf s.cell
      simp only [List.flatMap_cons, List.length_append, List.length_cons]
      omega
  have hstacks (threads : List Thread) (n : ℕ) : n + (threads.flatMap fun t => t.stack.items.toList).length ≤
      threads.foldl (fun n t => n + t.stack.size) n := by
    induction threads generalizing n with
    | nil => exact le_rfl
    | cons t threads ih =>
      have hstack : t.stack.items.size ≤ t.stack.size := Nat.le_add_right _ _
      have := ih (n + t.stack.size)
      simp only [List.flatMap_cons, List.length_append, List.foldl_cons, Array.length_toList]
      omega
  have h₁ := hslots m.heap.slots.toList
  have h₂ := hstacks m.threads.toList 0
  rw [Array.foldl_toList] at h₂
  rw [show m.heap.slots.toList.length = m.heap.slots.size from Array.length_toList] at h₁
  unfold valuesIn extent
  rw [List.length_append]
  omega

theorem length_contents (m : Machine) : m.contents.length + 2 ≤ m.extent :=
  length_valuesIn (f := heldIn) (fun c => by cases c <;> simp [heldIn]) m

/-- the values on the way to what a value shows: they are different, and all but the first are in places -/
theorem ShowsIn.trail {n : ℕ} (hs : m.ShowsIn n v w) : ∃ vs : List Value, vs.length = n ∧ vs.Nodup ∧
    (∀ u ∈ vs, ∃ k, 0 < k ∧ k ≤ n ∧ m.ShowsIn k u w) ∧ ∀ u ∈ vs, u = v ∨ u ∈ m.contents := by
  induction hs with
  | here _ => exact ⟨[], rfl, List.nodup_nil, by simp, by simp⟩
  | @behind n v w p hp hs ih =>
    obtain ⟨vs, rfl, hnodup, hcount, hmem⟩ := ih
    have hwhole : m.ShowsIn (vs.length + 1) v w := .behind hp hs
    refine ⟨v :: vs, rfl, List.nodup_cons.2 ⟨fun hv => ?_, hnodup⟩, ?_, ?_⟩
    · -- from there it would be fewer places than from the start
      obtain ⟨k, -, hle, hs'⟩ := hcount v hv
      have := hs'.unique hwhole
      omega
    · refine List.forall_mem_cons.2 ⟨⟨_, Nat.succ_pos _, le_rfl, hwhole⟩, fun u hu => ?_⟩
      obtain ⟨k, hpos, hle, hs'⟩ := hcount u hu
      exact ⟨k, hpos, hle.trans (Nat.le_succ _), hs'⟩
    · refine List.forall_mem_cons.2 ⟨.inl rfl, fun u hu => .inr ?_⟩
      rcases hmem u hu with rfl | hmem
      · refine load_mem_contents p fun hunset => ?_
        obtain ⟨k, hpos, -, hs'⟩ := hcount _ hu
        rw [hunset] at hs'
        cases hs' with
        | here _ => exact absurd hpos (lt_irrefl 0)
        | behind hp _ => cases hp
      · exact hmem

/-- a value shows another one after no more places than the machine has -/
theorem ShowsIn.lt_extent {n : ℕ} (hs : m.ShowsIn n v w) : n < m.extent := by
  obtain ⟨vs, rfl, hnodup, -, hmem⟩ := hs.trail
  have hsub : vs.erase v ⊆ m.contents := fun u hu => by
    obtain ⟨hne, hu⟩ := hnodup.mem_erase_iff.1 hu
    exact (hmem u hu).resolve_left hne
  have hle := ((hnodup.erase v).subperm hsub).length_le
  have herase : vs.length - 1 ≤ (vs.erase v).length := List.le_length_erase
  have hplaces := m.length_contents
  omega

theorem run_seeThroughWithin (hm : m.Traceable) {n f : ℕ} (hs : m.ShowsIn n v w) (hv : m.Finds v) (hf : n < f) :
    (Act.seeThroughWithin f v).run m = .ok w m := by
  induction hs generalizing f with
  | @here v hplain =>
    obtain ⟨f, rfl⟩ : ∃ k, f = k + 1 := ⟨f - 1, by omega⟩
    unfold Act.seeThroughWithin
    cases v with
    | ref p => cases hplain
    | box h => cases hplain
    | _ => rfl
  | @behind n v w p hp _ ih =>
    obtain ⟨f, rfl⟩ : ∃ k, f = k + 1 := ⟨f - 1, by omega⟩
    have hnext := ih (hm.finds p) (f := f) (by omega)
    unfold Act.seeThroughWithin
    cases v with
    | ref p => cases hp; exact hnext
    | box h =>
      cases hp
      obtain ⟨x, hc⟩ := hv
      have hbox : (Act.asBox (.box h)).run m = .ok (some (h, x)) m := by
        obtain ⟨⟨_, _, _, _⟩, hs, rfl⟩ := Heap.cell?_eq_some.1 hc
        unfold Act.asBox Act.resolve
        simp only [Value.handle?, Act.run_bind, Act.run_get, hs, Act.run_pure]
      have hload : m.load (.box h) = x := by simp only [load, hc]
      rw [hload] at hnext
      exact (Act.bind_ok hbox).trans hnext
    | _ => cases hp

theorem run_seeThrough (hm : m.Traceable) (hv : m.Finds v) (hs : m.Shows v w) : (Act.seeThrough v).run m = .ok w m := by
  obtain ⟨n, hn⟩ := hs.exists_count
  exact run_seeThroughWithin hm hn hv hn.lt_extent

/-! ## The comparison -/

/-- what two values show is the same leaf, or two pairs out of a set -/
def Agrees (m : Machine) (D : List (Handle × Handle)) (a b : Value) : Prop :=
  ∃ v w, m.Shows a v ∧ m.Shows b w ∧ (v.leaf = w.leaf ∨ ∃ h k, v = .cons h ∧ w = .cons k ∧ (h, k) ∈ D)

/-- the fields of two pairs agree -/
def Continues (m : Machine) (D : List (Handle × Handle)) (hk : Handle × Handle) : Prop :=
  ∀ a d b e, m.cell? hk.1 = some (.cons a d) → m.cell? hk.2 = some (.cons b e) → ∀ s : Side, m.Agrees D (s.of a d) (s.of b e)

theorem node_eq_of_leaf_eq (heq : v.leaf = w.leaf) : v.node = w.node := by
  cases v with
  | cons h => rw [eq_of_leaf_eq_cons heq.symm]
  | _ =>
    cases w with
    | cons k => cases eq_of_leaf_eq_cons heq
    | _ => exact congrArg Node.leaf heq

/-- two values with the same node are two pairs or the same leaf -/
theorem exists_cons_of_node_eq (heq : v.node = w.node) (hne : v.leaf ≠ w.leaf) : ∃ h k, v = .cons h ∧ w = .cons k := by
  cases v with
  | cons h =>
    cases w with
    | cons k => exact ⟨h, k, rfl, rfl⟩
    | _ => cases heq
  | _ =>
    cases w with
    | cons k => cases heq
    | _ => exact absurd (Node.leaf.inj heq) hne

/-- along a path the unfoldings of values that agree agree, as long as the fields of pairs do -/
theorem Agrees.sameUnfolding (hm : m.Traceable) {D : List (Handle × Handle)} (hD : ∀ hk ∈ D, m.Continues D hk) (ha : m.Finds a)
    (hb : m.Finds b) (h : m.Agrees D a b) : m.SameUnfolding a b := by
  intro path
  induction path generalizing a b with
  | nil =>
    intro x
    obtain ⟨v, w, hv, hw, hor⟩ := h
    rw [unfolds_root hv, unfolds_root hw]
    rcases hor with hleaf | ⟨h, k, rfl, rfl, -⟩
    · rw [node_eq_of_leaf_eq hleaf]
    · exact Iff.rfl
  | cons s path ih =>
    intro x
    obtain ⟨v, w, hv, hw, hor⟩ := h
    have hfv := hm.finds_of_shows ha hv
    have hfw := hm.finds_of_shows hb hw
    rcases hor with hleaf | ⟨h, k, rfl, rfl, hmem⟩
    · -- the same pair, or no pairs at all
      constructor <;> intro hx
      · obtain ⟨h, hs⟩ := hx.exists_cons
        obtain rfl := hv.unique hs
        obtain rfl := eq_of_leaf_eq_cons hleaf.symm
        obtain ⟨a', d, hc⟩ := hfv
        exact (unfolds_field hw hc).2 ((unfolds_field hv hc).1 hx)
      · obtain ⟨h, hs⟩ := hx.exists_cons
        obtain rfl := hw.unique hs
        obtain rfl := eq_of_leaf_eq_cons hleaf
        obtain ⟨a', d, hc⟩ := hfv
        exact (unfolds_field hv hc).2 ((unfolds_field hw hc).1 hx)
    · obtain ⟨a', d, hc⟩ := hfv
      obtain ⟨b', e, hc'⟩ := hfw
      rw [unfolds_field hv hc, unfolds_field hw hc']
      exact ih (hm.finds_of hc s) (hm.finds_of hc' s) (hD _ hmem a' d b' e hc hc' s) x

/-- no more pairs of cells than there are can be started on -/
theorem length_seen {seen : List (Handle × Handle)} (hnodup : seen.Nodup) {n : ℕ} (hlt : ∀ hk ∈ seen, hk.1 < n ∧ hk.2 < n) :
    seen.length ≤ n * n := by
  have hsub : seen ⊆ List.range n ×ˢ List.range n := fun hk hmem => by
    obtain ⟨h₁, h₂⟩ := hlt hk hmem
    exact List.mem_product.2 ⟨List.mem_range.2 h₁, List.mem_range.2 h₂⟩
  have hle := (hnodup.subperm hsub).length_le
  rwa [List.length_product, List.length_range] at hle

/-- what a comparison comes to: without a difference, a set of pairs of cells whose fields agree, in which what has been started
on may be taken for granted; and it finds none where there is none -/
structure Compared (m : Machine) (work : List (Value × Value)) (seen : List (Handle × Handle)) (r : Bool) : Prop where
  sound : r = true → ∃ D, seen ⊆ D ∧ (∀ ab ∈ work, m.Agrees D ab.1 ab.2) ∧ ∀ hk ∈ D, hk ∈ seen ∨ m.Continues D hk
  complete : (∀ ab ∈ work, m.SameUnfolding ab.1 ab.2) → r = true

namespace Compared

variable {work : List (Value × Value)} {seen : List (Handle × Handle)} {r : Bool}

theorem nil : m.Compared [] seen true := ⟨fun _ => ⟨seen, List.Subset.refl _, by simp, fun _ h => .inl h⟩, fun _ => rfl⟩

/-- two values that are the same leaf or that are pairs started on already -/
theorem skip (hv : m.Shows a v) (hw : m.Shows b w)
    (hor : v.leaf = w.leaf ∨ ∃ h k, v = .cons h ∧ w = .cons k ∧ (h, k) ∈ seen) (hr : m.Compared work seen r) :
    m.Compared ((a, b) :: work) seen r where
  sound htrue := by
    obtain ⟨D, hseen, hwork, hD⟩ := hr.sound htrue
    refine ⟨D, hseen, List.forall_mem_cons.2 ⟨⟨v, w, hv, hw, hor.imp_right ?_⟩, hwork⟩, hD⟩
    rintro ⟨h, k, rfl, rfl, hmem⟩
    exact ⟨h, k, rfl, rfl, hseen hmem⟩
  complete hsame := hr.complete fun ab hmem => hsame ab (List.mem_cons_of_mem _ hmem)

/-- two values that are neither the same leaf nor two pairs -/
theorem differ (hv : m.Shows a v) (hw : m.Shows b w) (hne : v.leaf ≠ w.leaf) (hno : ∀ h k, v = .cons h → w ≠ .cons k) :
    m.Compared ((a, b) :: work) seen false where
  sound := nofun
  complete hsame := by
    have hroot := (hsame _ List.mem_cons_self [] v.node).1 ((unfolds_root hv).2 rfl)
    obtain ⟨h, k, hh, hk⟩ := exists_cons_of_node_eq ((unfolds_root hw).1 hroot) hne
    exact absurd hk (hno h k hh)

/-- two pairs that are started on -/
theorem start (hv : m.Shows v (.cons h)) (hw : m.Shows w (.cons k)) (hc : m.cell? h = some (.cons a d))
    (hc' : m.cell? k = some (.cons b e)) (hr : m.Compared ((a, b) :: (d, e) :: work) ((h, k) :: seen) r) :
    m.Compared ((v, w) :: work) seen r where
  sound htrue := by
    obtain ⟨D, hseen, hwork, hD⟩ := hr.sound htrue
    rw [List.forall_mem_cons, List.forall_mem_cons] at hwork
    obtain ⟨hcar, hcdr, hwork⟩ := hwork
    obtain ⟨hmem, hseen⟩ := List.cons_subset.1 hseen
    refine ⟨D, hseen, List.forall_mem_cons.2 ⟨⟨_, _, hv, hw, .inr ⟨h, k, rfl, rfl, hmem⟩⟩, hwork⟩, fun hk hmem => ?_⟩
    rcases hD hk hmem with hbefore | hcontinues
    · rcases List.mem_cons.1 hbefore with rfl | hbefore
      · right
        intro a' d' b' e' hc₁ hc₂ s
        cases hc.symm.trans hc₁
        cases hc'.symm.trans hc₂
        cases s with
        | car => exact hcar
        | cdr => exact hcdr
      · exact .inl hbefore
    · exact .inr hcontinues
  complete hsame := by
    rw [List.forall_mem_cons] at hsame
    obtain ⟨hsame, hwork⟩ := hsame
    have hfield (s : Side) : m.SameUnfolding (s.of a d) (s.of b e) := fun path x => by
      rw [← unfolds_field hv hc, ← unfolds_field hw hc']
      exact hsame (s :: path) x
    exact hr.complete (List.forall_mem_cons.2 ⟨hfield .car, List.forall_mem_cons.2 ⟨hfield .cdr, hwork⟩⟩)

end Compared

theorem run_asCons_of_ne (hno : ∀ h, v ≠ .cons h) : (Act.asCons v).run m = .ok none m := by
  cases v with
  | cons h => exact absurd rfl (hno h)
  | _ => rfl

/-- one turn of a comparison: what is done with the first two values of the list -/
inductive Turn (m : Machine) (n : ℕ) (a b : Value) (work : List (Value × Value)) (seen : List (Handle × Handle)) : Prop where
  /-- there is no difference, and the rest of the list is compared -/
  | skip {v w : Value} (left : m.Shows a v) (right : m.Shows b w)
      (same : v.leaf = w.leaf ∨ ∃ h k, v = .cons h ∧ w = .cons k ∧ (h, k) ∈ seen)
      (run : (Act.equalWithin (n + 1) ((a, b) :: work) seen).run m = (Act.equalWithin n work seen).run m)
  /-- there is a difference -/
  | differ {v w : Value} (left : m.Shows a v) (right : m.Shows b w) (leaves : v.leaf ≠ w.leaf)
      (pairs : ∀ h k, v = .cons h → w ≠ .cons k)
      (run : (Act.equalWithin (n + 1) ((a, b) :: work) seen).run m = .ok false m)
  /-- there are two pairs, whose fields are put on the list -/
  | start {h k : Handle} {a' d b' e : Value} (left : m.Shows a (.cons h)) (right : m.Shows b (.cons k))
      (first : m.cell? h = some (.cons a' d)) (second : m.cell? k = some (.cons b' e)) (new : (h, k) ∉ seen)
      (run : (Act.equalWithin (n + 1) ((a, b) :: work) seen).run m =
        (Act.equalWithin n ((a', b') :: (d, e) :: work) ((h, k) :: seen)).run m)

theorem turn (hm : m.Traceable) (ha : m.Finds a) (hb : m.Finds b) (n : ℕ) (work : List (Value × Value))
    (seen : List (Handle × Handle)) : m.Turn n a b work seen := by
  obtain ⟨v, hv⟩ := hm.shows a
  obtain ⟨w, hw⟩ := hm.shows b
  have hplain {u : Value} (hu : u.place? = none) : u.isReference = false := by
    cases u with
    | ref p => cases hu
    | _ => rfl
  obtain ⟨r, hrun, hr⟩ := run_eql (m := m) (hplain hv.plain) (hplain hw.plain)
  -- the run as far as the leaves
  have hturn := Eq.refl ((Act.equalWithin (n + 1) ((a, b) :: work) seen).run m)
  conv at hturn =>
    rhs
    rw [Act.equalWithin, Act.bind_ok (run_seeThrough hm ha hv), Act.bind_ok (run_seeThrough hm hb hw), Act.bind_ok hrun]
  cases r with
  | true => exact .skip hv hw (.inl (hr.1 rfl)) hturn
  | false =>
    have hne : v.leaf ≠ w.leaf := fun h => absurd (hr.2 h) (by simp)
    by_cases hpair : ∃ h, v = .cons h
    swap
    · push Not at hpair
      refine .differ hv hw hne (fun h _ hh => absurd hh (hpair h)) (hturn.trans ?_)
      exact Act.bind_ok (run_asCons_of_ne hpair)
    by_cases hpair' : ∃ k, w = .cons k
    swap
    · push Not at hpair'
      obtain ⟨h, rfl⟩ := hpair
      obtain ⟨a', d, hc⟩ := hm.finds_of_shows ha hv
      obtain ⟨c, -, hrunc, -⟩ := run_asCons hc
      refine .differ hv hw hne (fun _ k _ => hpair' k) (hturn.trans ?_)
      exact (Act.bind_ok hrunc).trans (Act.bind_ok (run_asCons_of_ne hpair'))
    obtain ⟨h, rfl⟩ := hpair
    obtain ⟨k, rfl⟩ := hpair'
    obtain ⟨a', d, hc⟩ := hm.finds_of_shows ha hv
    obtain ⟨b', e, hc'⟩ := hm.finds_of_shows hb hw
    obtain ⟨c, rfl, hrunc, hfields⟩ := run_asCons hc
    obtain ⟨c', rfl, hrunc', hfields'⟩ := run_asCons hc'
    have hpairs := hturn.trans ((Act.bind_ok hrunc).trans (Act.bind_ok hrunc'))
    by_cases hmem : (c.handle, c'.handle) ∈ seen
    · refine .skip hv hw (.inr ⟨_, _, rfl, rfl, hmem⟩) (hpairs.trans ?_)
      simp only [List.contains_iff_mem.2 hmem, if_true]
    · refine .start hv hw hc hc' hmem (hpairs.trans ?_)
      simp only [mt List.contains_iff_mem.1 hmem, if_false, Bool.false_eq_true, Act.run_bind, Act.run_get, hfields, hfields']

/-- each pair of cells is started on once, and two comparisons come of it -/
theorem run_equalWithin (hm : m.Traceable) {n : ℕ} {work : List (Value × Value)} {seen : List (Handle × Handle)}
    (hwork : ∀ ab ∈ work, m.Finds ab.1 ∧ m.Finds ab.2) (hnodup : seen.Nodup)
    (hlt : ∀ hk ∈ seen, hk.1 < m.heap.slots.size ∧ hk.2 < m.heap.slots.size)
    (hn : work.length + 2 * (m.heap.slots.size * m.heap.slots.size - seen.length) ≤ n) :
    ∃ r, (Act.equalWithin n work seen).run m = .ok r m ∧ m.Compared work seen r := by
  induction n generalizing work seen with
  | zero =>
    obtain rfl : work = [] := List.length_eq_zero_iff.1 (by omega)
    exact ⟨true, rfl, .nil⟩
  | succ n ih =>
    obtain _ | ⟨⟨a, b⟩, work⟩ := work
    · exact ⟨true, rfl, .nil⟩
    rw [List.forall_mem_cons] at hwork
    obtain ⟨⟨ha, hb⟩, hwork⟩ := hwork
    rw [List.length_cons] at hn
    cases turn hm ha hb n work seen with
    | skip hv hw hsame hrun =>
      obtain ⟨r, hrest, hr⟩ := ih hwork hnodup hlt (by omega)
      exact ⟨r, hrun.trans hrest, .skip hv hw hsame hr⟩
    | differ hv hw hleaves hpairs hrun => exact ⟨false, hrun, .differ hv hw hleaves hpairs⟩
    | @start h k a' d b' e hv hw hc hc' hnew hrun =>
      have hthere {t : Handle} {c : Cell} (hc : m.cell? t = some c) : t < m.heap.slots.size :=
        have ⟨_, hs, _⟩ := Heap.cell?_eq_some.1 hc
        Heap.slot?_lt hs
      have hnodup' : ((h, k) :: seen).Nodup := List.nodup_cons.2 ⟨hnew, hnodup⟩
      have hlt' : ∀ hk ∈ (h, k) :: seen, hk.1 < m.heap.slots.size ∧ hk.2 < m.heap.slots.size :=
        List.forall_mem_cons.2 ⟨⟨hthere hc, hthere hc'⟩, hlt⟩
      have hroom := length_seen hnodup' hlt'
      rw [List.length_cons] at hroom
      have hwork' : ∀ ab ∈ (a', b') :: (d, e) :: work, m.Finds ab.1 ∧ m.Finds ab.2 :=
        List.forall_mem_cons.2 ⟨⟨hm.finds_of hc .car, hm.finds_of hc' .car⟩,
          List.forall_mem_cons.2 ⟨⟨hm.finds_of hc .cdr, hm.finds_of hc' .cdr⟩, hwork⟩⟩
      obtain ⟨r, hrest, hr⟩ := ih hwork' hnodup' hlt' (by simp only [List.length_cons]; omega)
      exact ⟨r, hrun.trans hrest, .start hv hw hc hc' hr⟩

theorem run_equal (hm : m.Traceable) (ha : m.Finds a) (hb : m.Finds b) :
    ∃ r, (Act.equal a b).run m = .ok r m ∧ (r = true ↔ m.SameUnfolding a b) := by
  have hwork : ∀ ab ∈ [(a, b)], m.Finds ab.1 ∧ m.Finds ab.2 := by simp [ha, hb]
  have hfuel : [(a, b)].length + 2 * (m.heap.slots.size * m.heap.slots.size - ([] : List (Handle × Handle)).length) ≤
      2 * m.heap.slots.size * m.heap.slots.size + 2 := by
    simp only [List.length_cons, List.length_nil, mul_assoc]
    omega
  obtain ⟨r, hrun, hr⟩ := run_equalWithin hm hwork List.nodup_nil (by simp) hfuel
  refine ⟨r, hrun, fun htrue => ?_, fun hsame => hr.complete (by simpa using hsame)⟩
  obtain ⟨D, -, hagrees, hD⟩ := hr.sound htrue
  exact Agrees.sameUnfolding hm (fun hk hmem => (hD hk hmem).resolve_left (by simp)) ha hb (hagrees _ List.mem_cons_self)

/-- **Two values are equal exactly if they unfold to the same tree.** Take a heap in which no place holds the handle of a pair or
of a box that is gone, and in which following references and boxes comes to an end wherever it starts. Whatever two values are
compared there, and however their pairs run in circles or are shared, the comparison comes to an answer, leaves the machine as it
was, and says yes exactly if along any path through the fields of pairs there is the same in the two unfoldings: a pair, the same
leaf, or nothing. Leaves are the same exactly if `eql` says so, that is if they are the same value or numbers that stand for the
same. So the values of the heap are divided into classes by it. -/
theorem equal_decides (hm : m.Traceable) :
    (∀ a b, m.Finds a → m.Finds b → ∃ r, (Act.equal a b).run m = .ok r m ∧ (r = true ↔ m.SameUnfolding a b)) ∧
    (∀ v w, v.isReference = false → w.isReference = false →
      ∃ r, (Act.eql v w).run m = .ok r m ∧ (r = true ↔ v.leaf = w.leaf)) ∧
    Equivalence fun a b : {v // m.Finds v} => (Act.equal a b).run m = .ok true m := by
  have hiff (a b : {v // m.Finds v}) : (Act.equal a b).run m = .ok true m ↔ m.SameUnfolding a b := by
    obtain ⟨r, hrun, hr⟩ := run_equal hm a.2 b.2
    rw [hrun, ← hr]
    simp
  refine ⟨fun a b ha hb => run_equal hm ha hb, fun v w hv hw => run_eql hv hw, ?_⟩
  refine ⟨fun a => (hiff a a).2 fun _ _ => Iff.rfl, fun {a b} h => ?_, fun {a b c} h h' => ?_⟩
  · have hab := (hiff a b).1 h
    exact (hiff b a).2 fun path x => (hab path x).symm
  · have hab := (hiff a b).1 h
    have hbc := (hiff b c).1 h'
    exact (hiff a c).2 fun path x => (hab path x).trans (hbc path x)

/-- only what is in places matters -/
theorem Traceable.of_contents (hfinds : ∀ v ∈ m.contents, m.Finds v) (hshows : ∀ v ∈ m.contents, ∃ w, m.Shows v w) :
    m.Traceable where
  finds p := by
    by_cases hp : m.load p = .unset
    · rw [hp]
      trivial
    · exact hfinds _ (load_mem_contents p hp)
  shows v := by
    cases hv : v.place? with
    | none => exact ⟨v, .here hv⟩
    | some p =>
      by_cases hp : m.load p = .unset
      · exact ⟨.unset, .behind hv (by rw [hp]; exact .here rfl)⟩
      · exact (hshows _ (load_mem_contents p hp)).imp fun _ => .behind hv

/-- two circular lists of ones, of one pair and of two pairs; one of the two elements is given by a reference, and a box holds the
list from there -/
def circles : Machine := Outcome.machine ((do
  let one ← Act.allocate (.cons (.int 1) .nil)
  Act.store (.cdr one) (.cons one)
  let first ← Act.allocate (.cons (.int 1) .nil)
  let second ← Act.allocate (.cons (.ref (.car one)) (.cons first))
  Act.store (.cdr first) (.cons second)
  let _ ← Act.allocate (.box (.cons second)) : Act Unit).run initial)

theorem equal_decides_circles : circles.Traceable ∧ circles.SameUnfolding (.cons 2) (.box 5) ∧
    (Act.equal (.box 5) (.cons 2)).run circles = .ok true circles := by
  have hcontents : circles.contents = [.int 1, .cons 2, .int 1, .cons 4, .ref (.car 2), .cons 3, .cons 4] := by decide
  have ha : circles.Finds (.cons 2) := ⟨.int 1, .cons 2, by decide⟩
  have hm : circles.Traceable := by
    refine .of_contents ?_ ?_ <;> rw [hcontents] <;> simp only [List.forall_mem_cons]
    · have hfirst : circles.Finds (.cons 3) := ⟨.int 1, .cons 4, by decide⟩
      have hsecond : circles.Finds (.cons 4) := ⟨.ref (.car 2), .cons 3, by decide⟩
      exact ⟨trivial, ha, trivial, hsecond, trivial, hfirst, hsecond, by simp⟩
    · have hone : circles.load (.car 2) = .int 1 := by decide
      have href : circles.Shows (.ref (.car 2)) (.int 1) := .behind rfl (by rw [hone]; exact .here rfl)
      exact ⟨⟨_, .here rfl⟩, ⟨_, .here rfl⟩, ⟨_, .here rfl⟩, ⟨_, .here rfl⟩, ⟨_, href⟩, ⟨_, .here rfl⟩, ⟨_, .here rfl⟩, by simp⟩
  have hb : circles.Finds (.box 5) := ⟨.cons 4, by decide⟩
  obtain ⟨hequal, -, hequivalence⟩ := equal_decides hm
  obtain ⟨r, hrun, hr⟩ := hequal (.cons 2) (.box 5) ha hb
  have htrue : r = true := by
    have h : (match (Act.equal (.cons 2) (.box 5)).run circles with | .ok r _ => r | .error _ _ => false) = true := by decide
    rw [hrun] at h
    exact h
  subst htrue
  exact ⟨hm, hr.1 rfl, hequivalence.symm (x := ⟨.cons 2, ha⟩) (y := ⟨.box 5, hb⟩) hrun⟩

end Machine

end LispMachine
