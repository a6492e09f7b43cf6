/-
Proper lists, and the walk that finds their elements.

`Walks m v items` says that `v` is a proper list with the given elements. A list has one sequence of elements at most, and no
more of them than the heap has slots, since no pair of a proper list comes twice. What is no proper list ends in something else
(`Dotted`) or runs into a circle (`Circular`).

The walk moves two cursors. On a proper list the slow one has more before it than the other one, so they never meet
(`Walks.run_walkFrom`). On a circular list the first one is ahead by `k` pairs after `2 * k` steps, so they meet as soon as `k` is
a multiple of the circle's length and the slow cursor is inside it (`Circular.exists_meeting`). `walkList_decides`: a walk takes
the elements of a proper list in order and refuses everything else.
-/
import Mathlib.Tactic
import LispMachine.Machine.Lists
import LispMachine.Proofs.Actions
import LispMachine.Proofs.Table

namespace LispMachine.Machine

/-- a value is a proper list with these elements -/
inductive Walks (m : Machine) : Value → List Value → Prop where
  | nil : Walks m .nil []
  | cons {h : Handle} {a d : Value} {items : List Value} :
      m.cell? h = some (.cons a d) → Walks m d items → Walks m (.cons h) (a :: items)

variable {m : Machine} {v : Value}

theorem Walks.unique {items items' : List Value} (h : m.Walks v items) (h' : m.Walks v items') : items = items' := by
  induction h generalizing items' with
  | nil => cases h'; rfl
  | cons hc _ ih =>
    cases h' with
    | cons hc' h' =>
      obtain ⟨rfl, rfl⟩ : _ ∧ _ := by simpa using hc.symm.trans hc'
      rw [ih h']

/-- the pairs of a proper list, each with a proper list no longer than the whole -/
theorem Walks.pairs {items : List Value} (h : m.Walks v items) :
    ∃ hs : List Handle, hs.length = items.length ∧ hs.Nodup ∧ (∀ t ∈ hs, t < m.heap.slots.size) ∧
      ∀ t ∈ hs, ∃ rest, m.Walks (.cons t) rest ∧ rest.length ≤ items.length := by
  induction h with
  | nil => exact ⟨[], rfl, List.nodup_nil, by simp, by simp⟩
  | @cons t a d items hc hd ih =>
    obtain ⟨hs, hlen, hnodup, hlt, hrest⟩ := ih
    have hwhole : m.Walks (.cons t) (a :: items) := .cons hc hd
    obtain ⟨s, hs', -⟩ := Heap.cell?_eq_some.1 hc
    refine ⟨t :: hs, by simp [hlen], List.nodup_cons.2 ⟨fun hmem => ?_, hnodup⟩, ?_, ?_⟩
    · -- the list from the later occurrence would be shorter than the same list from the first
      obtain ⟨rest, hwalk, hle⟩ := hrest t hmem
      have := congrArg List.length (hwalk.unique hwhole)
      simp only [List.length_cons] at this
      omega
    · exact List.forall_mem_cons.2 ⟨Heap.slot?_lt hs', hlt⟩
    · refine List.forall_mem_cons.2 ⟨⟨_, hwhole, le_rfl⟩, fun u hu => ?_⟩
      obtain ⟨rest, hwalk, hle⟩ := hrest u hu
      exact ⟨rest, hwalk, hle.trans (by simp)⟩

theorem Walks.length_le {items : List Value} (h : m.Walks v items) : items.length ≤ m.heap.slots.size := by
  obtain ⟨hs, hlen, hnodup, hlt, -⟩ := h.pairs
  have hsub : hs ⊆ List.range m.heap.slots.size := fun t ht => List.mem_range.2 (hlt t ht)
  have := (hnodup.subperm hsub).length_le
  rwa [hlen, List.length_range] at this

/-! ## Steps of the walk -/

section

variable {α : Type} {f : α → Value → α} {acc : α} {n : ℕ} {second : Bool} {slow cur : Value} {h t : Handle} {a d b e : Value}

theorem run_asCons (hc : m.cell? h = some (.cons a d)) :
    ∃ c, c.handle = h ∧ (Act.asCons (.cons h)).run m = .ok (some c) m ∧ m.fields c = (a, d) := by
  obtain ⟨⟨_, e, n, text⟩, hs, rfl⟩ := Heap.cell?_eq_some.1 hc
  refine ⟨⟨h, n⟩, rfl, ?_, by simp [fields, hs]⟩
  unfold Act.asCons Act.resolve
  simp only [Value.handle?, Act.run_bind, Act.run_get, hs, Act.run_pure]

/-- a step of the first cursor alone -/
theorem run_walkFrom_first (hc : m.cell? h = some (.cons a d)) :
    (Act.walkFrom f (n + 1) false slow (.cons h) acc).run m = (Act.walkFrom f n true slow d (f acc a)).run m := by
  obtain ⟨c, -, hrun, hfields⟩ := run_asCons hc
  simp only [Act.walkFrom]
  rw [Act.bind_ok hrun]
  simp only [Act.run_bind, Act.run_get, hfields, Bool.false_eq_true, if_false]

/-- a step of both cursors -/
theorem run_walkFrom_second (hc : m.cell? h = some (.cons a d)) (hs : m.cell? t = some (.cons b e)) :
    (Act.walkFrom f (n + 1) true (.cons t) (.cons h) acc).run m =
      if e = d ∧ d ≠ .nil then .ok none m else (Act.walkFrom f n false e d (f acc a)).run m := by
  obtain ⟨c, -, hrun, hfields⟩ := run_asCons hc
  obtain ⟨s, -, hruns, hfields'⟩ := run_asCons hs
  simp only [Act.walkFrom]
  rw [Act.bind_ok hrun]
  simp only [Act.run_bind, Act.run_get, hfields, if_true, hruns, hfields']
  split_ifs <;> rfl

theorem run_walkFrom_other (hnil : v ≠ .nil) (hrun : (Act.asCons v).run m = .ok none m) :
    (Act.walkFrom f (n + 1) second slow v acc).run m = .ok none m := by
  cases v with
  | nil => exact absurd rfl hnil
  | _ =>
    simp only [Act.walkFrom]
    rw [Act.bind_ok hrun]
    rfl

end

/-! ## Proper lists -/

section

variable {α : Type} {f : α → Value → α}

/-- The walk gives all elements of a proper list to `f`. The slow cursor is on a longer list, so it is somewhere else. -/
theorem Walks.run_walkFrom {items behind : List Value} {cur slow : Value} {acc : α} {n : ℕ} {second : Bool}
    (h : m.Walks cur items) (hslow : m.Walks slow behind) (hlen : items.length + second.toNat ≤ behind.length)
    (hn : items.length ≤ n) : (Act.walkFrom f n second slow cur acc).run m = .ok (some (items.foldl f acc)) m := by
  induction h generalizing behind slow acc n second with
  | nil => simp [Act.walkFrom]
  | @cons t a d items hc hd ih =>
    rw [List.length_cons] at hlen hn
    obtain ⟨n, rfl⟩ : ∃ k, n = k + 1 := ⟨n - 1, by omega⟩
    cases second with
    | false =>
      rw [run_walkFrom_first hc, List.foldl_cons]
      exact ih hslow (by simpa using hlen) (by omega)
    | true =>
      cases hslow with
      | nil => simp at hlen
      | @cons u b e behind hs he =>
        have hlonger : items.length < behind.length := by simpa using hlen
        have hne : e ≠ d := by
          rintro rfl
          rw [he.unique hd] at hlonger
          exact lt_irrefl _ hlonger
        rw [run_walkFrom_second hc hs, if_neg fun hmeet => hne hmeet.1, List.foldl_cons]
        exact ih he (by simpa using hlonger.le) (by omega)

theorem Walks.run_walkList {items : List Value} (h : m.Walks v items) (init : α) :
    (Act.walkList f init v).run m = .ok (items.foldl f init) m := by
  have hlen := h.length_le
  have hrun : (Act.walkFrom f (2 * m.heap.slots.size + 1) false v v init).run m = .ok (some (items.foldl f init)) m :=
    h.run_walkFrom h (by simp) (by omega)
  unfold Act.walkList
  simp only [Act.run_bind, Act.run_get, hrun]
  rfl

theorem Walks.run_listItems {items : List Value} (h : m.Walks v items) : (Act.listItems v).run m = .ok items m := by
  unfold Act.listItems
  rw [Act.bind_ok (h.run_walkList [])]
  simp

theorem Walks.run_listLength {items : List Value} (h : m.Walks v items) :
    (Act.listLength v).run m = .ok items.length m := by
  unfold Act.listLength
  rw [h.run_walkList 0]
  simp

end

/-! ## What else a value can be -/

/-- the rest of a pair -/
def rest? (m : Machine) : Value → Option Value
  | .cons h => match m.cell? h with
    | some (.cons _ d) => some d
    | _ => none
  | _ => none

/-- what comes after `n` pairs -/
def after? (m : Machine) (v : Value) : ℕ → Option Value
  | 0 => some v
  | n + 1 => (m.after? v n).bind m.rest?

/-- after some pairs comes what is neither nil nor a pair -/
def Dotted (m : Machine) (v : Value) : Prop := ∃ n w, m.after? v n = some w ∧ w ≠ .nil ∧ m.rest? w = none

/-- after some pairs comes one that comes again -/
def Circular (m : Machine) (v : Value) : Prop :=
  ∃ start period w, 0 < period ∧ m.after? v start = some w ∧ m.after? v (start + period) = some w

theorem rest?_eq_some {d : Value} : m.rest? v = some d ↔ ∃ h a, v = .cons h ∧ m.cell? h = some (.cons a d) := by
  unfold rest?
  split
  · split <;> simp_all
  · simp_all

theorem after?_add (n k : ℕ) : m.after? v (n + k) = (m.after? v n).bind (m.after? · k) := by
  induction k with
  | zero => simp [after?]
  | succ k ih =>
    rw [← Nat.add_assoc, after?, ih, Option.bind_assoc]
    rfl

theorem after?_le {n k : ℕ} (hk : (m.after? v k).isSome) (hle : n ≤ k) : (m.after? v n).isSome := by
  obtain ⟨j, rfl⟩ := Nat.exists_eq_add_of_le hle
  rw [after?_add, Option.isSome_bind] at hk
  exact Option.isSome_of_any hk

theorem Walks.of_after? {n : ℕ} (h : m.after? v n = some .nil) : ∃ items, m.Walks v items := by
  induction n generalizing v with
  | zero => cases h; exact ⟨[], .nil⟩
  | succ n ih =>
    rw [Nat.add_comm, after?_add, Option.bind_eq_some_iff] at h
    obtain ⟨d, hd, h⟩ := h
    obtain ⟨t, a, rfl, hc⟩ := rest?_eq_some.1 (by simpa [after?] using hd)
    obtain ⟨items, hw⟩ := ih h
    exact ⟨a :: items, .cons hc hw⟩

theorem Walks.after?_length {items : List Value} (h : m.Walks v items) : m.after? v items.length = some .nil := by
  induction h with
  | nil => rfl
  | @cons t a d items hc _ ih =>
    have hd : m.after? (.cons t) 1 = some d := rest?_eq_some.2 ⟨t, a, rfl, hc⟩
    rw [List.length_cons, Nat.add_comm, after?_add, hd, Option.bind_some, ih]

/-- a proper list is over where it comes to nil -/
theorem Walks.le_length {items : List Value} (h : m.Walks v items) {n : ℕ} (hn : (m.after? v n).isSome) : n ≤ items.length := by
  by_contra hlt
  have hbeyond := after?_le hn (Nat.lt_of_not_le hlt)
  rw [after?, h.after?_length] at hbeyond
  cases hbeyond

theorem Dotted.not_walks (h : m.Dotted v) (items : List Value) : ¬ m.Walks v items := by
  intro hw
  obtain ⟨n, w, hn, hnil, hrest⟩ := h
  rcases (hw.le_length (by rw [hn]; rfl)).eq_or_lt with rfl | hlt
  · exact hnil (Option.some.inj (hn.symm.trans hw.after?_length))
  · have hnext : (m.after? v (n + 1)).isSome := after?_le (by rw [hw.after?_length]; rfl) hlt
    rw [after?, hn, Option.bind_some, hrest] at hnext
    cases hnext

/-- what comes again comes again and again -/
theorem after?_period {start period : ℕ} {w : Value} (hs : m.after? v start = some w)
    (hp : m.after? v (start + period) = some w) {n : ℕ} (hn : start ≤ n) (k : ℕ) :
    m.after? v (n + k * period) = m.after? v n := by
  induction k with
  | zero => rw [Nat.zero_mul, Nat.add_zero]
  | succ k ih =>
    obtain ⟨j, hj⟩ : ∃ j, n + k * period = start + j := Nat.exists_eq_add_of_le (hn.trans (Nat.le_add_right _ _))
    have hshift : n + (k + 1) * period = start + period + j := by
      rw [Nat.succ_mul]
      omega
    calc m.after? v (n + (k + 1) * period)
        = (m.after? v (start + period)).bind (m.after? · j) := by rw [hshift, after?_add]
      _ = (m.after? v start).bind (m.after? · j) := by rw [hp, hs]
      _ = m.after? v n := by rw [← after?_add, ← hj, ih]

theorem Circular.isSome (h : m.Circular v) (n : ℕ) : (m.after? v n).isSome := by
  obtain ⟨start, period, w, hpos, hs, hp⟩ := h
  have hfar : (m.after? v (start + n * period)).isSome := by
    rw [after?_period hs hp le_rfl, hs]
    rfl
  exact after?_le hfar ((Nat.le_mul_of_pos_right n hpos).trans (Nat.le_add_left _ _))

theorem Circular.not_walks (h : m.Circular v) (items : List Value) : ¬ m.Walks v items := fun hw => by
  have := hw.le_length (h.isSome (items.length + 1))
  omega

/-- The heap has so many slots that a longer walk comes to a pair twice. -/
theorem exists_again (h : (m.after? v (m.heap.slots.size + 1)).isSome) :
    ∃ start period w, 0 < period ∧ start + period ≤ m.heap.slots.size ∧ m.after? v start = some w ∧
      m.after? v (start + period) = some w := by
  have hpair (i : Fin (m.heap.slots.size + 1)) : ∃ t : Fin m.heap.slots.size, m.after? v i = some (.cons t) := by
    obtain ⟨d, hd⟩ := Option.isSome_iff_exists.1 (after?_le h (Nat.succ_le_succ (Nat.le_of_lt_succ i.2)))
    rw [after?, Option.bind_eq_some_iff] at hd
    obtain ⟨w, hw, hrest⟩ := hd
    obtain ⟨t, a, rfl, hc⟩ := rest?_eq_some.1 hrest
    obtain ⟨s, hs, -⟩ := Heap.cell?_eq_some.1 hc
    exact ⟨⟨t, Heap.slot?_lt hs⟩, hw⟩
  choose slot hslot using hpair
  obtain ⟨i, j, hne, heq⟩ := Fintype.exists_ne_map_eq_of_card_lt slot (by simp)
  wlog hlt : i < j generalizing i j with hswap
  · exact hswap j i hne.symm heq.symm (lt_of_le_of_ne (not_lt.1 hlt) hne.symm)
  have hij : (i : ℕ) + (j - i) = j := Nat.add_sub_cancel' hlt.le
  refine ⟨i, j - i, _, Nat.sub_pos_of_lt hlt, hij.trans_le (Nat.le_of_lt_succ j.2), hslot i, ?_⟩
  rw [hij, hslot j, heq]

/-- a place that comes again after as many pairs as lie before it -/
theorem exists_meeting {start period : ℕ} {w : Value} (hpos : 0 < period) (hs : m.after? v start = some w)
    (hp : m.after? v (start + period) = some w) :
    ∃ k u, 0 < k ∧ k ≤ start + period ∧ m.after? v k = some u ∧ m.after? v (2 * k) = some u := by
  -- the first multiple of the period behind the start
  let turns := start / period + 1
  have hturns : turns * period = start / period * period + period := Nat.succ_mul _ _
  have hdiv := Nat.div_add_mod' start period
  have hmod := Nat.mod_lt start hpos
  have hsome : (m.after? v (turns * period)).isSome := Circular.isSome ⟨start, period, w, hpos, hs, hp⟩ _
  obtain ⟨u, hu⟩ := Option.isSome_iff_exists.1 hsome
  refine ⟨turns * period, u, by omega, by omega, hu, ?_⟩
  rw [Nat.two_mul, after?_period hs hp (by omega), hu]

/-- within as many pairs as the heap has slots a value comes to its end or to a place that comes again -/
theorem exists_end (m : Machine) (v : Value) :
    (∃ n w, n ≤ m.heap.slots.size ∧ m.after? v n = some w ∧ m.rest? w = none) ∨
      ∃ k w, 0 < k ∧ k ≤ m.heap.slots.size ∧ m.after? v k = some w ∧ m.after? v (2 * k) = some w := by
  by_cases h : (m.after? v (m.heap.slots.size + 1)).isSome
  · obtain ⟨start, period, w, hpos, hle, hs, hp⟩ := exists_again h
    obtain ⟨k, u, hk, hk', hu⟩ := exists_meeting hpos hs hp
    exact .inr ⟨k, u, hk, hk'.trans hle, hu⟩
  · left
    have hend : ∃ n, m.after? v n = none := ⟨_, by simpa using h⟩
    obtain ⟨n, hn⟩ : ∃ n, Nat.find hend = n + 1 :=
      Nat.exists_eq_succ_of_ne_zero fun h0 => by simpa [h0, after?] using Nat.find_spec hend
    have hlast : m.after? v (n + 1) = none := hn ▸ Nat.find_spec hend
    obtain ⟨w, hw⟩ := Option.ne_none_iff_exists'.1 (Nat.find_min hend (m := n) (by omega))
    have hle : Nat.find hend ≤ m.heap.slots.size + 1 := Nat.find_min' hend (by simpa using h)
    rw [after?, hw, Option.bind_some] at hlast
    exact ⟨n, w, by omega, hw, hlast⟩

/-- there is nothing else that a value can be -/
theorem walks_or (m : Machine) (v : Value) : (∃ items, m.Walks v items) ∨ m.Dotted v ∨ m.Circular v := by
  rcases exists_end m v with ⟨n, w, -, hw, hrest⟩ | ⟨k, w, hk, -, hw, hagain⟩
  · by_cases hnil : w = .nil
    · exact .inl (Walks.of_after? (hnil ▸ hw))
    · exact .inr (.inl ⟨n, w, hw, hnil, hrest⟩)
  · exact .inr (.inr ⟨k, k, w, hk, hw, by rwa [← Nat.two_mul]⟩)

/-! ## Improper lists -/

/-- values whose rests are there wherever they are pairs -/
def Sturdy (m : Machine) (P : Value → Prop) : Prop :=
  ∀ h, P (.cons h) → ∃ s, m.heap.slot? h = some s ∧ ∀ a d, s.cell = .cons a d → P d

section

variable {P : Value → Prop} {α : Type} {f : α → Value → α}

theorem Sturdy.after? (hP : m.Sturdy P) (hv : P v) {n : ℕ} {w : Value} (h : m.after? v n = some w) : P w := by
  induction n generalizing w with
  | zero => cases h; exact hv
  | succ n ih =>
    rw [Machine.after?, Option.bind_eq_some_iff] at h
    obtain ⟨u, hu, hrest⟩ := h
    obtain ⟨t, a, rfl, hc⟩ := rest?_eq_some.1 hrest
    obtain ⟨s, hs, hd⟩ := hP t (ih hu)
    exact hd a w (Option.some.inj ((Heap.cell?_of_slot? hs).symm.trans hc))

theorem Sturdy.run_asCons_none (hP : m.Sturdy P) (hv : P v) (hrest : m.rest? v = none) :
    (Act.asCons v).run m = .ok none m := by
  cases v with
  | cons h =>
    obtain ⟨⟨c, e, k, text⟩, hs, -⟩ := hP h hv
    have hc : m.cell? h = some c := Heap.cell?_of_slot? hs
    unfold Act.asCons Act.resolve
    simp only [Value.handle?, Act.run_bind, Act.run_get, hs, Act.run_pure]
    cases c with
    | cons a d => simp [rest?, hc] at hrest
    | _ => rfl
  | _ => rfl

/-- A step from a pair: the cursors meet, or they go on, the slow one half as far; on every second step they are apart. -/
theorem walkFrom_step {i n : ℕ} {cur slow d : Value} (hcur : m.after? v i = some cur) (hslow : m.after? v (i / 2) = some slow)
    (hd : m.after? v (i + 1) = some d) (acc : α) :
    (Act.walkFrom f (n + 1) (i % 2 = 1) slow cur acc).run m = .ok none m ∨
      ∃ slow' acc', m.after? v ((i + 1) / 2) = some slow' ∧ (i % 2 = 1 → slow' = d → d = .nil) ∧
        (Act.walkFrom f (n + 1) (i % 2 = 1) slow cur acc).run m =
          (Act.walkFrom f n ((i + 1) % 2 = 1) slow' d acc').run m := by
  have hrest : m.rest? cur = some d := by rwa [after?, hcur] at hd
  obtain ⟨h, a, rfl, hc⟩ := rest?_eq_some.1 hrest
  rcases Nat.mod_two_eq_zero_or_one i with heven | hodd
  · have hhalf : (i + 1) / 2 = i / 2 := by omega
    have hnext : (i + 1) % 2 = 1 := by omega
    refine .inr ⟨slow, f acc a, hhalf ▸ hslow, by omega, ?_⟩
    rw [decide_eq_false (by omega), decide_eq_true hnext, run_walkFrom_first hc]
  · have hhalf : (i + 1) / 2 = i / 2 + 1 := by omega
    obtain ⟨e, he⟩ := Option.isSome_iff_exists.1 (after?_le (by rw [hd]; rfl) (show i / 2 + 1 ≤ i + 1 by omega))
    have hrest' : m.rest? slow = some e := by rwa [after?, hslow] at he
    obtain ⟨t, b, rfl, hs⟩ := rest?_eq_some.1 hrest'
    rw [decide_eq_true hodd, run_walkFrom_second hc hs]
    by_cases hmeet : e = d ∧ d ≠ .nil
    · exact .inl (if_pos hmeet)
    · refine .inr ⟨e, f acc a, hhalf ▸ he, fun _ hed => by_contra fun hne => hmeet ⟨hed, hne⟩, ?_⟩
      rw [if_neg hmeet, decide_eq_false (by omega)]

/-- the walk comes to the end of a list that is dotted -/
theorem Sturdy.run_dotted (hP : m.Sturdy P) (hv : P v) {k : ℕ} {w : Value} (hw : m.after? v k = some w) (hnil : w ≠ .nil)
    (hrest : m.rest? w = none) {i n : ℕ} {cur slow : Value} {acc : α} (hcur : m.after? v i = some cur)
    (hslow : m.after? v (i / 2) = some slow) (hi : i ≤ k) (hn : k < i + n) :
    (Act.walkFrom f n (i % 2 = 1) slow cur acc).run m = .ok none m := by
  induction n generalizing i cur slow acc with
  | zero => omega
  | succ n ih =>
    rcases hi.eq_or_lt with rfl | hlt
    · obtain rfl : cur = w := Option.some.inj (hcur.symm.trans hw)
      exact run_walkFrom_other hnil (hP.run_asCons_none (hP.after? hv hw) hrest)
    · obtain ⟨d, hd⟩ := Option.isSome_iff_exists.1 (after?_le (by rw [hw]; rfl) hlt)
      rcases walkFrom_step hcur hslow hd acc with hnone | ⟨slow', acc', hslow', -, hrun⟩
      · exact hnone
      · exact hrun.trans (ih hd hslow' hlt (by omega))

/-- the cursors meet on a circular list -/
theorem run_circular {k : ℕ} {w : Value} (hk : m.after? v k = some w) (hagain : m.after? v (2 * k) = some w) (hnil : w ≠ .nil)
    {i n : ℕ} {cur slow : Value} {acc : α} (hcur : m.after? v i = some cur) (hslow : m.after? v (i / 2) = some slow)
    (hi : i < 2 * k) (hn : 2 * k ≤ i + n) : (Act.walkFrom f n (i % 2 = 1) slow cur acc).run m = .ok none m := by
  induction n generalizing i cur slow acc with
  | zero => omega
  | succ n ih =>
    obtain ⟨d, hd⟩ := Option.isSome_iff_exists.1 (after?_le (n := i + 1) (by rw [hagain]; rfl) hi)
    rcases walkFrom_step hcur hslow hd acc with hnone | ⟨slow', acc', hslow', hapart, hrun⟩
    · exact hnone
    · have hbefore : i + 1 ≠ 2 * k := by
        intro heq
        have hhalf : (i + 1) / 2 = k := by omega
        rw [heq, hagain] at hd
        rw [hhalf, hk] at hslow'
        cases hd
        cases hslow'
        exact hnil (hapart (by omega) rfl)
      exact hrun.trans (ih hd hslow' (by omega) (by omega))

theorem Sturdy.run_walkList (hP : m.Sturdy P) (hv : P v) (hno : ∀ items, ¬ m.Walks v items) (init : α) :
    (Act.walkList f init v).run m = .error (.raised (.improperList v)) m := by
  have hnil {n : ℕ} {w : Value} (hw : m.after? v n = some w) : w ≠ .nil := by
    rintro rfl
    obtain ⟨items, hi⟩ := Walks.of_after? hw
    exact hno items hi
  have hnone : (Act.walkFrom f (2 * m.heap.slots.size + 1) false v v init).run m = .ok none m := by
    rcases exists_end m v with ⟨n, w, hn, hw, hrest⟩ | ⟨k, w, hk, hle, hw, hagain⟩
    · exact hP.run_dotted hv (i := 0) hw (hnil hw) hrest rfl rfl (Nat.zero_le n) (by omega)
    · exact run_circular (i := 0) hw hagain (hnil hw) rfl rfl (by omega) (by omega)
  unfold Act.walkList
  simp only [Act.run_bind, Act.run_get, hnone]
  rfl

theorem Sturdy.run_listItems (hP : m.Sturdy P) (hv : P v) (hno : ∀ items, ¬ m.Walks v items) :
    (Act.listItems v).run m = .error (.raised (.improperList v)) m := by
  unfold Act.listItems
  exact Act.bind_error (hP.run_walkList hv hno [])

end

/-! ## What a walk comes to -/

/-- the object that a value names, if it names one, has not been released -/
def IsThere (m : Machine) (v : Value) : Prop := ∀ h, v.handle? = some h → (m.heap.slot? h).isSome

/-- no rest of a pair names an object that has been released -/
def NoRestDangles (m : Machine) : Prop := ∀ h a d, m.cell? h = some (.cons a d) → m.IsThere d

theorem NoRestDangles.sturdy (hm : m.NoRestDangles) : m.Sturdy m.IsThere := by
  intro h hv
  obtain ⟨s, hs⟩ := Option.isSome_iff_exists.1 (hv h rfl)
  refine ⟨s, hs, fun a d hcell => hm h a d ?_⟩
  rw [← hcell]
  exact Heap.cell?_of_slot? hs

/-- **A walk along a list comes to an end, and it tells a proper list from everything else.** It succeeds exactly if nil comes after
finitely many pairs, and then it gives the elements in order, or how many they are. Every value is a proper list, or ends in
something else than nil (a value that is no list does so at once), or runs into a circle after some pairs; in the last two cases
the walk is refused with an error that names the whole list. Nothing is changed on the way. -/
theorem walkList_decides (hm : m.NoRestDangles) (hv : m.IsThere v) :
    ((∃ items, (Act.listItems v).run m = .ok items m) ↔ ∃ n, m.after? v n = some .nil) ∧
    (∀ items, m.Walks v items →
      (Act.listItems v).run m = .ok items m ∧ (Act.listLength v).run m = .ok items.length m) ∧
    (m.Dotted v ∨ m.Circular v → (Act.listItems v).run m = .error (.raised (.improperList v)) m ∧
      (Act.listLength v).run m = .error (.raised (.improperList v)) m) ∧
    ((∃ items, m.Walks v items) ∨ m.Dotted v ∨ m.Circular v) := by
  have himproper (h : m.Dotted v ∨ m.Circular v) : (Act.listItems v).run m = .error (.raised (.improperList v)) m ∧
      (Act.listLength v).run m = .error (.raised (.improperList v)) m := by
    have hno : ∀ items, ¬ m.Walks v items := h.elim Dotted.not_walks Circular.not_walks
    exact ⟨hm.sturdy.run_listItems hv hno, hm.sturdy.run_walkList hv hno 0⟩
  refine ⟨⟨fun ⟨items, hrun⟩ => ?_, fun ⟨n, hn⟩ => ?_⟩, fun items h => ⟨h.run_listItems, h.run_listLength⟩, himproper, walks_or m v⟩
  · rcases walks_or m v with ⟨items', h⟩ | h
    · exact ⟨_, h.after?_length⟩
    · cases hrun.symm.trans (himproper h).1
  · obtain ⟨items, h⟩ := Walks.of_after? hn
    exact ⟨items, h.run_listItems⟩

/-- a pair before a circle of two -/
def winding : Machine := Outcome.machine ((do
  let last ← Act.allocate (.cons (.int 3) .nil)
  let first ← Act.allocate (.cons (.int 2) (.cons last))
  Act.store (.cdr last) (.cons first)
  let _ ← Act.allocate (.cons (.int 1) (.cons first)) : Act Unit).run initial)

theorem walkList_decides_winding : winding.NoRestDangles ∧ winding.IsThere (.cons 4) ∧ winding.Circular (.cons 4) ∧
    (Act.listItems (.cons 4)).run winding = .error (.raised (.improperList (.cons 4))) winding ∧
    (Act.listLength (.cons 4)).run winding = .error (.raised (.improperList (.cons 4))) winding := by
  have hthere : ∀ t ∈ [2, 3, 4], winding.IsThere (.cons t) := by
    have hslot : ∀ t ∈ [2, 3, 4], (winding.heap.slot? t).isSome = true := by decide
    intro t ht h heq
    cases heq
    exact hslot t ht
  have hrests : winding.NoRestDangles := by
    intro h a d hc
    obtain ⟨s, hs, -⟩ := Heap.cell?_eq_some.1 hc
    have hlt : h < 5 := Heap.slot?_lt hs
    have hd : d ∈ [.cons 2, .cons 3] := by
      have hall : ∀ h < 5, (winding.rest? (.cons h)).all (· ∈ [Value.cons 2, .cons 3]) = true := by decide
      have hrest : winding.rest? (.cons h) = some d := rest?_eq_some.2 ⟨h, a, rfl, hc⟩
      simpa [hrest] using hall h hlt
    simp only [List.mem_cons, List.not_mem_nil, or_false] at hd
    rcases hd with rfl | rfl <;> exact hthere _ (by simp)
  have hcircular : winding.Circular (.cons 4) := ⟨1, 2, .cons 3, by decide, by decide, by decide⟩
  have hv := hthere 4 (by simp)
  obtain ⟨-, -, himproper, -⟩ := walkList_decides hrests hv
  exact ⟨hrests, hv, hcircular, himproper (.inr hcircular)⟩

end LispMachine.Machine
