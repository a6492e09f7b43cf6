/-
The text of a pair, whatever it shares and wherever it runs into itself.

A pair is written as the tree that it unfolds to. A pair that is met inside itself is cut off there and written as `...`; one that
is met anywhere else is written out again, however often it is met. `Machine.Sketched` says so of a value and the pairs that it is
inside of, which are the pairs that are still being printed when the value is (`Act.printJob_eq`).

Only values whose pairs end in numbers, immediates and symbols are looked at (`Machine.IsData`). Such a value has one sketch
(`Sketched.unique`), and it does have one (`IsData.exists_sketched`): the pairs around a value are all different, so they are no more
than the heap has slots. Nothing is cut off exactly if no pair leads back to itself (`Sketched.isWhole_iff`), and then the sketch is
the whole tree (`Machine.Tree`).

`Machine.print_unfolds`: the printed text is that of the sketch. So two values with the same tree print the same, and whether a pair
is shared cannot be seen in a text.
-/
import Mathlib.Tactic
import LispMachine.Proofs.Nesting
import LispMachine.Proofs.Table

namespace LispMachine

/-! ## Sketches -/

/-- what is written of a value: a tree, some pairs of which may be cut off -/
inductive Sketch where
  | nil
  | leaf (text : String)
  /-- in place of a pair that is still being printed -/
  | cut
  | pair (first rest : Sketch)
deriving DecidableEq

namespace Sketch

mutual

/-- the text of a sketch, in pieces -/
def pieces : Sketch → List String
  | .nil => ["nil"]
  | .leaf text => [text]
  | .cut => ["..."]
  | .pair first rest => "(" :: (first.pieces ++ rest.tailPieces)

/-- the text of the rest of a list up to its closing parenthesis -/
def tailPieces : Sketch → List String
  | .nil => [")"]
  | .leaf text => [" . ", text, ")"]
  | .cut => [" ...", ")"]
  | .pair first rest => " " :: (first.pieces ++ rest.tailPieces)

end

def text (s : Sketch) : String := String.join s.pieces

/-- how deep the pairs of a sketch nest -/
def depth : Sketch → Nat
  | .pair first rest => max first.depth rest.depth + 1
  | _ => 0

/-- nothing is cut off -/
def IsWhole : Sketch → Prop
  | .cut => False
  | .pair first rest => first.IsWhole ∧ rest.IsWhole
  | _ => True

theorem depth_pair (first rest : Sketch) : (pair first rest).depth = max first.depth rest.depth + 1 := rfl

end Sketch

namespace Machine

variable {m : Machine}

/-! ## What is written of a value -/

/-- the text of a number, an immediate or a symbol -/
def leaf? (m : Machine) : Value → Option String
  | .symbol h =>
    match m.cell? h with
    | some (.symbol name) => some name
    | _ => none
  | v => Render.plain? v

/-- What is written of a value while the pairs `opened` are being printed: coming back to one of these it is cut off, and any other
pair is written out. -/
inductive Sketched (m : Machine) : List Handle → Value → Sketch → Prop where
  | nil {opened : List Handle} : Sketched m opened .nil .nil
  | leaf {opened : List Handle} {v : Value} {text : String} : v ≠ .nil → m.leaf? v = some text → Sketched m opened v (.leaf text)
  | cut {opened : List Handle} {h : Handle} {a d : Value} : m.cell? h = some (.cons a d) → h ∈ opened →
      Sketched m opened (.cons h) .cut
  | pair {opened : List Handle} {h : Handle} {a d : Value} {first rest : Sketch} : m.cell? h = some (.cons a d) → h ∉ opened →
      Sketched m (h :: opened) a first → Sketched m (h :: opened) d rest → Sketched m opened (.cons h) (.pair first rest)

/-- a value unfolds to a tree, down to its leaves -/
inductive Tree (m : Machine) : Value → Sketch → Prop where
  | nil : Tree m .nil .nil
  | leaf {v : Value} {text : String} : v ≠ .nil → m.leaf? v = some text → Tree m v (.leaf text)
  | pair {h : Handle} {a d : Value} {first rest : Sketch} : m.cell? h = some (.cons a d) → Tree m a first → Tree m d rest →
      Tree m (.cons h) (.pair first rest)

/-- a pair and what it holds -/
inductive HasField (m : Machine) : Value → Value → Prop where
  | first {h : Handle} {a d : Value} : m.cell? h = some (.cons a d) → HasField m (.cons h) a
  | rest {h : Handle} {a d : Value} : m.cell? h = some (.cons a d) → HasField m (.cons h) d

/-- from one value to the next, through any number of pairs -/
def Reaches (m : Machine) : Value → Value → Prop := Relation.ReflTransGen m.HasField

/-- pairs that end in numbers, immediates and symbols -/
def IsData (m : Machine) (v : Value) : Prop :=
  ∀ w, m.Reaches v w → (∃ h a d, w = .cons h ∧ m.cell? h = some (.cons a d)) ∨ (m.leaf? w).isSome

/-- no pair of a value leads back to itself -/
def Acyclic (m : Machine) (v : Value) : Prop := ∀ w, m.Reaches v w → ¬ Relation.TransGen m.HasField w w

theorem HasField.exists_pair {v w : Value} (h : m.HasField v w) :
    ∃ h a d, v = .cons h ∧ m.cell? h = some (.cons a d) ∧ (w = a ∨ w = d) := by
  cases h with
  | first hc => exact ⟨_, _, _, rfl, hc, .inl rfl⟩
  | rest hc => exact ⟨_, _, _, rfl, hc, .inr rfl⟩

theorem HasField.isData {v w : Value} (h : m.HasField v w) (hv : m.IsData v) : m.IsData w := fun u hu => hv u (.head h hu)

theorem HasField.acyclic {v w : Value} (h : m.HasField v w) (hv : m.Acyclic v) : m.Acyclic w := fun u hu => hv u (.head h hu)

/-! ## Trees -/

theorem Tree.of_cons {h : Handle} {s : Sketch} (hv : m.Tree (.cons h) s) : ∃ a d first rest,
    m.cell? h = some (.cons a d) ∧ m.Tree a first ∧ m.Tree d rest ∧ s = .pair first rest := by
  cases hv with
  | leaf _ htext => cases htext
  | pair hc ha hd => exact ⟨_, _, _, _, hc, ha, hd, rfl⟩

/-- a value unfolds to one tree -/
theorem Tree.unique {v : Value} {s s' : Sketch} (hv : m.Tree v s) (hv' : m.Tree v s') : s = s' := by
  induction hv generalizing s' with
  | nil =>
    cases hv' with
    | nil => rfl
    | leaf hne _ => exact absurd rfl hne
  | leaf hne htext =>
    cases hv' with
    | nil => exact absurd rfl hne
    | leaf _ htext' => rw [Option.some.inj (htext.symm.trans htext')]
    | pair => cases htext
  | pair hc _ _ iha ihd =>
    obtain ⟨a, d, first, rest, hc', ha, hd, rfl⟩ := hv'.of_cons
    obtain ⟨rfl, rfl⟩ : _ ∧ _ := by simpa using hc.symm.trans hc'
    rw [iha ha, ihd hd]

/-- what a pair holds unfolds to a smaller tree -/
theorem Tree.of_hasField {v w : Value} {s : Sketch} (hv : m.Tree v s) (h : m.HasField v w) : ∃ e, m.Tree w e ∧ e.depth < s.depth := by
  obtain ⟨h, a, d, rfl, hc, hw⟩ := h.exists_pair
  obtain ⟨a', d', first, rest, hc', ha, hd, rfl⟩ := hv.of_cons
  obtain ⟨rfl, rfl⟩ : _ ∧ _ := by simpa using hc.symm.trans hc'
  rw [Sketch.depth_pair]
  rcases hw with rfl | rfl
  · exact ⟨first, ha, by omega⟩
  · exact ⟨rest, hd, by omega⟩

theorem Tree.of_transGen {v w : Value} {s : Sketch} (hv : m.Tree v s) (h : Relation.TransGen m.HasField v w) :
    ∃ e, m.Tree w e ∧ e.depth < s.depth := by
  induction h with
  | single h => exact hv.of_hasField h
  | tail _ h ih =>
    obtain ⟨e, he, hlt⟩ := ih
    obtain ⟨e', he', hlt'⟩ := he.of_hasField h
    exact ⟨e', he', hlt'.trans hlt⟩

theorem Tree.acyclic {v : Value} {s : Sketch} (hv : m.Tree v s) : m.Acyclic v := by
  intro w hw hagain
  obtain ⟨e, he⟩ : ∃ e, m.Tree w e := by
    rcases Relation.reflTransGen_iff_eq_or_transGen.1 hw with rfl | hw
    · exact ⟨s, hv⟩
    · exact (hv.of_transGen hw).imp fun _ h => h.1
  obtain ⟨e', he', hlt⟩ := he.of_transGen hagain
  rw [he'.unique he] at hlt
  exact lt_irrefl _ hlt

/-- A value that unfolds to a tree unfolds to it inside whatever has a larger tree. -/
theorem Tree.sketched {v : Value} {s : Sketch} (hv : m.Tree v s) {opened : List Handle}
    (hopened : ∀ h ∈ opened, ∃ e, m.Tree (.cons h) e ∧ s.depth < e.depth) : m.Sketched opened v s := by
  induction hv generalizing opened with
  | nil => exact .nil
  | leaf hne htext => exact .leaf hne htext
  | @pair h a d first rest hc ha hd iha ihd =>
    have hpair : m.Tree (.cons h) (.pair first rest) := .pair hc ha hd
    have hinner : ∀ {e : Sketch}, e.depth < (Sketch.pair first rest).depth →
        ∀ g ∈ h :: opened, ∃ e', m.Tree (.cons g) e' ∧ e.depth < e'.depth := fun hlt =>
      List.forall_mem_cons.2 ⟨⟨_, hpair, hlt⟩, fun g hg => (hopened g hg).imp fun _ hg => ⟨hg.1, hlt.trans hg.2⟩⟩
    refine .pair hc (fun hmem => ?_) (iha (hinner ?_)) (ihd (hinner ?_))
    -- a pair inside itself would have a larger tree than its own
    · obtain ⟨e, he, hlt⟩ := hopened h hmem
      rw [he.unique hpair] at hlt
      exact lt_irrefl _ hlt
    all_goals
      rw [Sketch.depth_pair]
      omega

/-! ## The sketch of a value -/

theorem Sketched.unique {opened : List Handle} {v : Value} {s s' : Sketch} (hv : m.Sketched opened v s)
    (hv' : m.Sketched opened v s') : s = s' := by
  induction hv generalizing s' with
  | nil =>
    cases hv' with
    | nil => rfl
    | leaf hne _ => exact absurd rfl hne
  | leaf hne htext =>
    cases hv' with
    | nil => exact absurd rfl hne
    | leaf _ htext' => rw [Option.some.inj (htext.symm.trans htext')]
    | _ => cases htext
  | cut _ hin =>
    cases hv' with
    | leaf _ htext => cases htext
    | cut => rfl
    | pair _ hout => exact absurd hin hout
  | pair hc hout _ _ iha ihd =>
    cases hv' with
    | leaf _ htext => cases htext
    | cut _ hin => exact absurd hin hout
    | pair hc' _ ha hd =>
      obtain ⟨rfl, rfl⟩ : _ ∧ _ := by simpa using hc.symm.trans hc'
      rw [iha ha, ihd hd]

/-- pairs that are being printed: all different, and all in the table -/
structure Nest (m : Machine) (opened : List Handle) : Prop where
  nodup : opened.Nodup
  slots : ∀ h ∈ opened, h < m.heap.slots.size

theorem Nest.nil (m : Machine) : m.Nest [] := ⟨List.nodup_nil, nofun⟩

theorem Nest.cons {opened : List Handle} (hopened : m.Nest opened) {h : Handle} {c : Cell} (hc : m.cell? h = some c)
    (hout : h ∉ opened) : m.Nest (h :: opened) := by
  obtain ⟨slot, hslot, -⟩ := Heap.cell?_eq_some.1 hc
  exact ⟨List.nodup_cons.2 ⟨hout, hopened.nodup⟩, List.forall_mem_cons.2 ⟨Heap.slot?_lt hslot, hopened.slots⟩⟩

theorem Nest.length_le {opened : List Handle} (hopened : m.Nest opened) : opened.length ≤ m.heap.slots.size := by
  have hsub : opened ⊆ List.range m.heap.slots.size := fun h hmem => List.mem_range.2 (hopened.slots h hmem)
  simpa using (hopened.nodup.subperm hsub).length_le

/-- every value that ends in leaves unfolds: each pair on the way down takes one of the slots that are left -/
theorem IsData.exists_sketched {v : Value} (hv : m.IsData v) {opened : List Handle} (hopened : m.Nest opened) :
    ∃ s, m.Sketched opened v s := by
  rcases hv v .refl with ⟨h, a, d, rfl, hc⟩ | htext
  · by_cases hin : h ∈ opened
    · exact ⟨.cut, .cut hc hin⟩
    · have hinner := hopened.cons hc hin
      have hleft := hinner.length_le
      obtain ⟨first, ha⟩ := ((HasField.first hc).isData hv).exists_sketched hinner
      obtain ⟨rest, hd⟩ := ((HasField.rest hc).isData hv).exists_sketched hinner
      exact ⟨.pair first rest, .pair hc hin ha hd⟩
  · obtain ⟨text, htext⟩ := Option.isSome_iff_exists.1 htext
    by_cases hnil : v = .nil
    · exact ⟨.nil, hnil ▸ .nil⟩
    · exact ⟨.leaf text, .leaf hnil htext⟩
termination_by m.heap.slots.size - opened.length
decreasing_by all_goals (rw [List.length_cons] at hleft ⊢; omega)

/-- a sketch is no deeper than there are slots left for its pairs -/
theorem Sketched.depth_le {opened : List Handle} {v : Value} {s : Sketch} (hv : m.Sketched opened v s) (hopened : m.Nest opened) :
    s.depth + opened.length ≤ m.heap.slots.size := by
  induction hv with
  | pair hc hout _ _ iha ihd =>
    have hinner := hopened.cons hc hout
    have ha := iha hinner
    have hd := ihd hinner
    rw [List.length_cons] at ha hd
    rw [Sketch.depth_pair]
    omega
  | _ => simpa [Sketch.depth] using hopened.length_le

/-- no table has so many slots that a sketch would be too deep to be printed -/
theorem Sketched.depth_le_fuel (hsize : m.heap.slots.size ≤ 0x10000000) {v : Value} {s : Sketch} (hv : m.Sketched [] v s) :
    3 * s.depth + 2 ≤ Render.fuel := by
  have := hv.depth_le (Nest.nil m)
  unfold Render.fuel
  omega

theorem Sketched.tree {opened : List Handle} {v : Value} {s : Sketch} (hv : m.Sketched opened v s) (hs : s.IsWhole) : m.Tree v s := by
  induction hv with
  | nil => exact .nil
  | leaf hne htext => exact .leaf hne htext
  | cut => exact hs.elim
  | pair hc _ _ _ iha ihd => exact .pair hc (iha hs.1) (ihd hs.2)

/-- nothing is cut off from a value that leads back to none of the pairs it is inside of -/
theorem Sketched.isWhole {opened : List Handle} {v : Value} {s : Sketch} (hv : m.Sketched opened v s) (hacyclic : m.Acyclic v)
    (hopened : ∀ h ∈ opened, Relation.TransGen m.HasField (.cons h) v) : s.IsWhole := by
  induction hv with
  | nil | leaf => trivial
  | cut _ hin => exact hacyclic _ .refl (hopened _ hin)
  | pair hc _ _ _ iha ihd =>
    have hinner : ∀ {w : Value}, m.HasField (.cons _) w → ∀ g ∈ _ :: _, Relation.TransGen m.HasField (.cons g) w := fun h =>
      List.forall_mem_cons.2 ⟨.single h, fun g hg => (hopened g hg).tail h⟩
    exact ⟨iha ((HasField.first hc).acyclic hacyclic) (hinner (.first hc)), ihd ((HasField.rest hc).acyclic hacyclic) (hinner (.rest hc))⟩

theorem Sketched.isWhole_iff {v : Value} {s : Sketch} (hv : m.Sketched [] v s) : s.IsWhole ↔ m.Acyclic v :=
  ⟨fun hs => (hv.tree hs).acyclic, fun h => hv.isWhole h nofun⟩

/-! ## Printing -/

theorem run_start_leaf (around : List Value) {v : Value} {text : String} (hv : m.leaf? v = some text) :
    (Render.start around v).run m = .ok (.inl text) m := by
  unfold leaf? at hv
  split at hv
  · rename_i h
    split at hv
    · rename_i name hc
      cases hv
      simp [Render.start, Render.plain?, Value.handle?, Act.run_bind, hc, Render.startObject]
    · cases hv
  · unfold Render.start
    rw [hv]
    rfl

theorem run_element_leaf (n : Nat) (around : List Value) (opened : List Handle) {v : Value} {text : String}
    (hv : m.leaf? v = some text) (acc : List String) :
    (Render.run (n + 2) (.element around opened v) acc).run m = .ok (text :: acc) m := by
  have hvalue : (Render.run (n + 1) (.value around v) acc).run m = .ok (text :: acc) m := by
    rw [Render.run, Act.bind_ok (run_start_leaf around hv)]
    rfl
  cases v with
  | cons h => cases hv
  | _ => exact hvalue

/-- How a value is printed among the elements of a list, and how a pair is printed once its parenthesis is. -/
structure Written (m : Machine) (around : List Value) (opened : List Handle) (v : Value) (s : Sketch) : Prop where
  element : ∀ {n : Nat} (acc : List String), 3 * s.depth + 2 ≤ n →
    (Render.run n (.element around opened v) acc).run m = .ok (s.pieces.reverse ++ acc) m
  chain : ∀ {n : Nat} {h : Handle} {first rest : Sketch} (acc : List String), v = .cons h → s = .pair first rest → 3 * s.depth ≤ n →
    (Render.run n (.chain around opened h) acc).run m = .ok ((first.pieces ++ rest.tailPieces).reverse ++ acc) m

theorem Written.leaf {around : List Value} {opened : List Handle} {v : Value} {s : Sketch} {text : String} (hv : m.leaf? v = some text)
    (hs : s.pieces = [text]) : m.Written around opened v s where
  element {n} acc hn := by
    obtain ⟨n, rfl⟩ := Nat.exists_eq_add_of_le' (Nat.le_of_add_left_le hn)
    rw [run_element_leaf n around opened hv, hs]
    rfl
  chain acc heq _ _ := by
    rw [heq] at hv
    cases hv

/-- a pair that is not being printed is written as what it holds is written -/
theorem Written.pair {around : List Value} {opened : List Handle} {h : Handle} {a d : Value} {first rest : Sketch}
    (hc : m.cell? h = some (.cons a d)) (hout : h ∉ opened) (hrest : m.Sketched (h :: opened) d rest)
    (ha : m.Written around (h :: opened) a first) (hd : m.Written around (h :: opened) d rest) :
    m.Written around opened (.cons h) (.pair first rest) := by
  have hdepth := Sketch.depth_pair first rest
  have hchain : ∀ {n : Nat} (acc : List String), 3 * (Sketch.pair first rest).depth ≤ n →
      (Render.run n (.chain around opened h) acc).run m = .ok ((first.pieces ++ rest.tailPieces).reverse ++ acc) m := by
    intro n acc hn
    obtain ⟨n, rfl⟩ : ∃ k, n = k + 1 := ⟨n - 1, by omega⟩
    have hfirst := ha.element acc (n := n) (by omega)
    have hdotted := hd.element (" . " :: (first.pieces.reverse ++ acc)) (n := n) (by omega)
    simp only [Render.run, Act.run_bind, Act.run_get, hc, hfirst]
    -- how the list goes on depends on what the rest is: its end, another pair, or one that is still being printed
    cases hrest with
    | nil => simp [Sketch.tailPieces]
    | @leaf _ _ text hne htext =>
      split
      · exact absurd rfl hne
      · cases htext
      · simp [Act.run_bind, hdotted, Sketch.pieces, Sketch.tailPieces]
    | cut hc' hin =>
      simp only [Act.run_bind, Act.run_get, hc', List.contains_iff_mem.2 hin, if_true]
      simp [Sketch.tailPieces]
    | @pair _ next _ _ second rest hc' hout' _ _ =>
      have hnext := hd.chain (" " :: (first.pieces.reverse ++ acc)) rfl rfl (n := n) (by omega)
      have hopen : (h :: opened).contains next = false := Bool.eq_false_iff.2 (hout' ∘ List.contains_iff_mem.1)
      simp only [Act.run_bind, Act.run_get, hc', hopen, Bool.false_eq_true, if_false, hnext]
      simp [Sketch.tailPieces]
  refine ⟨fun {n} acc hn => ?_, fun {n h' first' rest'} acc hv hs hn => ?_⟩
  · obtain ⟨n, rfl⟩ : ∃ k, n = k + 2 := ⟨n - 2, by omega⟩
    have hopen : opened.contains h = false := Bool.eq_false_iff.2 (hout ∘ List.contains_iff_mem.1)
    simp only [Render.run, Act.run_bind, Act.run_get, hc, hopen, Bool.false_eq_true, if_false, hchain ("(" :: acc) (n := n) (by omega)]
    simp [Sketch.pieces]
  · cases hv
    cases hs
    exact hchain acc hn

/-- a value is written as its sketch, inside the pairs that are being printed -/
theorem Sketched.written {opened : List Handle} {v : Value} {s : Sketch} (hv : m.Sketched opened v s) (around : List Value) :
    m.Written around opened v s := by
  induction hv with
  | nil => exact .leaf rfl rfl
  | leaf _ htext => exact .leaf htext rfl
  | @cut opened h a d hc hin =>
    refine ⟨fun {n} acc hn => ?_, nofun⟩
    obtain ⟨n, rfl⟩ := Nat.exists_eq_add_of_le' (Nat.le_of_add_left_le hn)
    simp only [Render.run, Act.run_bind, Act.run_get, hc, List.contains_iff_mem.2 hin, if_true]
    rfl
  | pair hc hout _ hd iha ihd => exact .pair hc hout hd iha ihd

/-- a value that is no deeper than the printer can go prints as its sketch and changes nothing -/
theorem Sketched.run_print {v : Value} {s : Sketch} (hv : m.Sketched [] v s) (hdepth : 3 * s.depth + 2 ≤ Render.fuel) :
    (Act.print v).run m = .ok s.text m := by
  obtain ⟨n, hfuel⟩ : ∃ n, Render.fuel = n + 2 := ⟨_, rfl⟩
  have hrun : (Render.run Render.fuel (.value [] v) []).run m = .ok s.pieces.reverse m := by
    rw [hfuel] at hdepth ⊢
    have hleaf {text : String} (htext : m.leaf? v = some text) :
        (Render.run (n + 2) (.value [] v) []).run m = .ok [text] m := by
      rw [Render.run, Act.bind_ok (run_start_leaf [] htext)]
      rfl
    cases hv with
    | nil => exact hleaf rfl
    | leaf _ htext => exact hleaf htext
    | cut _ hin => cases hin
    | pair hc hout ha hd =>
      have hchain := (Sketched.pair hc hout ha hd).written [] |>.chain ["("] rfl rfl (n := n) (by omega)
      simp only [Render.run, Render.start, Render.plain?, Value.handle?, Act.run_bind, Act.run_get, hc, Render.startObject,
        Act.run_pure, List.contains_nil, Bool.false_eq_true, if_false, hchain]
      simp [Sketch.pieces]
  rw [Act.print, Act.printJob_eq, Act.bind_ok hrun, List.reverse_reverse]
  rfl

/-- **Sharing cannot be seen in a text, and only a pair inside itself is cut off.** A value whose pairs end in numbers, immediates
and symbols unfolds to one sketch: a pair inside itself is cut off, and every other one is written out, wherever else it is held. The
printed text is the text of the sketch, and printing changes nothing. Something is cut off exactly if a pair leads back to itself.
If none does, the sketch is the tree that the value unfolds to, and whatever unfolds to the same tree prints the same, a copy that
shares nothing among them. No table has more slots than there are handles. -/
theorem print_unfolds (hsize : m.heap.slots.size ≤ 0x10000000) {v : Value} (hv : m.IsData v) : ∃ s,
    (∀ s', m.Sketched [] v s' ↔ s' = s) ∧ (Act.print v).run m = .ok s.text m ∧ (s.IsWhole ↔ m.Acyclic v) ∧
      (m.Acyclic v → m.Tree v s ∧
        ∀ (m' : Machine) (v' : Value), m'.Tree v' s → (Act.print v').run m' = .ok s.text m') := by
  obtain ⟨s, hs⟩ := hv.exists_sketched (Nest.nil m)
  have hdepth := hs.depth_le_fuel hsize
  refine ⟨s, fun s' => ⟨fun hs' => hs'.unique hs, fun heq => heq ▸ hs⟩, hs.run_print hdepth, hs.isWhole_iff, fun hacyclic => ?_⟩
  refine ⟨hs.tree (hs.isWhole_iff.2 hacyclic), fun m' v' hv' => ?_⟩
  have hs' : m'.Sketched [] v' s := hv'.sketched nofun
  exact hs'.run_print hdepth

/-- a pair that holds another one twice, and a pair in front of it whose rest is itself -/
def knotted : Machine := Outcome.machine ((do
  let inner ← Act.allocate (.cons (.int 1) .nil)
  let shared ← Act.allocate (.cons (.cons inner) (.cons inner))
  let knot ← Act.allocate (.cons (.cons shared) .nil)
  Act.store (.cdr knot) (.cons knot) : Act Unit).run initial)

theorem print_unfolds_knotted : knotted.heap.slots.size ≤ 0x10000000 ∧
    (knotted.IsData (.cons 3) ∧ (Act.print (.cons 3)).run knotted = .ok "((1) 1)" knotted) ∧
    (knotted.IsData (.cons 4) ∧ (Act.print (.cons 4)).run knotted = .ok "(((1) 1) ...)" knotted) := by
  have hsize : knotted.heap.slots.size ≤ 0x10000000 := by decide
  have hinner : knotted.cell? 2 = some (.cons (.int 1) .nil) := by decide
  have hshared : knotted.cell? 3 = some (.cons (.cons 2) (.cons 2)) := by decide
  have hknot : knotted.cell? 4 = some (.cons (.cons 3) (.cons 4)) := by decide
  have hdata : ∀ v ∈ [.cons 3, .cons 4], knotted.IsData v := by
    intro v hv w hw
    have hmem : w ∈ [.cons 3, .cons 4, .cons 2, .int 1, .nil] := by
      induction hw with
      | refl => exact List.mem_append_left _ hv
      | tail _ h ih =>
        cases h with
        | first hc | rest hc =>
          simp only [List.mem_cons, List.not_mem_nil, Value.cons.injEq, reduceCtorEq, or_false] at ih
          rcases ih with rfl | rfl | rfl
          · cases hshared.symm.trans hc; decide
          · cases hknot.symm.trans hc; decide
          · cases hinner.symm.trans hc; decide
    simp only [List.mem_cons, List.not_mem_nil, or_false] at hmem
    rcases hmem with rfl | rfl | rfl | rfl | rfl
    · exact .inl ⟨_, _, _, rfl, hshared⟩
    · exact .inl ⟨_, _, _, rfl, hknot⟩
    · exact .inl ⟨_, _, _, rfl, hinner⟩
    · exact .inr rfl
    · exact .inr rfl
  have hsketched2 {opened : List Handle} (hout : 2 ∉ opened) : knotted.Sketched opened (.cons 2) (.pair (.leaf "1") .nil) :=
    .pair hinner hout (.leaf nofun rfl) .nil
  have hsketched3 {opened : List Handle} (hout : 3 ∉ opened) (hout' : 2 ∉ opened) : knotted.Sketched opened (.cons 3)
      (.pair (.pair (.leaf "1") .nil) (.pair (.leaf "1") .nil)) :=
    .pair hshared hout (hsketched2 (by simpa using hout')) (hsketched2 (by simpa using hout'))
  have hsketched4 : knotted.Sketched [] (.cons 4) (.pair (.pair (.pair (.leaf "1") .nil) (.pair (.leaf "1") .nil)) .cut) :=
    .pair hknot (by simp) (hsketched3 (by decide) (by decide)) (.cut hknot (by simp))
  have hshared' := hdata (.cons 3) (by simp)
  have hknot' := hdata (.cons 4) (by simp)
  refine ⟨hsize, ⟨hshared', ?_⟩, hknot', ?_⟩
  · obtain ⟨s, hs, hprint, -⟩ := print_unfolds hsize hshared'
    rw [← (hs _).1 (hsketched3 (by simp) (by simp))] at hprint
    exact hprint
  · obtain ⟨s, hs, hprint, -⟩ := print_unfolds hsize hknot'
    rw [← (hs _).1 hsketched4] at hprint
    exact hprint

end Machine

end LispMachine
