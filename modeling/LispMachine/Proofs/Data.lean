/-
Forms on the heap.

Putting a form on the heap makes a value that unfolds to the tree of the form: `Machine.Holds` says so of a value, through the
pairs of the heap and the table of symbols. While forms are put there nothing that was there is touched, and a form takes no
more handles than three for each of its tokens (`Act.Builds`), so only a heap with less room refuses one.

`Machine.readAll_decides`: what reading a whole text gives is what its tokens say: the trees of its forms up to its end, or up
to a beginning that offends, with the failure of that one.
-/
import LispMachine.Machine.Read
import LispMachine.Proofs.Bookkeeping
import LispMachine.Proofs.Grammar
import LispMachine.Proofs.Reached
import LispMachine.Proofs.Runes

namespace LispMachine

open Source

/-! ## Trees -/

/-- what a value unfolds to: pairs down to atoms -/
inductive Datum where
  | atom (a : Atom)
  | pair (first rest : Datum)
deriving DecidableEq

/-- the tree of a list -/
def Datum.list (items : List Datum) : Datum := items.foldr .pair (.atom .nil)

namespace Source

mutual

/-- the tree of a form; a quoted form is the list of `quote` and the form -/
def Form.datum : Form → Datum
  | .atom text => .atom (Atom.ofText text)
  | .list items => .list (Form.data items)
  | .quoted form => .list [.atom (.symbol "quote"), form.datum]

/-- the trees of forms -/
def Form.data : List Form → List Datum
  | [] => []
  | form :: forms => form.datum :: Form.data forms

end

mutual

/-- the most objects that a form is made of -/
def Form.objects : Form → Nat
  | .atom _ => 1
  | .list items => Form.allObjects items + items.length
  | .quoted form => form.objects + 3

/-- the most objects that forms are made of -/
def Form.allObjects : List Form → Nat
  | [] => 0
  | form :: forms => form.objects + Form.allObjects forms

end

mutual

theorem Form.objects_le : (f : Form) → f.objects + 2 ≤ 3 * f.tokens.length
  | .atom _ => le_rfl
  | .list items => by
    have h := Form.allObjects_le items
    simp only [Form.objects, Form.tokens, List.length_cons, List.length_append, List.length_nil]
    omega
  | .quoted form => by
    have h := form.objects_le
    simp only [Form.objects, Form.tokens, List.length_cons]
    omega

theorem Form.allObjects_le : (fs : List Form) → Form.allObjects fs + 2 * fs.length ≤ 3 * (Form.allTokens fs).length
  | [] => le_rfl
  | f :: fs => by
    have hf := f.objects_le
    have hfs := Form.allObjects_le fs
    simp only [Form.allObjects, Form.allTokens, List.length_cons, List.length_append]
    omega

end

theorem Form.length_data (fs : List Form) : (Form.data fs).length = fs.length := by
  induction fs with
  | nil => rfl
  | cons f fs ih => simp [Form.data, ih]

end Source

namespace Machine

/-- a value unfolds to a tree -/
inductive Holds (m : Machine) : Value → Datum → Prop where
  | t : Holds m .t (.atom .t)
  | nil : Holds m .nil (.atom .nil)
  | number (n : Number) : Holds m (.ofNumber n) (.atom (.number n))
  | symbol {name : String} {h : Handle} : m.symbols.lookup name = some h → Holds m (.symbol h) (.atom (.symbol name))
  | pair {h : Handle} {a d : Value} {first rest : Datum} : m.cell? h = some (.cons a d) → Holds m a first →
      Holds m d rest → Holds m (.cons h) (.pair first rest)

/-! ## Machines that grow -/

/-- nothing that was there is touched, and at most `n` objects are new -/
structure Enlarged (n : Nat) (m m' : Machine) : Prop where
  order : m'.heap.InOrder
  cells : ∀ h c, m.cell? h = some c → m'.cell? h = some c
  symbols : ∀ name h, m.symbols.lookup name = some h → m'.symbols.lookup name = some h
  limit : m'.heap.limit = m.heap.limit
  room : m.heap.room ≤ m'.heap.room + n

variable {n k : Nat} {m m' m'' : Machine}

theorem Enlarged.refl (hm : m.heap.InOrder) : m.Enlarged 0 m := ⟨hm, fun _ _ h => h, fun _ _ h => h, rfl, le_rfl⟩

theorem Enlarged.trans (h₁ : m.Enlarged n m') (h₂ : m'.Enlarged k m'') : m.Enlarged (n + k) m'' where
  order := h₂.order
  cells h c hc := h₂.cells h c (h₁.cells h c hc)
  symbols name h hs := h₂.symbols name h (h₁.symbols name h hs)
  limit := h₂.limit.trans h₁.limit
  room := by
    have := h₁.room
    have := h₂.room
    omega

theorem Enlarged.mono (h : m.Enlarged n m') (hn : n ≤ k) : m.Enlarged k m' :=
  { h with room := h.room.trans (Nat.add_le_add_left hn _) }

theorem Holds.enlarged {v : Value} {d : Datum} (h : m.Holds v d) (hm : m.Enlarged n m') : m'.Holds v d := by
  induction h with
  | t => exact .t
  | nil => exact .nil
  | number n => exact .number n
  | symbol hs => exact .symbol (hm.symbols _ _ hs)
  | pair hc _ _ iha ihd => exact .pair (hm.cells _ _ hc) iha ihd

theorem Holds.all_enlarged {vs : List Value} {ds : List Datum} (h : List.Forall₂ m.Holds vs ds) (hm : m.Enlarged n m') :
    List.Forall₂ m'.Holds vs ds := h.imp fun _ _ h => h.enlarged hm

end Machine

/-- there are fewer than `n` handles left -/
def Heap.Lacks (hp : Heap) (n : Nat) : Prop := ∃ limit, hp.limit = some limit ∧ hp.room < n

theorem Heap.room_insert (hp : Heap) (c : Cell) (epoch : Nat) (text : Bool) :
    hp.room ≤ (hp.insert c epoch text).room + 1 := by
  unfold room
  rw [insert_free, insert_limit, insert_size]
  cases hf : hp.free with
  | nil => simp only [List.tail_nil, List.length_nil, if_true]; omega
  | cons t free => simp only [List.tail_cons, List.length_cons, reduceCtorEq, if_false]; omega

theorem Heap.lacks_of_isFull {hp : Heap} (h : hp.isFull = true) : hp.Lacks 1 := by
  obtain ⟨hfree, limit, hlimit, hle⟩ := (isFull_iff hp).1 h
  refine ⟨limit, hlimit, ?_⟩
  rw [room, hfree, hlimit, Option.getD_some, List.length_nil]
  omega

theorem Heap.Lacks.mono {hp : Heap} {n k : Nat} (h : hp.Lacks n) (hn : n ≤ k) : hp.Lacks k :=
  have ⟨limit, hlimit, hroom⟩ := h
  ⟨limit, hlimit, hroom.trans_le hn⟩

theorem Machine.Enlarged.lacks {n k : Nat} {m m' : Machine} (h : m.Enlarged n m') (hlacks : m'.heap.Lacks k) :
    m.heap.Lacks (n + k) := by
  obtain ⟨limit, hlimit, hroom⟩ := hlacks
  have := h.room
  exact ⟨limit, h.limit ▸ hlimit, by omega⟩

/-! ## Building -/

namespace Act

variable {α β : Type} {n k : Nat} {m : Machine} {th : ThreadId}

/-- an action that makes at most `n` objects and touches nothing that is there, unless the heap lacks room for them -/
def Builds (n : Nat) (m : Machine) (x : Act α) (Q : α → Machine → Prop) : Prop :=
  x.Ends m (fun a m' => m.Enlarged n m' ∧ Q a m') fun e _ => e = .fault .exhausted ∧ m.heap.Lacks n

namespace Builds

variable {x : Act α} {f : α → Act β} {P : α → Machine → Prop} {Q : β → Machine → Prop}

theorem pure (hm : m.heap.InOrder) {a : α} (ha : P a m) : Builds 0 m (pure a) P := ⟨.refl hm, ha⟩

theorem bind (hx : Builds n m x P) (hf : ∀ a m', m.Enlarged n m' → P a m' → Builds k m' (f a) Q) :
    Builds (n + k) m (x >>= f) Q := by
  refine Ends.bind (hx.mono (fun _ _ h => h) fun e _ h => ⟨h.1, h.2.mono (Nat.le_add_right n k)⟩) ?_
  rintro a m' ⟨hm, ha⟩
  exact (hf a m' hm ha).mono (fun _ _ h => ⟨hm.trans h.1, h.2⟩) fun _ _ h => ⟨h.1, hm.lacks h.2⟩

theorem mono {Q : α → Machine → Prop} (hx : Builds n m x P) (hn : n ≤ k) (hQ : ∀ a m', P a m' → Q a m') : Builds k m x Q :=
  Ends.mono hx (fun a m' h => ⟨h.1.mono hn, hQ a m' h.2⟩) fun _ _ h => ⟨h.1, h.2.mono hn⟩

theorem map (hx : Builds n m x P) {g : α → β} (hg : ∀ a m', m.Enlarged n m' → P a m' → Q (g a) m') :
    Builds n m (do return g (← x)) Q :=
  hx.bind fun a m' hm ha => .pure hm.order (hg a m' hm ha)

end Builds

theorem builds_allocate (hm : m.heap.InOrder) (cell : Cell) (text : Bool) :
    Builds 1 m (allocate cell text) fun h m' => m'.cell? h = some cell := by
  unfold Builds Ends
  rw [Machine.run_allocate]
  cases hfull : m.heap.isFull with
  | true => exact ⟨rfl, Heap.lacks_of_isFull hfull⟩
  | false =>
    have hslot := hm.slot?_insert cell m.collector.epoch text
    refine ⟨⟨hm.insert .., fun h c hc => ?_, fun _ _ h => h, Heap.insert_limit .., Heap.room_insert ..⟩, ?_⟩
    · obtain ⟨s, hs, rfl⟩ := Heap.cell?_eq_some.1 hc
      refine Heap.cell?_of_slot? ((hslot h).trans ?_)
      rw [if_neg, hs]
      rintro rfl
      rw [hm.slot?_nextHandle] at hs
      cases hs
    · exact Heap.cell?_of_slot? ((hslot _).trans (if_pos rfl))

/-- a change of threads is no change of the heap -/
theorem builds_pin (hm : m.heap.InOrder) (v : Value) : Builds 0 m (pin th v) fun _ _ => True := by
  unfold pin
  split
  · exact ⟨⟨hm, fun _ _ h => h, fun _ _ h => h, rfl, le_rfl⟩, trivial⟩
  · exact .pure hm trivial

theorem builds_newPair (hm : m.heap.InOrder) (text : Bool) {a d : Value} {first rest : Datum} (ha : m.Holds a first)
    (hd : m.Holds d rest) : Builds 1 m (newPair th text a d) fun v m' => m'.Holds v (.pair first rest) := by
  refine (builds_allocate hm _ text).bind (k := 0) fun h m₁ hm₁ hc => ?_
  refine (builds_pin hm₁.order (.cons h)).map fun _ m₂ hm₂ _ => ?_
  exact .pair (hm₂.cells h _ hc) ((ha.enlarged hm₁).enlarged hm₂) ((hd.enlarged hm₁).enlarged hm₂)

theorem builds_intern (hm : m.heap.InOrder) (name : String) :
    Builds 1 m (intern name) fun h m' => m'.symbols.lookup name = some h := by
  cases hs : m.symbols.lookup name with
  | some h =>
    unfold Builds Ends
    rw [Machine.run_intern_known hs]
    exact ⟨(Machine.Enlarged.refl hm).mono (Nat.zero_le 1), hs⟩
  | none =>
    have hmade := builds_allocate hm (.symbol name) false
    unfold Builds Ends at hmade ⊢
    rw [Machine.run_allocate] at hmade
    rw [Machine.run_intern_new hs]
    cases hfull : m.heap.isFull with
    | true => exact ⟨rfl, Heap.lacks_of_isFull hfull⟩
    | false =>
      rw [hfull] at hmade
      obtain ⟨hm', -⟩ := hmade
      refine ⟨{ hm' with symbols := fun name' h hs' => ?_ }, by simp⟩
      have hne : name' ≠ name := by
        rintro rfl
        rw [hs] at hs'
        cases hs'
      have hbeq : (name' == name) = false := by simpa using hne
      rw [List.lookup_cons, hbeq]
      exact hs'

theorem builds_symbol (hm : m.heap.InOrder) (name : String) :
    Builds 1 m (symbol name) fun v m' => m'.Holds v (.atom (.symbol name)) :=
  (builds_intern hm name).map fun _ _ _ hs => .symbol hs

/-- items that are given from last to first go in front -/
theorem builds_consAll (text : Bool) {vs : List Value} {ds : List Datum} {m : Machine} (hm : m.heap.InOrder)
    (hvs : List.Forall₂ m.Holds vs ds) {tail : Value} {rest : Datum} (htail : m.Holds tail rest) :
    Builds vs.length m (consAll th text vs tail) fun v m' => m'.Holds v (ds.foldl (fun rest d => .pair d rest) rest) := by
  induction vs generalizing ds m tail rest with
  | nil =>
    cases hvs
    exact .pure hm htail
  | cons v vs ih =>
    obtain _ | ⟨hv, hvs⟩ := hvs
    rw [List.length_cons, Nat.add_comm]
    refine (builds_newPair hm text hv htail).bind fun p m' hm' hp => ?_
    exact ih hm'.order (Machine.Holds.all_enlarged hvs hm') hp

theorem builds_newListOf (text : Bool) (hm : m.heap.InOrder) {vs : List Value} {ds : List Datum}
    (hvs : List.Forall₂ m.Holds vs ds) : Builds vs.length m (newListOf th text vs) fun v m' => m'.Holds v (.list ds) := by
  have h := @builds_consAll th text _ _ _ hm (List.rel_reverse hvs) _ _ .nil
  rw [List.length_reverse, List.foldl_reverse] at h
  exact h

theorem builds_atomValue (hm : m.heap.InOrder) (a : Atom) : Builds 1 m (atomValue a) fun v m' => m'.Holds v (.atom a) := by
  have hm' := (Machine.Enlarged.refl hm).mono (Nat.zero_le 1)
  cases a with
  | t => exact ⟨hm', .t⟩
  | nil => exact ⟨hm', .nil⟩
  | number n => exact ⟨hm', .number n⟩
  | symbol name => exact builds_symbol hm name

mutual

/-- a form is put on the heap as its tree -/
theorem builds_form : (f : Form) → {m : Machine} → m.heap.InOrder →
    Builds f.objects m (buildForm th f) fun v m' => m'.Holds v f.datum
  | .atom text, _, hm => builds_atomValue hm _
  | .list items, m, hm => by
    rw [Form.objects, buildForm]
    refine (builds_forms items hm).bind fun vs m' hm' hvs => ?_
    have hlen : vs.length = items.length := hvs.length_eq.trans (Form.length_data items)
    exact hlen ▸ builds_newListOf true hm'.order hvs
  | .quoted f, m, hm => by
    rw [Form.objects, buildForm]
    refine (builds_form f hm).bind fun v m₁ hm₁ hv => ?_
    refine (builds_symbol hm₁.order "quote").bind (k := 2) fun q m₂ hm₂ hq => ?_
    have hitems : List.Forall₂ m₂.Holds [q, v] _ := .cons hq (.cons (hv.enlarged hm₂) .nil)
    exact builds_newListOf true hm₂.order hitems

/-- and forms as theirs -/
theorem builds_forms : (fs : List Form) → {m : Machine} → m.heap.InOrder →
    Builds (Form.allObjects fs) m (buildForms th fs) fun vs m' => List.Forall₂ m'.Holds vs (Form.data fs)
  | [], _, hm => .pure hm .nil
  | f :: fs, m, hm => by
    rw [Form.allObjects, buildForms]
    refine (builds_form f hm).bind fun v m₁ hm₁ hv => ?_
    exact (builds_forms fs hm₁.order).map fun vs m₂ hm₂ hvs => .cons (hv.enlarged hm₂) hvs

end

/-- what one reading after the other puts there is what the readings come to, after what is there already -/
theorem builds_readAllFrom (c : Cursor) {m : Machine} (hm : m.heap.InOrder) {before : List Value} {ds : List Datum}
    (hbefore : List.Forall₂ m.Holds before.reverse ds) :
    Builds (3 * (tokens c.chars).length) m (readAllFrom th c before) fun r m' =>
      List.Forall₂ m'.Holds r.1 (ds ++ Form.data c.forms.1) ∧ ∃ at_, r.2 = c.forms.2.map (misreadCause · at_) := by
  induction hn : c.rest.length using Nat.strongRecOn generalizing c m before ds with
  | ind n ih =>
    have hfits := c.read_fits
    rw [readAllFrom]
    split
    · rename_i after h
      rw [h] at hfits
      rw [Cursor.forms_finished h, hfits, Form.data, List.append_nil]
      exact .pure hm ⟨hbefore, {}, rfl⟩
    · rename_i cause begun after h
      rw [h] at hfits
      rw [Cursor.forms_failed h, Form.data, List.append_nil]
      have hobjects := Form.allObjects_le begun
      have hlen := hfits.2
      refine ((builds_forms begun hm).map fun _ m' hm' _ => ?_).mono (by omega) fun _ _ h => h
      exact ⟨Machine.Holds.all_enlarged hbefore hm', after.pos, rfl⟩
    · rename_i f after h
      rw [h] at hfits
      have hobjects := f.objects_le
      rw [Cursor.forms_form h, hfits, List.length_append, Nat.mul_add]
      refine (((builds_form f hm).mono (by omega) fun _ _ h => h).bind fun v m' hm' hv => ?_)
      have hnext : List.Forall₂ m'.Holds (v :: before).reverse (ds ++ [f.datum]) := by
        rw [List.reverse_cons]
        exact List.rel_append (Machine.Holds.all_enlarged hbefore hm') (.cons hv .nil)
      have hrest := ih _ (hn ▸ Cursor.read_form_length h) after hm'.order hnext rfl
      rw [List.append_assoc] at hrest
      exact hrest

end Act

/-- Reading all of a text puts the trees of its forms on the heap, in their order, and nothing else ends it but a heap that is
full. The bytes spell one sequence of runes, and its tokens say one thing: forms up to the end, or forms up to a beginning
that offends. -/
theorem Machine.readAll_decides {m : Machine} (hm : m.heap.InOrder) (th : ThreadId) (bytes : List UInt8) :
    (∃! rs, Text.Rune.Decodes bytes rs) ∧ ∀ rs, Text.Rune.Decodes bytes rs →
      (∃! said : List Form × Option Misread, Parses (tokens (rs.map Text.Rune.toChar)) said.1 said.2) ∧
      ∀ forms failure, Parses (tokens (rs.map Text.Rune.toChar)) forms failure →
        (Act.readAll th (Cursor.ofBytes bytes)).Ends m
          (fun r m' => List.Forall₂ m'.Holds r.1 (Form.data forms) ∧ ∃ at_, r.2 = failure.map (Act.misreadCause · at_))
          fun e _ => e = .fault .exhausted ∧ m.heap.Lacks (3 * (tokens (rs.map Text.Rune.toChar)).length) := by
  refine ⟨⟨_, Text.Rune.decodes_decode bytes, fun rs hrs => (Text.Rune.decodes_iff.1 hrs).symm⟩, fun rs hrs => ?_⟩
  have hchars : rs.map Text.Rune.toChar = (Cursor.ofBytes bytes).chars := by rw [← Text.Rune.decodes_iff.1 hrs]; rfl
  rw [hchars]
  refine ⟨⟨(Cursor.ofBytes bytes).forms, Cursor.parses_iff.2 rfl, fun said hsaid => (Cursor.parses_iff.1 hsaid).symm⟩, ?_⟩
  intro forms failure h
  have hread : Act.Builds _ m (Act.readAllFrom th (Cursor.ofBytes bytes) []) _ := Act.builds_readAllFrom _ hm .nil
  rw [Cursor.parses_iff.1 h] at hread
  exact Act.Ends.mono hread (fun _ _ h => h.2) fun _ _ h => h

/-- the text `(a '1) (b '` ends after a quote inside a list; the form before that list is read, and room there is -/
theorem Machine.readAll_decides_opened : opened.heap.InOrder ∧
    (Act.readAll 0 (Cursor.ofBytes [40, 97, 32, 39, 49, 41, 32, 40, 98, 32, 39])).Ends opened
      (fun r m' => List.Forall₂ m'.Holds r.1 (Form.data [.list [.atom "a", .quoted (.atom "1")]]) ∧
        ∃ at_, r.2 = some (Act.misreadCause .danglingQuote at_))
      fun _ _ => False := by
  have horder : opened.heap.InOrder := settled_opened.idle.heap.order
  have htokens : tokens ((Text.Rune.decode [40, 97, 32, 39, 49, 41, 32, 40, 98, 32, 39]).map Text.Rune.toChar) =
      Form.allTokens [.list [.atom "a", .quoted (.atom "1")]] ++ .openParen :: (Form.allTokens [.atom "b"] ++ [.quote]) := by
    cbv
  have hparses := Parses.broken [.list [.atom "a", .quoted (.atom "1")]]
    (.inside [.atom "b"] .danglingQuote (by decide))
  rw [← htokens] at hparses
  have hread := ((readAll_decides horder 0 _).2 _ (Text.Rune.decodes_decode _)).2 _ _ hparses
  refine ⟨horder, hread.mono (fun _ _ h => h) ?_⟩
  rintro e m' ⟨-, limit, hlimit, hlacks⟩
  rw [htokens] at hlacks
  exact absurd hlacks (by decide)

end LispMachine
