/-
The text of a tree.

A value that unfolds to a tree prints as the text of the tree, whatever pairs it shares, and printing it changes nothing
(`Machine.Interned.run_print`): nothing is cut off from the sketch of such a value.
-/
import LispMachine.Proofs.Data
import LispMachine.Proofs.Interning
import LispMachine.Proofs.Sharing

namespace LispMachine

open Source

/-! ## Texts -/

/-- the text of an atom -/
def Source.Atom.text : Atom → String
  | .t => "t"
  | .nil => "nil"
  | .number (.int n) => toString n.toInt
  | .number (.float x) => Decimal.text x
  | .symbol name => name

namespace Datum

mutual

/-- the text of a tree, in pieces -/
def pieces : Datum → List String
  | .atom a => [a.text]
  | .pair first rest => "(" :: (first.pieces ++ rest.tailPieces)

/-- the text of the rest of a list up to its closing parenthesis -/
def tailPieces : Datum → List String
  | .atom .nil => [")"]
  | .atom a => [" . ", a.text, ")"]
  | .pair first rest => " " :: (first.pieces ++ rest.tailPieces)

end

def text (d : Datum) : String := String.join d.pieces

/-- the sketch of a tree, in which nothing is cut off -/
def sketch : Datum → Sketch
  | .atom .nil => .nil
  | .atom a => .leaf a.text
  | .pair first rest => .pair first.sketch rest.sketch

theorem pieces_sketch (d : Datum) : d.sketch.pieces = d.pieces ∧ d.sketch.tailPieces = d.tailPieces := by
  induction d with
  | atom a => cases a <;> exact ⟨rfl, rfl⟩
  | pair first rest ihf ihr => simp [sketch, Sketch.pieces, Sketch.tailPieces, pieces, tailPieces, ihf.1, ihr.2]

theorem text_sketch (d : Datum) : d.sketch.text = d.text := by rw [Sketch.text, d.pieces_sketch.1, text]

end Datum

namespace Machine

variable {m : Machine}

/-! ## Trees of values -/

/-- only a pair unfolds to a pair -/
theorem Holds.of_cons {h : Handle} {d : Datum} (hd : m.Holds (.cons h) d) : ∃ a r first rest,
    m.cell? h = some (.cons a r) ∧ m.Holds a first ∧ m.Holds r rest ∧ d = .pair first rest := by
  generalize hv : Value.cons h = v at hd
  cases hd with
  | pair hc ha hr =>
    cases hv
    exact ⟨_, _, _, _, hc, ha, hr, rfl⟩
  | number n => cases n <;> cases hv
  | _ => cases hv

theorem Holds.exists_cons {v : Value} {first rest : Datum} (hv : m.Holds v (.pair first rest)) : ∃ h, v = .cons h := by
  cases hv
  exact ⟨_, rfl⟩

theorem Holds.atom_ne_cons {v : Value} {a : Atom} (hv : m.Holds v (.atom a)) (h : Handle) : v ≠ .cons h := by
  rintro rfl
  obtain ⟨_, _, _, _, -, -, -, heq⟩ := hv.of_cons
  cases heq

/-- a value that unfolds to a tree has its sketch -/
theorem Interned.tree (hm : m.Interned) {v : Value} {d : Datum} (hv : m.Holds v d) : m.Tree v d.sketch := by
  induction hv with
  | t => exact .leaf (by simp) rfl
  | nil => exact .nil
  | number n => cases n <;> exact .leaf (by simp [Value.ofNumber]) rfl
  | @symbol name h hs =>
    have htext : m.leaf? (.symbol h) = some name := by simp [leaf?, hm.of_lookup hs]
    exact .leaf (by simp) htext
  | pair hc _ _ iha ihr => exact .pair hc iha ihr

/-- Printing a value that unfolds to a tree gives the text of the tree and changes nothing. -/
theorem Interned.run_print (hm : m.Interned) (hsize : m.heap.slots.size ≤ 0x10000000) {v : Value} {d : Datum}
    (hv : m.Holds v d) : (Act.print v).run m = .ok d.text m := by
  have hsketched : m.Sketched [] v d.sketch := (hm.tree hv).sketched nofun
  rw [hsketched.run_print (hsketched.depth_le_fuel hsize), d.text_sketch]

end Machine

end LispMachine
