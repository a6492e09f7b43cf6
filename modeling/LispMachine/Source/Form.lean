/-
Forms: what a source text says, one after the other.

A form is an atom, a list of forms in parentheses, or a quote before a form. Reading one takes from the text exactly what the form
needs. A reading that fails says why and hands over the forms that were complete by then, in the order in which they were read.
-/
import LispMachine.Source.Scanner

namespace LispMachine.Source

open Text (Rune)

inductive Form where
  | atom (text : String)
  | list (items : List Form)
  | quoted (form : Form)

/-- why a form cannot be read -/
inductive Misread where
  /-- the text ends inside a list -/
  | unclosed
  /-- a closing parenthesis where a form has to start -/
  | extraClose
  /-- a double quote: there are no string literals -/
  | stringLiteral
  /-- the text ends after a quote -/
  | danglingQuote
deriving DecidableEq, Repr

def Misread.message : Misread → String
  | .unclosed => "A list went unclosed"
  | .extraClose => "A spurious close-delimiter"
  | .stringLiteral => "string literals are not supported"
  | .danglingQuote => "quote at end of input"

/-- whether more text could mend the failure -/
def Misread.isCutOff : Misread → Bool
  | .unclosed | .danglingQuote => true
  | .extraClose | .stringLiteral => false

/-- the outcome of one reading, with the cursor after it -/
inductive Reading where
  | form (f : Form) (after : Cursor)
  | failed (cause : Misread) (begun : List Form) (after : Cursor)
  /-- nothing but separators was left -/
  | finished (after : Cursor)

/-! ## Reading -/

/-- what reading finds where `n` runes are left: unless the text is at its end, fewer of them -/
inductive Found (n : Nat) where
  | form (f : Form) (s : Scanner) (h : s.rest.length < n)
  | failed (cause : Misread) (begun : List Form) (s : Scanner) (h : s.rest.length < n)
  | finished (s : Scanner) (h : s.rest = [])

/-- with fewer runes left less is found -/
def Found.mono {n m : Nat} (hnm : n ≤ m) : Found n → Found m
  | .form f s h => .form f s (Nat.lt_of_lt_of_le h hnm)
  | .failed cause begun s h => .failed cause begun s (Nat.lt_of_lt_of_le h hnm)
  | .finished s h => .finished s h

/-- a value that is looked at, with the proof that it is this one -/
def inspect {α : Type} (a : α) : { b : α // a = b } := ⟨a, rfl⟩

namespace Scanner

mutual

/-- read the next form -/
def read (s : Scanner) : Found s.rest.length :=
  match inspect s.skip with
  | ⟨(false, s₁), hskip⟩ => .finished s₁ (by simpa [hskip] using s.skip_end)
  | ⟨(true, s₁), hskip⟩ =>
    match inspect s₁.readRune with
    | ⟨(none, s₂), hrune⟩ => .finished s₂ (readRune_end hrune)
    | ⟨(some r, s₂), hrune⟩ =>
      have hlt := skip_readRune_length hskip hrune
      if hopen : r.toChar = '(' then (s₂.readList []).mono hlt
      else if hclose : r.toChar = ')' then .failed .extraClose [] s₂ hlt
      else if hdouble : r.toChar = '"' then .failed .stringLiteral [] s₂ hlt
      else if hquote : r.toChar = '\'' then
        match s₂.read with
        | .form f s₃ h => .form (.quoted f) s₃ (Nat.lt_trans h hlt)
        | .failed cause begun s₃ h => .failed cause begun s₃ (Nat.lt_trans h hlt)
        | .finished s₃ h => .failed .danglingQuote [] s₃ (by rw [h]; exact Nat.zero_lt_of_lt hlt)
      else
        let atom := s₂.unreadRune.readAtom
        .form (.atom (String.ofList (atom.1.map Rune.toChar))) atom.2
          (skip_readAtom_length hskip hrune (by simp [hopen, hclose, hdouble, hquote]))
termination_by 2 * s.rest.length
decreasing_by
  · exact Nat.lt_of_succ_le (Nat.mul_le_mul_left 2 hlt)
  · exact Nat.mul_lt_mul_of_pos_left hlt Nat.two_pos

/-- read the rest of a list after `items`, the latest first -/
def readList (s : Scanner) (items : List Form) : Found (s.rest.length + 1) :=
  match inspect s.skip with
  | ⟨(false, s₁), hskip⟩ => .failed .unclosed items.reverse s₁ (by simp [show s₁.rest = [] by simpa [hskip] using s.skip_end])
  | ⟨(true, s₁), hskip⟩ =>
    match inspect s₁.readRune with
    | ⟨(none, s₂), hrune⟩ => .finished s₂ (readRune_end hrune)
    | ⟨(some r, s₂), hrune⟩ =>
      have hback := skip_unreadRune_length hskip hrune
      if r.toChar = ')' then
        .form (.list items.reverse) s₂ (Nat.lt_succ_of_lt (skip_readRune_length hskip hrune))
      else
        match s₂.unreadRune.read with
        | .form f s₃ h => (s₃.readList (f :: items)).mono (Nat.le_succ_of_le (Nat.lt_of_lt_of_le h hback))
        | .failed cause begun s₃ h =>
          .failed cause (items.reverse ++ begun) s₃ (Nat.lt_succ_of_lt (Nat.lt_of_lt_of_le h hback))
        | .finished s₃ h => .failed .unclosed items.reverse s₃ (by simp [h])
termination_by 2 * s.rest.length + 1
decreasing_by
  · exact Nat.lt_succ_of_le (Nat.mul_le_mul_left 2 hback)
  · exact Nat.succ_lt_succ (Nat.mul_lt_mul_of_pos_left (Nat.lt_of_lt_of_le h hback) Nat.two_pos)

end

end Scanner

def Cursor.read (c : Cursor) : Reading :=
  match (Scanner.ofCursor c).read with
  | .form f s _ => .form f s.cursor
  | .failed cause begun s _ => .failed cause begun s.cursor
  | .finished s _ => .finished s.cursor

/-! ## A form takes at least one rune -/

def Reading.after : Reading → Cursor
  | .form _ c | .failed _ _ c | .finished c => c

def Reading.isFinished : Reading → Bool
  | .finished _ => true
  | _ => false

/-- a reading that finds anything takes at least one rune -/
theorem Cursor.read_length {c : Cursor} (h : c.read.isFinished = false) :
    c.read.after.rest.length < c.rest.length := by
  unfold Cursor.read at h ⊢
  cases hread : (Scanner.ofCursor c).read with
  | form f s hlt => exact hlt
  | failed cause begun s hlt => exact hlt
  | finished s =>
    rw [hread] at h
    cases h

theorem Cursor.read_form_length {c after : Cursor} {f : Form} (h : c.read = .form f after) :
    after.rest.length < c.rest.length := by
  have := Cursor.read_length (c := c) (by rw [h]; rfl)
  rwa [h] at this

/-! ## Whole texts -/

/-- whether a text holds only whole forms, up to the first failure if there is one -/
def Cursor.isComplete (c : Cursor) : Bool :=
  match _h : c.read with
  | .finished _ => true
  | .failed cause _ _ => !cause.isCutOff
  | .form _ after => after.isComplete
termination_by c.rest.length
decreasing_by exact Cursor.read_form_length _h

end LispMachine.Source
