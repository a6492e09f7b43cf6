/-
Taking runes from a text, with one that can be put back.

A scanner stands in a text like a cursor. It also keeps the rune that it took last with the position before it, so this rune can be
put back, once. Where something ends at a rune that belongs to what comes after it, that rune is taken, looked at and put back.
-/
import LispMachine.Source.Cursor
import LispMachine.Text.Blank

namespace LispMachine.Source

open Text (Rune isBlank)

/-- the runes at which an atom ends -/
def isDelimiter (c : Char) : Bool :=
  isBlank c || c = '(' || c = ')' || c = '\'' || c = '"' || c = ';'

structure Scanner where
  rest : List Rune
  pos : Position
  /-- the position before the last rune -/
  prev : Position
  /-- the last rune, as long as it can be put back -/
  last : Option Rune
deriving DecidableEq, Repr

namespace Scanner

def ofCursor (c : Cursor) : Scanner := ⟨c.rest, c.pos, c.pos, none⟩

def cursor (s : Scanner) : Cursor := ⟨s.rest, s.pos⟩

/-- Take a rune. At the end of the text there is none, and none to put back either. -/
def readRune (s : Scanner) : Option Rune × Scanner :=
  match s.rest with
  | [] => (none, { s with last := none })
  | r :: rs => (some r, ⟨rs, s.pos.advance r, s.pos, some r⟩)

/-- put back the rune that was taken last; nothing happens if there is none -/
def unreadRune (s : Scanner) : Scanner :=
  match s.last with
  | none => s
  | some r => ⟨r :: s.rest, s.prev, s.prev, none⟩

/-! ## One rune -/

variable {s s' : Scanner} {r : Rune}

theorem readRune_none (h : s.readRune = (none, s')) : s.rest = [] ∧ s'.cursor = s.cursor := by
  unfold readRune at h
  split at h
  · rename_i hrest
    cases h
    exact ⟨hrest, rfl⟩
  · cases h

theorem readRune_end (h : s.readRune = (none, s')) : s'.rest = [] :=
  (congrArg Cursor.rest (readRune_none h).2).trans (readRune_none h).1

theorem readRune_some (h : s.readRune = (some r, s')) : ∃ rs, s.rest = r :: rs ∧ s' = ⟨rs, s.pos.advance r, s.pos, some r⟩ := by
  unfold readRune at h
  split at h
  · cases h
  · rename_i hrest
    cases h
    exact ⟨_, hrest, rfl⟩

/-- a rune that was taken is put back where it was -/
theorem cursor_unreadRune (h : s.readRune = (some r, s')) : s'.unreadRune.cursor = s.cursor := by
  obtain ⟨rs, hrest, rfl⟩ := readRune_some h
  rw [cursor, cursor, hrest]
  rfl

theorem readRune_length (h : s.readRune = (some r, s')) : s'.rest.length < s.rest.length := by
  obtain ⟨rs, hrest, rfl⟩ := readRune_some h
  rw [hrest]
  exact Nat.lt_succ_self _

theorem unreadRune_length (h : s.readRune = (some r, s')) : s'.unreadRune.rest.length = s.rest.length :=
  congrArg (fun c => c.rest.length) (cursor_unreadRune h)

/-! ## Separators -/

/-- past the end of the line, and whether the line has one -/
def skipLine (s : Scanner) : Bool × Scanner :=
  match _h : s.readRune with
  | (none, s) => (false, s)
  | (some r, s) => if r.toChar = '\n' then (true, s) else s.skipLine
termination_by s.rest.length
decreasing_by exact readRune_length _h

theorem skipLine_length (s : Scanner) : s.skipLine.2.rest.length ≤ s.rest.length := by
  fun_induction skipLine s with
  | case1 s s' h => exact Nat.le_of_eq (congrArg (fun c => c.rest.length) (readRune_none h).2)
  | case2 s r s' h _ => exact Nat.le_of_lt (readRune_length h)
  | case3 s r s' h _ ih => exact Nat.le_trans ih (Nat.le_of_lt (readRune_length h))

/-- past white space and comments, and whether anything comes then -/
def skip (s : Scanner) : Bool × Scanner :=
  match _h : s.readRune with
  | (none, s) => (false, s)
  | (some r, s) =>
    if r.toChar = ';' then
      let line := s.skipLine
      if line.1 then line.2.skip else line
    else if isBlank r.toChar then s.skip
    else (true, s.unreadRune)
termination_by s.rest.length
decreasing_by
  · exact Nat.lt_of_le_of_lt (skipLine_length _) (readRune_length _h)
  · exact readRune_length _h

theorem skip_length (s : Scanner) : s.skip.2.rest.length ≤ s.rest.length := by
  fun_induction skip s with
  | case1 s s' h => exact Nat.le_of_eq (congrArg (fun c => c.rest.length) (readRune_none h).2)
  | case2 s r s' h _ _ _ ih =>
    exact Nat.le_trans ih (Nat.le_trans (skipLine_length s') (Nat.le_of_lt (readRune_length h)))
  | case3 s r s' h _ _ _ => exact Nat.le_trans (skipLine_length s') (Nat.le_of_lt (readRune_length h))
  | case4 s r s' h _ _ ih => exact Nat.le_trans ih (Nat.le_of_lt (readRune_length h))
  | case5 s r s' h _ _ => exact Nat.le_of_eq (unreadRune_length h)

theorem skipLine_end (h : s.skipLine.1 = false) : s.skipLine.2.rest = [] := by
  fun_induction skipLine s with
  | case1 s s' h' => exact readRune_end h'
  | case2 => cases h
  | case3 s r s' h' _ ih => exact ih h

/-- nothing comes after the separators, or what comes is no separator -/
theorem skip_end (h : s.skip.1 = false) : s.skip.2.rest = [] := by
  fun_induction skip s with
  | case1 s s' h' => exact readRune_end h'
  | case2 s r s' h' _ _ _ ih => exact ih h
  | case3 s r s' h' _ _ _ => exact skipLine_end h
  | case4 s r s' h' _ _ ih => exact ih h
  | case5 => cases h

theorem skip_next (h : s.skip.1 = true) : ∃ r rs, s.skip.2.rest = r :: rs ∧ r.toChar ≠ ';' ∧ isBlank r.toChar = false := by
  fun_induction skip s with
  | case1 => cases h
  | case2 s r s' h' _ _ _ ih => exact ih h
  | case3 s r s' h' _ line hline => exact absurd h hline
  | case4 s r s' h' _ _ ih => exact ih h
  | case5 s r s' h' hcomment hblank =>
    obtain ⟨rs, hrest, -⟩ := readRune_some h'
    exact ⟨r, rs, (congrArg Cursor.rest (cursor_unreadRune h')).trans hrest, hcomment, by simpa using hblank⟩

/-! ## Atoms -/

/-- the runes of the atom under the scanner -/
def readAtom (s : Scanner) : List Rune × Scanner :=
  match _h : s.readRune with
  | (none, s) => ([], s)
  | (some r, s) =>
    if isDelimiter r.toChar then ([], s.unreadRune)
    else
      let (text, s) := s.readAtom
      (r :: text, s)
termination_by s.rest.length
decreasing_by exact readRune_length _h

theorem readAtom_length (s : Scanner) : s.readAtom.2.rest.length ≤ s.rest.length := by
  fun_induction readAtom s with
  | case1 s s' h => exact Nat.le_of_eq (congrArg (fun c => c.rest.length) (readRune_none h).2)
  | case2 s r s' h _ => exact Nat.le_of_eq (unreadRune_length h)
  | case3 s r s' h _ text s'' hatom ih =>
    rw [hatom] at ih
    exact Nat.le_trans ih (Nat.le_of_lt (readRune_length h))

/-- an atom is not empty where no delimiter comes -/
theorem readAtom_length_lt {rs : List Rune} (hrest : s.rest = r :: rs) (hr : isDelimiter r.toChar = false) :
    s.readAtom.2.rest.length < s.rest.length := by
  have hread : s.readRune = (some r, ⟨rs, s.pos.advance r, s.pos, some r⟩) := by
    unfold readRune
    rw [hrest]
  rw [readAtom]
  split
  · rename_i h
    cases hread.symm.trans h
  · rename_i h
    cases hread.symm.trans h
    rw [if_neg (by simp [hr])]
    exact Nat.lt_of_le_of_lt (readAtom_length _) (readRune_length hread)

/-! ## After separators -/

section

variable {s₁ s₂ : Scanner} {ok : Bool}

theorem skip_readRune_length (hskip : s.skip = (ok, s₁)) (hrune : s₁.readRune = (some r, s₂)) :
    s₂.rest.length < s.rest.length := by
  have hle := s.skip_length
  rw [hskip] at hle
  exact Nat.lt_of_lt_of_le (readRune_length hrune) hle

theorem skip_unreadRune_length (hskip : s.skip = (ok, s₁)) (hrune : s₁.readRune = (some r, s₂)) :
    s₂.unreadRune.rest.length ≤ s.rest.length := by
  rw [unreadRune_length hrune]
  have hle := s.skip_length
  rwa [hskip] at hle

/-- an atom starts with every rune that is neither a separator nor a delimiter of another kind -/
theorem skip_readAtom_length (hskip : s.skip = (true, s₁)) (hrune : s₁.readRune = (some r, s₂))
    (hr : ¬ (r.toChar = '(' ∨ r.toChar = ')' ∨ r.toChar = '"' ∨ r.toChar = '\'')) :
    s₂.unreadRune.readAtom.2.rest.length < s.rest.length := by
  have hnext := s.skip_next (by rw [hskip])
  rw [hskip] at hnext
  obtain ⟨r', rs, hrest, hcomment, hblank⟩ := hnext
  have hback : s₂.unreadRune.rest = r' :: rs := (congrArg Cursor.rest (cursor_unreadRune hrune)).trans hrest
  obtain ⟨rs', hrest', -⟩ := readRune_some hrune
  obtain rfl : r = r' := by
    have := hrest'.symm.trans hrest
    simp_all
  refine Nat.lt_of_lt_of_le (readAtom_length_lt hback ?_) (skip_unreadRune_length hskip hrune)
  simp only [not_or] at hr
  simp [isDelimiter, hblank, hr, hcomment]

end

end Scanner

end LispMachine.Source
