/-
What the reader does with its scanner.

`Reads` says by one rule for each case what reading a form, or the rest of a list, comes to; it is the relation behind
`Scanner.read` and `Scanner.readList` (`Scanner.reads_read`), without the proofs that runes are taken. Skipping separators and taking
an atom with a rune to put back comes to the same as looking at what is left (`Scanner.skip_eq`, `Scanner.readAtom_eq`).
-/
import LispMachine.Proofs.Tokens
import LispMachine.Source.Form

namespace LispMachine.Source

open Text (Rune isBlank)

/-- what was found, and the scanner after it -/
inductive Outcome where
  | form (f : Form) (s : Scanner)
  | failed (cause : Misread) (begun : List Form) (s : Scanner)
  | finished (s : Scanner)

namespace Outcome

/-- what it is after a quote -/
def quoted : Outcome → Outcome
  | .form f s => .form (.quoted f) s
  | .failed cause begun s => .failed cause begun s
  | .finished s => .failed .danglingQuote [] s

def scanner : Outcome → Scanner
  | .form _ s | .failed _ _ s | .finished s => s

def reading : Outcome → Reading
  | .form f s => .form f s.cursor
  | .failed cause begun s => .failed cause begun s.cursor
  | .finished s => .finished s.cursor

end Outcome

def Found.outcome {n : Nat} : Found n → Outcome
  | .form f s _ => .form f s
  | .failed cause begun s _ => .failed cause begun s
  | .finished s _ => .finished s

theorem Found.outcome_mono {n m : Nat} (h : n ≤ m) (o : Found n) : (o.mono h).outcome = o.outcome := by cases o <;> rfl

theorem Cursor.read_eq_outcome (c : Cursor) : c.read = (Scanner.ofCursor c).read.outcome.reading := by
  unfold read
  cases (Scanner.ofCursor c).read <;> rfl

namespace Scanner

/-- past the separators the rune `r` comes, which was taken -/
structure Next (s : Scanner) (r : Rune) (s' : Scanner) : Prop where
  exists_skip : ∃ s₁, s.skip = (true, s₁) ∧ s₁.readRune = (some r, s')

/-- `Reads none s o`: reading a form comes to `o`; `Reads (some items) s o`: so does reading the rest of a list after `items` -/
inductive Reads : Option (List Form) → Scanner → Outcome → Prop where
  | finished {s s₁ : Scanner} : s.skip = (false, s₁) → Reads none s (.finished s₁)
  | list {s s₁ : Scanner} {r : Rune} {o : Outcome} : s.Next r s₁ → r.toChar = '(' → Reads (some []) s₁ o → Reads none s o
  | extraClose {s s₁ : Scanner} {r : Rune} : s.Next r s₁ → r.toChar = ')' → Reads none s (.failed .extraClose [] s₁)
  | stringLiteral {s s₁ : Scanner} {r : Rune} : s.Next r s₁ → r.toChar = '"' → Reads none s (.failed .stringLiteral [] s₁)
  | quoted {s s₁ : Scanner} {r : Rune} {o : Outcome} : s.Next r s₁ → r.toChar = '\'' → Reads none s₁ o → Reads none s o.quoted
  | atom {s s₁ : Scanner} {r : Rune} : s.Next r s₁ → r.toChar ≠ '(' → r.toChar ≠ ')' → r.toChar ≠ '"' → r.toChar ≠ '\'' →
      Reads none s (.form (.atom (String.ofList (s₁.unreadRune.readAtom.1.map Rune.toChar))) s₁.unreadRune.readAtom.2)
  | unclosed {s s₁ : Scanner} (items : List Form) : s.skip = (false, s₁) →
      Reads (some items) s (.failed .unclosed items.reverse s₁)
  | close {s s₁ : Scanner} {r : Rune} (items : List Form) : s.Next r s₁ → r.toChar = ')' →
      Reads (some items) s (.form (.list items.reverse) s₁)
  | item {s s₁ s₂ : Scanner} {r : Rune} {items : List Form} {f : Form} {o : Outcome} : s.Next r s₁ → r.toChar ≠ ')' →
      Reads none s₁.unreadRune (.form f s₂) → Reads (some (f :: items)) s₂ o → Reads (some items) s o
  | failed {s s₁ s₂ : Scanner} {r : Rune} (items : List Form) {cause : Misread} {begun : List Form} : s.Next r s₁ →
      r.toChar ≠ ')' → Reads none s₁.unreadRune (.failed cause begun s₂) →
      Reads (some items) s (.failed cause (items.reverse ++ begun) s₂)
  | unfinished {s s₁ s₂ : Scanner} {r : Rune} (items : List Form) : s.Next r s₁ → r.toChar ≠ ')' →
      Reads none s₁.unreadRune (.finished s₂) → Reads (some items) s (.failed .unclosed items.reverse s₂)

variable {s s₁ s₂ : Scanner} {r : Rune}

/-! ## One rune to put back -/

/-- in a comment the line is skipped first -/
theorem skipLine_eq (s : Scanner) :
    Cursor.skipFrom true s.rest s.pos = if s.skipLine.1 then s.skipLine.2.cursor.skip else s.skipLine.2.cursor := by
  fun_induction skipLine s with
  | case1 s s' h =>
    obtain ⟨hrest, hcursor⟩ := readRune_none h
    rw [hrest, if_neg Bool.false_ne_true, hcursor, cursor, hrest]
    rfl
  | case2 s r s' h hline =>
    obtain ⟨rs, hrest, rfl⟩ := readRune_some h
    rw [hrest, if_pos rfl, Cursor.skipFrom]
    simp [hline, Cursor.skip, cursor]
  | case3 s r s' h hline ih =>
    obtain ⟨rs, hrest, rfl⟩ := readRune_some h
    rw [hrest, Cursor.skipFrom, ← ih]
    simp [hline]

/-- Separators are skipped as far as the cursor would. -/
theorem skip_eq (s : Scanner) : s.skip.2.cursor = s.cursor.skip := by
  fun_induction skip s with
  | case1 s s' h =>
    obtain ⟨hrest, hcursor⟩ := readRune_none h
    rw [hcursor, Cursor.skip, cursor, hrest]
    rfl
  | case2 s r s' h hcomment line hline ih =>
    obtain ⟨rs, hrest, rfl⟩ := readRune_some h
    have hskip := skipLine_eq ⟨rs, s.pos.advance r, s.pos, some r⟩
    rw [if_pos hline] at hskip
    rw [ih, ← hskip, Cursor.skip, cursor, hrest, Cursor.skipFrom]
    simp [hcomment]
  | case3 s r s' h hcomment line hline =>
    obtain ⟨rs, hrest, rfl⟩ := readRune_some h
    have hskip := skipLine_eq ⟨rs, s.pos.advance r, s.pos, some r⟩
    rw [if_neg hline] at hskip
    rw [← hskip, Cursor.skip, cursor, hrest, Cursor.skipFrom]
    simp [hcomment]
  | case4 s r s' h hcomment hblank ih =>
    obtain ⟨rs, hrest, rfl⟩ := readRune_some h
    rw [ih, Cursor.skip, Cursor.skip, cursor, cursor, hrest, Cursor.skipFrom]
    simp [hcomment, hblank]
  | case5 s r s' h hcomment hblank =>
    rw [cursor_unreadRune h]
    obtain ⟨rs, hrest, rfl⟩ := readRune_some h
    rw [Cursor.skip, cursor, hrest, Cursor.skipFrom]
    simp [hcomment, hblank]

/-- An atom is taken as far as the cursor would. -/
theorem readAtom_eq (s : Scanner) : Cursor.atomFrom s.rest s.pos = (s.readAtom.1, s.readAtom.2.cursor) := by
  fun_induction readAtom s with
  | case1 s s' h =>
    obtain ⟨hrest, hcursor⟩ := readRune_none h
    rw [hrest, hcursor, cursor, hrest]
    rfl
  | case2 s r s' h hdelimiter =>
    rw [cursor_unreadRune h]
    obtain ⟨rs, hrest, rfl⟩ := readRune_some h
    rw [cursor, hrest, Cursor.atomFrom]
    simp [hdelimiter]
  | case3 s r s' h hdelimiter text s'' hatom ih =>
    obtain ⟨rs, hrest, rfl⟩ := readRune_some h
    rw [hatom] at ih
    rw [hrest, Cursor.atomFrom]
    simp [hdelimiter, ih]

/-- where the scanner stands when the rune is put back -/
theorem Next.skip (h : s.Next r s₁) : s.cursor.skip = s₁.unreadRune.cursor := by
  obtain ⟨s₀, hskip, hrune⟩ := h.exists_skip
  rw [cursor_unreadRune hrune, ← skip_eq, hskip]

theorem Next.unread (h : s.Next r s₁) : s₁.unreadRune.rest = r :: s₁.rest ∧ s₁.pos = s₁.unreadRune.pos.advance r := by
  obtain ⟨s₀, -, hrune⟩ := h.exists_skip
  obtain ⟨rs, -, rfl⟩ := readRune_some hrune
  exact ⟨rfl, rfl⟩

theorem Next.not_separator (h : s.Next r s₁) : r.toChar ≠ ';' ∧ isBlank r.toChar = false := by
  have hrest : s.cursor.skip.rest = r :: s₁.rest := (congrArg Cursor.rest h.skip).trans h.unread.1
  exact Cursor.skipFrom_rest hrest

/-! ## The rules hold -/

/-- past the separators a rune comes, unless nothing does -/
theorem readRune_of_skip (h : s.skip = (true, s₁)) : s₁.readRune ≠ (none, s₂) := by
  intro hrune
  obtain ⟨r, rs, hrest, -⟩ := s.skip_next (by rw [h])
  rw [h, (readRune_none hrune).1] at hrest
  cases hrest

mutual

theorem reads_read (s : Scanner) : Reads none s s.read.outcome := by
  rw [read]
  split
  · rename_i hskip _
    exact .finished hskip
  · rename_i s₁ hskip _
    split
    · rename_i s₂ hrune _
      exact absurd hrune (readRune_of_skip hskip)
    · rename_i r s₂ hrune _
      have hnext : s.Next r s₂ := ⟨s₁, hskip, hrune⟩
      have hlt := skip_readRune_length hskip hrune
      dsimp only
      split
      · rename_i hopen
        rw [Found.outcome_mono]
        exact .list hnext hopen (reads_readList s₂ [])
      split
      · exact .extraClose hnext ‹_›
      split
      · exact .stringLiteral hnext ‹_›
      split
      · rename_i hquote
        have hread := Reads.quoted hnext hquote (reads_read s₂)
        split <;> simp_all [Found.outcome, Outcome.quoted]
      · exact .atom hnext ‹_› ‹_› ‹_› ‹_›
termination_by (s.rest.length, 0)
decreasing_by
  · exact .left _ _ hlt
  · exact .left _ _ hlt

theorem reads_readList (s : Scanner) (items : List Form) : Reads (some items) s (s.readList items).outcome := by
  rw [readList]
  split
  · rename_i hskip _
    exact .unclosed items hskip
  · rename_i s₁ hskip _
    split
    · rename_i s₂ hrune _
      exact absurd hrune (readRune_of_skip hskip)
    · rename_i r s₂ hrune _
      have hnext : s.Next r s₂ := ⟨s₁, hskip, hrune⟩
      have hback := skip_unreadRune_length hskip hrune
      dsimp only
      split
      · exact .close items hnext ‹_›
      · rename_i hclose
        have hread := reads_read s₂.unreadRune
        split
        · rename_i f s₃ hlt hform
          have hfewer : s₃.rest.length < s.rest.length := Nat.lt_of_lt_of_le hlt hback
          rw [hform] at hread
          rw [Found.outcome_mono]
          exact .item hnext hclose hread (reads_readList s₃ (f :: items))
        · rename_i cause begun s₃ hlt hfailed
          rw [hfailed] at hread
          exact .failed items hnext hclose hread
        · rename_i s₃ hend hfinished
          rw [hfinished] at hread
          exact .unfinished items hnext hclose hread
termination_by (s.rest.length, 1)
decreasing_by
  · exact (Nat.lt_or_eq_of_le hback).elim (.left _ _) fun h => h ▸ .right _ Nat.one_pos
  · exact .left _ _ hfewer

end

end Scanner

end LispMachine.Source
