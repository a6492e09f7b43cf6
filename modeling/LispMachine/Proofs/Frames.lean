/-
Reading with the open lists and quotes on a stack.

`readUnder` takes one token after the other and keeps what encloses the next form as frames, so whatever a text goes on to say can
be told from the frames and the tokens that are left. Reading form within form, it comes to the same: `Cursor.read_eq`.
-/
import LispMachine.Proofs.Scanning

namespace LispMachine.Source

open Text (Rune isBlank)

/-- an enclosing list, its items read so far from last to first, or an enclosing quote -/
inductive Frame where
  | list (items : List Form)
  | quote

/-- hand a complete form to the innermost frame; without one it is the result -/
def complete (f : Form) : List Frame → Form ⊕ List Frame
  | [] => .inl f
  | .list items :: outer => .inr (.list (f :: items) :: outer)
  | .quote :: outer => complete (.quoted f) outer

/-- the complete forms held by the frames, in reading order -/
def begun (stack : List Frame) : List Form :=
  stack.reverse.flatMap fun
    | .list items => items.reverse
    | .quote => []

/-- the outcome at the end of the text -/
def atEnd (stack : List Frame) (after : Cursor) : Reading :=
  match stack with
  | [] => .finished after
  | .list _ :: _ => .failed .unclosed (begun stack) after
  | .quote :: _ => .failed .danglingQuote (begun stack) after

/-- what a token does to the frames: go on with new ones, or end with an outcome -/
def step (stack : List Frame) (k : Token) (after : Cursor) : Reading ⊕ List Frame :=
  let settle (f : Form) (outer : List Frame) : Reading ⊕ List Frame :=
    match complete f outer with
    | .inl f => .inl (.form f after)
    | .inr outer => .inr outer
  match k with
  | .openParen => .inr (.list [] :: stack)
  | .quote => .inr (.quote :: stack)
  | .doubleQuote => .inl (.failed .stringLiteral (begun stack) after)
  | .atom text => settle (.atom text) stack
  | .closeParen =>
    match stack with
    | .list items :: outer => settle (.list items.reverse) outer
    | _ => .inl (.failed .extraClose (begun stack) after)

/-- read on under the given frames -/
def readUnder (stack : List Frame) (c : Cursor) : Reading :=
  match _h : c.token? with
  | (none, after) => atEnd stack after
  | (some k, after) =>
    match step stack k after with
    | .inl outcome => outcome
    | .inr stack => readUnder stack after
termination_by c.rest.length
decreasing_by exact Cursor.token?_length _h

theorem readUnder_end {stack : List Frame} {c after : Cursor} (h : c.token? = (none, after)) :
    readUnder stack c = atEnd stack after := by
  rw [readUnder]
  split <;> simp_all

theorem readUnder_token {stack : List Frame} {c after : Cursor} {k : Token} (h : c.token? = (some k, after)) :
    readUnder stack c = match step stack k after with
      | .inl outcome => outcome
      | .inr stack => readUnder stack after := by
  rw [readUnder]
  split
  · simp_all
  · rename_i k' after' h'
    obtain ⟨rfl, rfl⟩ : k = k' ∧ after = after' := by simp_all
    rfl

theorem begun_cons (frame : Frame) (outer : List Frame) :
    begun (frame :: outer) = begun outer ++ match frame with
      | .list items => items.reverse
      | .quote => [] := by
  cases frame <;> simp [begun]

/-- go on with a form that is complete -/
def readOn (f : Form) (stack : List Frame) (after : Cursor) : Reading :=
  match complete f stack with
  | .inl g => .form g after
  | .inr stack => readUnder stack after

theorem readUnder_atom {stack : List Frame} {c after : Cursor} {text : String} (h : c.token? = (some (.atom text), after)) :
    readUnder stack c = readOn (.atom text) stack after := by
  rw [readUnder_token h, readOn]
  simp only [step]
  cases complete (.atom text) stack <;> rfl

theorem readUnder_close {items : List Form} {outer : List Frame} {c after : Cursor}
    (h : c.token? = (some .closeParen, after)) :
    readUnder (.list items :: outer) c = readOn (.list items.reverse) outer after := by
  rw [readUnder_token h, readOn]
  simp only [step]
  cases complete (.list items.reverse) outer <;> rfl

theorem readUnder_open {stack : List Frame} {c after : Cursor} (h : c.token? = (some .openParen, after)) :
    readUnder stack c = readUnder (.list [] :: stack) after := readUnder_token h

theorem readUnder_quote {stack : List Frame} {c after : Cursor} (h : c.token? = (some .quote, after)) :
    readUnder stack c = readUnder (.quote :: stack) after := readUnder_token h

/-! ## Form within form -/

namespace Cursor

theorem skip_skip (c : Cursor) : c.skip.skip = c.skip := by
  cases hrest : c.skip.rest with
  | nil =>
    unfold skip at hrest ⊢
    rw [hrest, skipFrom, ← hrest]
  | cons r rs =>
    obtain ⟨hcomment, hblank⟩ := skipFrom_rest hrest
    rw [skip, hrest, skipFrom]
    simp [hcomment, hblank, ← hrest]

theorem token?_skip (c : Cursor) : c.skip.token? = c.token? := by rw [token?, token?, skip_skip]

end Cursor

theorem readUnder_skip (stack : List Frame) (c : Cursor) : readUnder stack c.skip = readUnder stack c := by
  match h : c.token? with
  | (none, after) => rw [readUnder_end h, readUnder_end (c.token?_skip.trans h)]
  | (some k, after) => rw [readUnder_token h, readUnder_token (c.token?_skip.trans h)]

namespace Scanner

variable {s s₁ : Scanner} {r : Rune}

/-- the next token is found at the rune that was taken -/
theorem Next.token? (h : s.Next r s₁) : s.cursor.token? =
    if r.toChar = '(' then (some .openParen, s₁.cursor)
    else if r.toChar = ')' then (some .closeParen, s₁.cursor)
    else if r.toChar = '\'' then (some .quote, s₁.cursor)
    else if r.toChar = '"' then (some .doubleQuote, s₁.cursor)
    else (some (.atom (String.ofList (s₁.unreadRune.readAtom.1.map Rune.toChar))), s₁.unreadRune.readAtom.2.cursor) := by
  obtain ⟨hrest, hpos⟩ := h.unread
  have hskip : s.cursor.skip.rest = r :: s₁.rest := (congrArg Cursor.rest h.skip).trans hrest
  have hafter : s.cursor.skip.pos.advance r = s₁.pos := by rw [h.skip, cursor, hpos]
  unfold Cursor.token?
  simp only [hskip, hafter]
  split_ifs with hopen hclose hquote hdouble
  · rfl
  · rfl
  · rfl
  · rfl
  · obtain ⟨hcomment, hblank⟩ := h.not_separator
    have hatom := s₁.unreadRune.readAtom_eq
    rw [hrest, Cursor.atomFrom, if_neg (by simp [isDelimiter, hopen, hclose, hquote, hdouble, hcomment, hblank]), ← hpos] at hatom
    obtain ⟨htext, hrest⟩ := Prod.mk.inj hatom
    rw [← htext, ← hrest]

theorem Next.not_close (h : s.Next r s₁) (hr : r.toChar ≠ ')') : ¬ ∃ after, s₁.unreadRune.cursor.token? = (some .closeParen, after) := by
  rintro ⟨after, ht⟩
  rw [← h.skip, Cursor.token?_skip, h.token?, if_neg hr] at ht
  split_ifs at ht <;> cases ht

theorem token?_of_end (h : s.skip = (false, s₁)) : s.cursor.token? = (none, s₁.cursor) := by
  have hskip : s₁.cursor = s.cursor.skip := by rw [← s.skip_eq, h]
  have hrest : s.cursor.skip.rest = [] := by
    have := s.skip_end (by rw [h])
    rw [h] at this
    rw [← hskip]
    exact this
  unfold Cursor.token?
  simp only [hrest, hskip]

end Scanner

/-- go on under frames with what was found -/
def Outcome.under (stack : List Frame) : Outcome → Reading
  | .form f s => readOn f stack s.cursor
  | .failed cause inner s => .failed cause (begun stack ++ inner) s.cursor
  | .finished s => atEnd stack s.cursor

theorem Outcome.under_quoted (outer : List Frame) (o : Outcome) : o.quoted.under outer = o.under (.quote :: outer) := by
  cases o with
  | form f s => rfl
  | failed cause inner s => simp [quoted, under, begun_cons]
  | finished s => simp [quoted, under, atEnd, begun_cons]

/-- the frames under which a form, or the rest of a list after `items`, is read -/
def framesOf (items : Option (List Form)) (outer : List Frame) : List Frame :=
  match items with
  | none => outer
  | some items => .list items :: outer

/-- no list is the innermost frame -/
def Outside (stack : List Frame) : Prop := ∀ items outer, stack ≠ .list items :: outer

/-- What is read form within form is read with the frames on a stack. A list takes a closing parenthesis for itself, before the form
that it would not begin. -/
theorem Scanner.Reads.readUnder {items : Option (List Form)} {s : Scanner} {o : Outcome} (h : Reads items s o)
    (outer : List Frame) (hclose : items = none → (∃ after, s.cursor.token? = (some .closeParen, after)) → Outside outer) :
    readUnder (framesOf items outer) s.cursor = o.under outer := by
  induction h generalizing outer with
  | finished hskip => exact readUnder_end (token?_of_end hskip)
  | list hnext hr _ ih =>
    have ht := hnext.token?
    rw [if_pos hr] at ht
    exact (readUnder_open ht).trans (ih outer fun h => by cases h)
  | extraClose hnext hr =>
    have ht := hnext.token?
    rw [if_neg (by rw [hr]; decide), if_pos hr] at ht
    have hout := hclose rfl ⟨_, ht⟩
    rw [framesOf, readUnder_token ht, Outcome.under, List.append_nil]
    cases outer with
    | nil => rfl
    | cons frame outer =>
      cases frame with
      | quote => rfl
      | list items => exact absurd rfl (hout items outer)
  | stringLiteral hnext hr =>
    have ht := hnext.token?
    rw [if_neg (by rw [hr]; decide), if_neg (by rw [hr]; decide), if_neg (by rw [hr]; decide), if_pos hr] at ht
    rw [framesOf, readUnder_token ht, Outcome.under, List.append_nil]
    rfl
  | quoted hnext hr _ ih =>
    have ht := hnext.token?
    rw [if_neg (by rw [hr]; decide), if_neg (by rw [hr]; decide), if_pos hr] at ht
    rw [Outcome.under_quoted]
    exact (readUnder_quote ht).trans (ih _ fun _ _ _ _ h => by cases h)
  | atom hnext h₁ h₂ h₃ h₄ =>
    have ht := hnext.token?
    rw [if_neg h₁, if_neg h₂, if_neg h₄, if_neg h₃] at ht
    exact readUnder_atom ht
  | unclosed items hskip =>
    rw [framesOf, readUnder_end (token?_of_end hskip), Outcome.under, atEnd, begun_cons]
  | close items hnext hr =>
    have ht := hnext.token?
    rw [if_neg (by rw [hr]; decide), if_pos hr] at ht
    exact readUnder_close ht
  | @item _ _ _ _ items _ _ hnext hr _ _ ih ihrest =>
    have hform := ih (.list items :: outer) fun _ h => absurd h (hnext.not_close hr)
    rw [framesOf, ← readUnder_skip, hnext.skip]
    exact hform.trans (ihrest outer fun h => by cases h)
  | failed items hnext hr _ ih =>
    have hfailed := ih (.list items :: outer) fun _ h => absurd h (hnext.not_close hr)
    rw [framesOf, ← readUnder_skip, hnext.skip]
    refine hfailed.trans ?_
    rw [Outcome.under, Outcome.under, begun_cons, List.append_assoc]
  | unfinished items hnext hr _ ih =>
    have hend := ih (.list items :: outer) fun _ h => absurd h (hnext.not_close hr)
    rw [framesOf, ← readUnder_skip, hnext.skip]
    refine hend.trans ?_
    rw [Outcome.under, Outcome.under, atEnd, begun_cons]

/-- Reading comes to the same with the open lists and quotes on a stack. -/
theorem Cursor.read_eq (c : Cursor) : c.read = readUnder [] c := by
  have h := (Scanner.reads_read (.ofCursor c)).readUnder [] fun _ _ _ _ h => by cases h
  rw [read_eq_outcome]
  refine Eq.trans ?_ h.symm
  cases (Scanner.ofCursor c).read.outcome <;> rfl

end LispMachine.Source
