/-
What a reading takes from the text.

The position of a reader is a function of the bytes that it has taken (`Position.ofBytes`), whatever was read before and whether it
could be read. A form is taken with the separators before it and up to its last character: `Spells` says how a form is spelled from
its first character to its last, and no more than that is taken. At the end of the text there are only separators left to take. A
failure takes the text to its end or up to the character that offends; `Begins` says what may stand before that one. Every reading
that finds something takes a byte, so a text of `n` bytes has been read after at most `n + 1` readings (`Cursor.reads_take`).
-/
import LispMachine.Proofs.Runes
import LispMachine.Proofs.Scanning

namespace LispMachine.Source

open Text (Rune isBlank)

/-! ## Texts of forms -/

/-- separators: white space, and comments with the ends of their lines -/
inductive Gap : List Char → Prop where
  | nil : Gap []
  | blank {c : Char} {cs : List Char} : isBlank c = true → Gap cs → Gap (c :: cs)
  | comment {line cs : List Char} : '\n' ∉ line → Gap cs → Gap (';' :: (line ++ '\n' :: cs))

/-- what follows is no part of the last atom of a text: the text ends in a parenthesis, or what follows starts with a delimiter -/
def Parted (cs rest : List Char) : Prop := cs.getLast? = some ')' ∨ ∀ c ∈ rest.head?, isDelimiter c = true

mutual

/-- the characters spell a form, from the first to the last -/
inductive Spells : List Char → Form → Prop where
  | atom {cs : List Char} : cs ≠ [] → (∀ c ∈ cs, isDelimiter c = false) → Spells cs (.atom (String.ofList cs))
  | list {cs : List Char} {items : List Form} : SpellsRest cs items → Spells ('(' :: cs) (.list items)
  | quoted {gap cs : List Char} {f : Form} : Gap gap → Spells cs f → Spells ('\'' :: (gap ++ cs)) (.quoted f)

/-- the characters spell the last items of a list and its end -/
inductive SpellsRest : List Char → List Form → Prop where
  | close {gap : List Char} : Gap gap → SpellsRest (gap ++ [')']) []
  | item {gap cs rest : List Char} {f : Form} {fs : List Form} : Gap gap → Spells cs f → Parted cs rest → SpellsRest rest fs →
      SpellsRest (gap ++ (cs ++ rest)) (f :: fs)

end

/-- A beginning of a form, or of the rest of a list if `inList`: after it a form could start. If `closable`, a closing parenthesis
could come as well. -/
inductive Begins : Bool → Bool → List Char → Prop where
  | gap (inList : Bool) {gap : List Char} : Gap gap → Begins inList inList gap
  | item {closable : Bool} {gap cs rest : List Char} {f : Form} : Gap gap → Spells cs f → Parted cs rest →
      Begins true closable rest → Begins true closable (gap ++ (cs ++ rest))
  | list (inList : Bool) {closable : Bool} {gap rest : List Char} : Gap gap → Begins true closable rest →
      Begins inList closable (gap ++ '(' :: rest)
  | quote (inList : Bool) {closable : Bool} {gap rest : List Char} : Gap gap → Begins false closable rest →
      Begins inList closable (gap ++ '\'' :: rest)

/-- a comment of no characters, and of one more -/
theorem Gap.comment_nil {cs : List Char} (h : Gap cs) : Gap (';' :: '\n' :: cs) :=
  have hline : '\n' ∉ ([] : List Char) := List.not_mem_nil
  .comment hline h

theorem Gap.comment_cons {c : Char} {cs : List Char} (hc : c ≠ '\n') (h : Gap (';' :: cs)) : Gap (';' :: c :: cs) := by
  generalize htext : ';' :: cs = text at h
  cases h with
  | nil => cases htext
  | blank hblank =>
    cases htext
    cases hblank
  | @comment line cs hline h =>
    cases htext
    have hmore : '\n' ∉ c :: line := by simpa [hc.symm] using hline
    exact .comment hmore h

theorem Gap.append {g h : List Char} (hg : Gap g) (hh : Gap h) : Gap (g ++ h) := by
  induction hg with
  | nil => exact hh
  | blank hc _ ih => exact .blank hc ih
  | @comment line cs hline _ ih =>
    rw [List.cons_append, List.append_assoc, List.cons_append]
    exact .comment hline ih

theorem Parted.left {cs rest more : List Char} (h : Parted cs (rest ++ more)) : Parted cs rest := by
  refine h.imp_right fun h c hc => h c ?_
  rw [List.head?_append, Option.mem_def.1 hc]
  rfl

theorem Parted.prepend {cs rest : List Char} (h : Parted cs rest) (before : List Char) : Parted (before ++ cs) rest := by
  refine h.imp_left fun h => ?_
  rw [List.getLast?_append, h]
  rfl

theorem Begins.prepend {inList closable : Bool} {gap cs : List Char} (hgap : Gap gap) (h : Begins inList closable cs) :
    Begins inList closable (gap ++ cs) := by
  cases h with
  | gap _ hg => exact .gap _ (hgap.append hg)
  | item hg hcs hparted h =>
    rw [← List.append_assoc]
    exact .item (hgap.append hg) hcs hparted h
  | list _ hg h =>
    rw [← List.append_assoc]
    exact .list _ (hgap.append hg) h
  | quote _ hg h =>
    rw [← List.append_assoc]
    exact .quote _ (hgap.append hg) h

/-- the beginning of an item is one of a list, unless nothing of the item is there -/
theorem Begins.inside {closable : Bool} {cs : List Char} (h : Begins false closable cs) :
    Gap cs ∧ closable = false ∨ Begins true closable cs := by
  cases h with
  | gap _ hg => exact .inl ⟨hg, rfl⟩
  | list _ hg h => exact .inr (.list _ hg h)
  | quote _ hg h => exact .inr (.quote _ hg h)

/-! ## Runes that are taken -/

/-- the cursor `c'` stands after the runes `w` from `c` on -/
structure Cursor.Took (c : Cursor) (w : List Rune) (c' : Cursor) : Prop where
  rest : c.rest = w ++ c'.rest
  pos : c'.pos = c.pos.advanceAll w

namespace Cursor

variable {c c₁ c₂ : Cursor}

theorem Took.refl (c : Cursor) : c.Took [] c := ⟨rfl, rfl⟩

theorem Took.trans {v w : List Rune} (h : c.Took v c₁) (h₁ : c₁.Took w c₂) : c.Took (v ++ w) c₂ :=
  ⟨by rw [h.rest, h₁.rest, List.append_assoc], by rw [h₁.pos, h.pos, Position.advanceAll, Position.advanceAll,
    Position.advanceAll, List.foldl_append]⟩

theorem Took.chars {w : List Rune} (h : c.Took w c₁) : c.chars = w.map Rune.toChar ++ c₁.chars := by
  rw [Cursor.chars, h.rest, List.map_append]
  rfl

/-- what is skipped are separators, inside a comment the rest of one; at the end of the text a comment may be left open, which a
line end would end -/
theorem took_skipFrom (comment : Bool) (rs : List Rune) (p : Position) :
    ∃ g, (⟨rs, p⟩ : Cursor).Took g (skipFrom comment rs p) ∧
      ((skipFrom comment rs p).rest ≠ [] → Gap (if comment then ';' :: g.map Rune.toChar else g.map Rune.toChar)) ∧
      Gap ((if comment then ';' :: g.map Rune.toChar else g.map Rune.toChar) ++ ['\n']) := by
  have hline : Gap ['\n'] := .blank rfl .nil
  induction rs generalizing comment p with
  | nil => exact ⟨[], .refl _, fun h => absurd rfl h, by cases comment <;> first | exact hline | exact Gap.nil.comment_nil⟩
  | cons r rs ih =>
    have hone : (⟨r :: rs, p⟩ : Cursor).Took [r] ⟨rs, p.advance r⟩ := ⟨rfl, rfl⟩
    simp only [skipFrom]
    cases comment with
    | true =>
      obtain ⟨g, htook, hgap, hend⟩ := ih (decide (r.toChar ≠ '\n')) (p.advance r)
      by_cases hline : r.toChar = '\n'
      · rw [if_neg (by simp [hline])] at hgap hend
        refine ⟨[r] ++ g, hone.trans htook, fun hrest => ?_, ?_⟩
        · simpa [hline] using (hgap hrest).comment_nil
        · simpa [hline] using hend.comment_nil
      · rw [if_pos (by simp [hline])] at hgap hend
        exact ⟨[r] ++ g, hone.trans htook, fun hrest => (hgap hrest).comment_cons hline, hend.comment_cons hline⟩
    | false =>
      rw [if_neg Bool.false_ne_true]
      split
      · rename_i hcomment
        obtain ⟨g, htook, hgap, hend⟩ := ih true (p.advance r)
        refine ⟨[r] ++ g, hone.trans htook, fun hrest => ?_, ?_⟩
        · simpa [hcomment] using hgap hrest
        · simpa [hcomment] using hend
      split
      · rename_i hblank
        obtain ⟨g, htook, hgap, hend⟩ := ih false (p.advance r)
        exact ⟨[r] ++ g, hone.trans htook, fun hrest => .blank hblank (hgap hrest), .blank hblank hend⟩
      · exact ⟨[], .refl _, fun _ => .nil, hline⟩

theorem took_skip (c : Cursor) : ∃ g, c.Took g c.skip ∧ (c.skip.rest ≠ [] → Gap (g.map Rune.toChar)) ∧
    Gap (g.map Rune.toChar ++ ['\n']) :=
  took_skipFrom false c.rest c.pos

/-- an atom is taken up to a delimiter -/
theorem took_atomFrom (rs : List Rune) (p : Position) : (⟨rs, p⟩ : Cursor).Took (atomFrom rs p).1 (atomFrom rs p).2 ∧
    (∀ c ∈ (atomFrom rs p).1.map Rune.toChar, isDelimiter c = false) ∧
    ∀ c ∈ (atomFrom rs p).2.chars.head?, isDelimiter c = true := by
  induction rs generalizing p with
  | nil => exact ⟨.refl _, by simp [atomFrom], by simp [atomFrom, Cursor.chars]⟩
  | cons r rs ih =>
    rw [atomFrom]
    split
    · rename_i hdelimiter
      exact ⟨.refl _, by simp, by simpa [Cursor.chars] using hdelimiter⟩
    · rename_i hdelimiter
      obtain ⟨htook, hinner, hend⟩ := ih (p.advance r)
      have hone : (⟨r :: rs, p⟩ : Cursor).Took [r] ⟨rs, p.advance r⟩ := ⟨rfl, rfl⟩
      refine ⟨hone.trans htook, ?_, hend⟩
      rw [List.map_cons, List.forall_mem_cons]
      exact ⟨by simpa using hdelimiter, hinner⟩

end Cursor

/-- the runes up to the one that was taken last -/
theorem Scanner.Next.took {s s' : Scanner} {r : Rune} (h : s.Next r s') : ∃ g, s.cursor.Took g s'.unreadRune.cursor ∧
    Gap (g.map Rune.toChar) ∧ s'.unreadRune.cursor.Took [r] s'.cursor := by
  obtain ⟨g, htook, hgap, -⟩ := s.cursor.took_skip
  obtain ⟨hrest, hpos⟩ := h.unread
  rw [h.skip] at htook hgap
  refine ⟨g, htook, hgap ?_, hrest, hpos⟩
  rw [cursor, hrest]
  exact List.cons_ne_nil _ _

/-! ## What is taken -/

/-- what a reading takes of a text, if `rest` is left -/
def Reading.Takes (cs rest : List Char) : Reading → Prop
  /- separators and the form, of which nothing is left -/
  | .form f _ => ∃ gap body, cs = gap ++ body ∧ Gap gap ∧ Spells body f ∧ Parted body rest
  /- a parenthesis that cannot come there, after a beginning -/
  | .failed .extraClose _ _ => ∃ before, cs = before ++ [')'] ∧ Begins false false before
  /- a double quote, after a beginning -/
  | .failed .stringLiteral _ _ => ∃ before closable, cs = before ++ ['"'] ∧ Begins false closable before
  | .failed .unclosed _ _ | .failed .danglingQuote _ _ => rest = []
  /- separators to the end of the text; a line end would end the comment that they may end with -/
  | .finished _ => rest = [] ∧ Gap (cs ++ ['\n'])

/-- what reading the rest of a list takes; the end of the text is an error there -/
def Reading.TakesRest (items : List Form) (cs rest : List Char) : Reading → Prop
  | .form f _ => ∃ more, f = .list (items.reverse ++ more) ∧ SpellsRest cs more ∧ cs.getLast? = some ')'
  | .failed .extraClose _ _ => ∃ before, cs = before ++ [')'] ∧ Begins true false before
  | .failed .stringLiteral _ _ => ∃ before closable, cs = before ++ ['"'] ∧ Begins true closable before
  | .failed .unclosed _ _ | .failed .danglingQuote _ _ => rest = []
  | .finished _ => False

/-- what reading a form takes, or the rest of a list after `items` -/
def Reading.TakesAfter (items : Option (List Form)) (cs rest : List Char) (o : Reading) : Prop :=
  match items with
  | none => o.Takes cs rest
  | some items => o.TakesRest items cs rest

section

variable {gap cs rest : List Char} {items : List Form}

theorem Reading.TakesRest.list {o : Reading} (hgap : Gap gap) (h : o.TakesRest [] cs rest) : o.Takes (gap ++ '(' :: cs) rest := by
  match o with
  | .form _ _ =>
    obtain ⟨more, rfl, hspells, hlast⟩ := h
    exact ⟨gap, '(' :: cs, rfl, hgap, .list hspells, .inl (by rw [List.getLast?_cons, hlast]; rfl)⟩
  | .failed .extraClose _ _ =>
    obtain ⟨before, rfl, hbegins⟩ := h
    exact ⟨gap ++ '(' :: before, by simp, .list _ hgap hbegins⟩
  | .failed .stringLiteral _ _ =>
    obtain ⟨before, closable, rfl, hbegins⟩ := h
    exact ⟨gap ++ '(' :: before, closable, by simp, .list _ hgap hbegins⟩
  | .failed .unclosed _ _ | .failed .danglingQuote _ _ => exact h
  | .finished _ => exact h.elim

theorem Outcome.takes_quoted {o : Outcome} (hgap : Gap gap) (h : o.reading.Takes cs rest) :
    o.quoted.reading.Takes (gap ++ '\'' :: cs) rest := by
  match o with
  | .form f _ =>
    obtain ⟨inner, body, rfl, hinner, hspells, hparted⟩ := h
    exact ⟨gap, '\'' :: (inner ++ body), rfl, hgap, .quoted hinner hspells, (hparted.prepend inner).prepend ['\'']⟩
  | .failed .extraClose _ _ =>
    obtain ⟨before, rfl, hbegins⟩ := h
    exact ⟨gap ++ '\'' :: before, by simp, .quote _ hgap hbegins⟩
  | .failed .stringLiteral _ _ =>
    obtain ⟨before, closable, rfl, hbegins⟩ := h
    exact ⟨gap ++ '\'' :: before, closable, by simp, .quote _ hgap hbegins⟩
  | .failed .unclosed _ _ | .failed .danglingQuote _ _ => exact h
  | .finished _ => exact h.1

theorem Reading.TakesRest.item {o : Reading} {body : List Char} {f : Form} (hgap : Gap gap) (hspells : Spells body f)
    (hparted : Parted body cs) (h : o.TakesRest (f :: items) cs rest) : o.TakesRest items (gap ++ (body ++ cs)) rest := by
  match o with
  | .form _ _ =>
    obtain ⟨more, rfl, hrest, hlast⟩ := h
    refine ⟨f :: more, by simp, .item hgap hspells hparted hrest, ?_⟩
    rw [List.getLast?_append, List.getLast?_append, hlast]
    rfl
  | .failed .extraClose _ _ =>
    obtain ⟨before, rfl, hbegins⟩ := h
    exact ⟨gap ++ (body ++ before), by simp, .item hgap hspells hparted.left hbegins⟩
  | .failed .stringLiteral _ _ =>
    obtain ⟨before, closable, rfl, hbegins⟩ := h
    exact ⟨gap ++ (body ++ before), closable, by simp, .item hgap hspells hparted.left hbegins⟩
  | .failed .unclosed _ _ | .failed .danglingQuote _ _ | .finished _ => exact h

/-- what keeps an item from being read keeps the list from being read; the item does not start with the end of the list -/
theorem Reading.Takes.inside {cause : Misread} {begun begun' : List Form} {after : Cursor} (hgap : Gap gap)
    (hstart : ∀ gap, Gap gap → ¬ gap ++ [')'] <+: cs) (h : (Reading.failed cause begun after).Takes cs rest) :
    (Reading.failed cause begun' after).TakesRest items (gap ++ cs) rest := by
  match cause with
  | .extraClose =>
    obtain ⟨before, rfl, hbegins⟩ := h
    rcases hbegins.inside with ⟨hbefore, -⟩ | hbegins
    · exact absurd (List.prefix_refl _) (hstart before hbefore)
    · exact ⟨gap ++ before, by simp, hbegins.prepend hgap⟩
  | .stringLiteral =>
    obtain ⟨before, closable, rfl, hbegins⟩ := h
    rcases hbegins.inside with ⟨hbefore, -⟩ | hbegins
    · exact ⟨gap ++ before, true, by simp, .gap _ (hgap.append hbefore)⟩
    · exact ⟨gap ++ before, closable, by simp, hbegins.prepend hgap⟩
  | .unclosed | .danglingQuote => exact h

end

namespace Scanner

variable {s s₁ : Scanner} {r : Rune}

theorem took_of_end (h : s.skip = (false, s₁)) :
    ∃ g, s.cursor.Took g s₁.cursor ∧ s₁.cursor.chars = [] ∧ Gap (g.map Rune.toChar ++ ['\n']) := by
  obtain ⟨g, htook, -, hgap⟩ := s.cursor.took_skip
  have hrest := s.skip_end (by rw [h])
  rw [← skip_eq, h] at htook
  rw [h] at hrest
  exact ⟨g, htook, by rw [Cursor.chars, cursor, hrest]; rfl, hgap⟩

/-- where a rune is put back that is no closing parenthesis, none comes after separators -/
theorem Next.start {w : List Rune} {c : Cursor} (h : s.Next r s₁) (hr : r.toChar ≠ ')') (htook : s₁.unreadRune.cursor.Took w c) :
    ∀ gap, Gap gap → ¬ gap ++ [')'] <+: w.map Rune.toChar := by
  rintro gap hgap ⟨more, hmore⟩
  obtain ⟨hcomment, hblank⟩ := h.not_separator
  have hchars : (gap ++ [')'] ++ more ++ c.chars).head? = some r.toChar := by
    rw [hmore, ← htook.chars, Cursor.chars, cursor, h.unread.1]
    rfl
  generalize r.toChar = c at *
  cases hgap with
  | nil =>
    cases hchars
    exact hr rfl
  | blank hc =>
    cases hchars
    cases hc.symm.trans hblank
  | comment =>
    cases hchars
    exact hcomment rfl

theorem Reads.takes {items : Option (List Form)} {s : Scanner} {o : Outcome} (h : Reads items s o) :
    ∃ w, s.cursor.Took w o.scanner.cursor ∧ o.reading.TakesAfter items (w.map Rune.toChar) o.scanner.cursor.chars := by
  induction h with
  | finished hskip => exact took_of_end hskip
  | list hnext hr _ ih =>
    obtain ⟨g, hg, hgap, hone⟩ := hnext.took
    obtain ⟨w, hw, htakes⟩ := ih
    refine ⟨g ++ [_] ++ w, (hg.trans hone).trans hw, ?_⟩
    simpa [hr, Reading.TakesAfter] using htakes.list hgap
  | extraClose hnext hr =>
    obtain ⟨g, hg, hgap, hone⟩ := hnext.took
    refine ⟨g ++ [_], hg.trans hone, g.map Rune.toChar, ?_, .gap _ hgap⟩
    rw [List.map_append, List.map_singleton, hr]
  | stringLiteral hnext hr =>
    obtain ⟨g, hg, hgap, hone⟩ := hnext.took
    refine ⟨g ++ [_], hg.trans hone, g.map Rune.toChar, false, ?_, .gap _ hgap⟩
    rw [List.map_append, List.map_singleton, hr]
  | @quoted s s₁ r o hnext hr _ ih =>
    obtain ⟨g, hg, hgap, hone⟩ := hnext.took
    obtain ⟨w, hw, htakes⟩ := ih
    have hscanner : o.quoted.scanner = o.scanner := by cases o <;> rfl
    rw [hscanner]
    refine ⟨g ++ [r] ++ w, (hg.trans hone).trans hw, ?_⟩
    simpa [hr, Reading.TakesAfter] using Outcome.takes_quoted hgap htakes
  | @atom s s₁ r hnext h₁ h₂ h₃ h₄ =>
    obtain ⟨g, hg, hgap, -⟩ := hnext.took
    obtain ⟨hcomment, hblank⟩ := hnext.not_separator
    obtain ⟨htook, hinner, hend⟩ := Cursor.took_atomFrom s₁.unreadRune.rest s₁.unreadRune.pos
    rw [readAtom_eq] at htook hinner hend
    refine ⟨g ++ s₁.unreadRune.readAtom.1, hg.trans htook, g.map Rune.toChar, s₁.unreadRune.readAtom.1.map Rune.toChar,
      List.map_append, hgap, .atom (fun hnil => ?_) hinner, .inr hend⟩
    -- the rune that was put back would be left
    have hr : isDelimiter r.toChar = true := by
      rw [List.map_eq_nil_iff] at hnil
      have hleft : s₁.unreadRune.rest = s₁.unreadRune.readAtom.2.cursor.rest := by simpa [hnil] using htook.rest
      refine hend r.toChar ?_
      rw [Cursor.chars, ← hleft, hnext.unread.1]
      rfl
    simp [isDelimiter, h₁, h₂, h₃, h₄, hcomment, hblank] at hr
  | unclosed items hskip =>
    obtain ⟨g, hg, hend, -⟩ := took_of_end hskip
    exact ⟨g, hg, hend⟩
  | close items hnext hr =>
    obtain ⟨g, hg, hgap, hone⟩ := hnext.took
    refine ⟨g ++ [_], hg.trans hone, [], by rw [List.append_nil], ?_, ?_⟩
    · rw [List.map_append, List.map_singleton, hr]
      exact .close hgap
    · rw [List.map_append, List.map_singleton, hr, List.getLast?_concat]
  | item hnext hr _ _ ih ihrest =>
    obtain ⟨g, hg, hgap, -⟩ := hnext.took
    obtain ⟨w, hw, inner, body, hbody, hinner, hspells, hparted⟩ := ih
    obtain ⟨w', hw', htakes⟩ := ihrest
    refine ⟨g ++ (w ++ w'), hg.trans (hw.trans hw'), ?_⟩
    rw [Outcome.scanner, hw'.chars] at hparted
    have hitem := htakes.item (hgap.append hinner) hspells hparted.left
    simpa [hbody, Reading.TakesAfter] using hitem
  | failed items hnext hr _ ih =>
    obtain ⟨g, hg, hgap, -⟩ := hnext.took
    obtain ⟨w, hw, htakes⟩ := ih
    refine ⟨g ++ w, hg.trans hw, ?_⟩
    rw [List.map_append]
    exact htakes.inside hgap (hnext.start hr hw)
  | unfinished items hnext hr _ ih =>
    obtain ⟨g, hg, -, -⟩ := hnext.took
    obtain ⟨w, hw, hrest, -⟩ := ih
    exact ⟨g ++ w, hg.trans hw, hrest⟩

end Scanner

/-! ## Positions -/

/-- The position after bytes: how many they are, one more than the line ends in them, and one more than the runes after the last
line end. -/
def Position.ofBytes (bytes : List UInt8) : Position where
  offset := bytes.length
  line := 1 + bytes.count 10
  column := 1 + ((Rune.decode bytes).rtakeWhile (· ≠ .char '\n')).length

theorem toChar_eq_line_iff {r : Rune} : r.toChar = '\n' ↔ r = .char '\n' := by
  cases r with
  | char c => simp [Rune.toChar]
  | stray b => simp [Rune.toChar, Rune.replacement]

/-- the position moves on with the bytes of a rune -/
theorem Position.ofBytes_append {front back : List UInt8} {rs : List Rune} {r : Rune} (hfront : Rune.Decodes front rs)
    (hback : Rune.Decodes back [r]) (hall : Rune.Decodes (front ++ back) (rs ++ [r])) :
    ofBytes (front ++ back) = (ofBytes front).advance r := by
  obtain ⟨hwidth, hline⟩ := hback.one
  rw [ofBytes, ofBytes, Rune.decodes_iff.1 hfront, Rune.decodes_iff.1 hall, List.length_append, List.count_append, hwidth, hline,
    advance]
  by_cases hr : r = .char '\n'
  · rw [if_pos hr, if_pos (toChar_eq_line_iff.2 hr), List.rtakeWhile_concat_neg _ _ _ (by simp [hr])]
    rfl
  · rw [if_neg hr, if_neg (mt toChar_eq_line_iff.1 hr), List.rtakeWhile_concat_pos _ _ _ (by simp [hr]), List.length_append]
    rfl

theorem Position.advanceAll_eq {bytes : List UInt8} {rs : List Rune} (h : Rune.Decodes bytes rs) :
    advanceAll {} rs = ofBytes bytes := by
  induction rs using List.reverseRecOn generalizing bytes with
  | nil =>
    cases h
    rfl
  | append_singleton rs r ih =>
    obtain ⟨front, back, rfl, hfront, hback⟩ := h.split
    rw [ofBytes_append hfront hback h, ← ih hfront, advanceAll, List.foldl_append]
    rfl

/-! ## Readings, one after the other -/

namespace Cursor

theorem took_read (c : Cursor) : ∃ w, c.Took w c.read.after ∧ c.read.Takes (w.map Rune.toChar) c.read.after.chars := by
  obtain ⟨w, hw, htakes⟩ := (Scanner.reads_read (.ofCursor c)).takes
  rw [read_eq_outcome]
  generalize (Scanner.ofCursor c).read.outcome = o at hw htakes
  have hafter : o.reading.after = o.scanner.cursor := by cases o <;> rfl
  rw [hafter]
  exact ⟨w, hw, htakes⟩

/-- the cursor after `n` readings of a text -/
def reached (bytes : List UInt8) (n : Nat) : Cursor := (fun c => c.read.after)^[n] (ofBytes bytes)

theorem reached_succ (bytes : List UInt8) (n : Nat) : reached bytes (n + 1) = (reached bytes n).read.after :=
  Function.iterate_succ_apply' _ _ _

theorem took_reached (bytes : List UInt8) (n : Nat) : ∃ w, (ofBytes bytes).Took w (reached bytes n) := by
  induction n with
  | zero => exact ⟨[], .refl _⟩
  | succ n ih =>
    obtain ⟨w, hw⟩ := ih
    obtain ⟨w', hw', -⟩ := (reached bytes n).took_read
    rw [reached_succ]
    exact ⟨w ++ w', hw.trans hw'⟩

/-- where runes of a text were taken, its bytes are parted: what was taken tells the position, what is left is still to be read -/
theorem Took.split {bytes : List UInt8} {w : List Rune} {c : Cursor} (h : (ofBytes bytes).Took w c) :
    ∃ taken left, bytes = taken ++ left ∧ Rune.Decodes taken w ∧ c = ⟨Rune.decode left, .ofBytes taken⟩ := by
  have hdecodes : Rune.Decodes bytes (w ++ c.rest) := Rune.decodes_iff.2 h.rest
  obtain ⟨taken, left, rfl, htaken, hleft⟩ := hdecodes.split
  have hpos : c.pos = .ofBytes taken := h.pos.trans (Position.advanceAll_eq htaken)
  exact ⟨taken, left, rfl, htaken, by rw [Rune.decodes_iff.1 hleft, ← hpos]⟩

/-- a text is at its end after as many readings as it has bytes, if not before -/
theorem exists_isFinished (bytes : List UInt8) : ∃ n ≤ bytes.length, (reached bytes n).read.isFinished = true := by
  by_contra hnone
  have hnot (n : Nat) (hn : n ≤ bytes.length) : (reached bytes n).read.isFinished = false := by
    rw [← Bool.not_eq_true]
    exact fun h => hnone ⟨n, hn, h⟩
  have hleft (n : Nat) : n ≤ bytes.length → (reached bytes n).rest.length + n ≤ bytes.length := by
    induction n with
    | zero => exact fun _ => (Rune.decodes_decode bytes).length_le
    | succ n ih =>
      intro hn
      have hlt := read_length (hnot n (by omega))
      have := ih (by omega)
      rw [reached_succ]
      omega
  have hlast := read_length (hnot _ le_rfl)
  have := hleft _ le_rfl
  omega

/-- After any number of readings the position is that of the bytes that were taken, and the next reading takes the bytes of what it
finds and no more: at least one, unless it is at the end of the text, where it is after as many readings as the text has bytes. -/
theorem reads_take (bytes : List UInt8) :
    (∀ n, ∃ before taken left, bytes = before ++ (taken ++ left) ∧
      reached bytes n = ⟨Rune.decode (taken ++ left), .ofBytes before⟩ ∧
      reached bytes (n + 1) = ⟨Rune.decode left, .ofBytes (before ++ taken)⟩ ∧
      (reached bytes n).read.Takes (ofBytes taken).chars (ofBytes left).chars ∧
      ((reached bytes n).read.isFinished = false → taken ≠ [])) ∧
    ∃ n ≤ bytes.length, (reached bytes n).read.isFinished = true := by
  refine ⟨fun n => ?_, exists_isFinished bytes⟩
  obtain ⟨w, hw⟩ := took_reached bytes n
  obtain ⟨w', hw', htakes⟩ := (reached bytes n).took_read
  obtain ⟨before, rest, hbytes, hbefore, hreached⟩ := hw.split
  obtain ⟨both, left, hbytes', hboth, hafter⟩ := (hw.trans hw').split
  obtain ⟨before', taken, rfl, hbefore', htaken⟩ := hboth.split
  -- runes take the same bytes in both
  obtain ⟨rfl, rfl⟩ : before = before' ∧ rest = taken ++ left :=
    List.append_inj (by rw [← hbytes, hbytes', List.append_assoc]) (by rw [hbefore.length_eq, hbefore'.length_eq])
  refine ⟨before, taken, left, hbytes, hreached, by rw [reached_succ, hafter], ?_, fun hfound => ?_⟩
  · rw [hafter] at htakes
    rwa [chars, ofBytes, ofRunes, Rune.decodes_iff.1 htaken]
  · rintro rfl
    have hlt := read_length hfound
    rw [hafter, hreached] at hlt
    exact absurd hlt (Nat.lt_irrefl _)

/-- the second reading fails after the first has stopped at the end of its list -/
example : (reached "(a)\n  )".toUTF8.toList 2).pos = ⟨7, 2, 4⟩ := by cbv

end Cursor

end LispMachine.Source
