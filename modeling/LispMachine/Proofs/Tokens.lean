/-
The tokens of a text.

White space and comments, which run from a semicolon to the end of the line, separate tokens. A token is a parenthesis, a quote, a
double quote or an atom: a longest run of runes that are none of these and do not separate. A cursor hands over one after the other.

`tokens` splits a list of characters into tokens by itself, without positions and without a reader. What is left after a token has
the other ones.
-/
import Mathlib
import LispMachine.Source.Scanner

namespace LispMachine.Source

open Text (Rune isBlank)

inductive Token where
  | openParen
  | closeParen
  | quote
  | doubleQuote
  | atom (text : String)
deriving DecidableEq, Repr

namespace Cursor

/-- past white space and comments; `comment` says that the cursor stands inside a comment -/
def skipFrom (comment : Bool) : List Rune → Position → Cursor
  | [], p => ⟨[], p⟩
  | r :: rs, p =>
    let c := r.toChar
    if comment then skipFrom (c ≠ '\n') rs (p.advance r)
    else if c = ';' then skipFrom true rs (p.advance r)
    else if isBlank c then skipFrom false rs (p.advance r)
    else ⟨r :: rs, p⟩

def skip (c : Cursor) : Cursor := skipFrom false c.rest c.pos

/-- the runes of the atom under the cursor, and the cursor after it -/
def atomFrom : List Rune → Position → List Rune × Cursor
  | [], p => ([], ⟨[], p⟩)
  | r :: rs, p =>
    if isDelimiter r.toChar then ([], ⟨r :: rs, p⟩)
    else
      let (text, after) := atomFrom rs (p.advance r)
      (r :: text, after)

/-- the next token and the cursor after it; none at the end of the text -/
def token? (c : Cursor) : Option Token × Cursor :=
  let c := c.skip
  match c.rest with
  | [] => (none, c)
  | r :: rs =>
    let after : Cursor := ⟨rs, c.pos.advance r⟩
    if r.toChar = '(' then (some .openParen, after)
    else if r.toChar = ')' then (some .closeParen, after)
    else if r.toChar = '\'' then (some .quote, after)
    else if r.toChar = '"' then (some .doubleQuote, after)
    else
      let (text, after) := atomFrom rs after.pos
      (some (.atom (String.ofList ((r :: text).map Rune.toChar))), after)

/-! ## Tokens are consumed -/

theorem skipFrom_length (comment : Bool) (rs : List Rune) (p : Position) :
    (skipFrom comment rs p).rest.length ≤ rs.length := by
  induction rs generalizing comment p with
  | nil => simp [skipFrom]
  | cons r rs ih =>
    simp only [skipFrom, List.length_cons]
    split
    · exact Nat.le_succ_of_le (ih _ _)
    · split
      · exact Nat.le_succ_of_le (ih _ _)
      · split
        · exact Nat.le_succ_of_le (ih _ _)
        · simp

theorem skip_length (c : Cursor) : c.skip.rest.length ≤ c.rest.length := skipFrom_length _ _ _

theorem atomFrom_length (rs : List Rune) (p : Position) : (atomFrom rs p).2.rest.length ≤ rs.length := by
  induction rs generalizing p with
  | nil => simp [atomFrom]
  | cons r rs ih =>
    simp only [atomFrom, List.length_cons]
    split
    · simp
    · exact Nat.le_succ_of_le (ih _)

/-- a token takes at least one rune -/
theorem token?_length {c after : Cursor} {k : Token} (h : c.token? = (some k, after)) :
    after.rest.length < c.rest.length := by
  have hs := skip_length c
  unfold token? at h
  cases hr : c.skip.rest with
  | nil => simp [hr] at h
  | cons r rs =>
    rw [hr, List.length_cons] at hs
    have ha := atomFrom_length rs (c.skip.pos.advance r)
    simp only [hr] at h
    grind

theorem token?_end {c after : Cursor} (h : c.token? = (none, after)) : after = c.skip ∧ after.rest = [] := by
  unfold token? at h
  cases hr : c.skip.rest with
  | nil =>
    simp only [hr, Prod.mk.injEq, true_and] at h
    exact ⟨h.symm, h ▸ hr⟩
  | cons r rs => grind

end Cursor

/-! ## The tokens of a list of characters -/

/-- the tokens of a text -/
def tokens : List Char → List Token
  | [] => []
  | c :: cs =>
    if c = '(' then .openParen :: tokens cs
    else if c = ')' then .closeParen :: tokens cs
    else if c = '\'' then .quote :: tokens cs
    else if c = '"' then .doubleQuote :: tokens cs
    else if c = ';' then tokens (cs.dropWhile (· ≠ '\n'))
    else if isBlank c then tokens cs
    else .atom (String.ofList (c :: cs.takeWhile (!isDelimiter ·))) :: tokens (cs.dropWhile (!isDelimiter ·))
termination_by cs => cs.length
decreasing_by all_goals simp [(List.dropWhile_sublist _).length_le]

/-- the characters that are left -/
def Cursor.chars (c : Cursor) : List Char := c.rest.map Rune.toChar

theorem tokens_nil : tokens [] = [] := by rw [tokens]

theorem tokens_comment (cs : List Char) : tokens (';' :: cs) = tokens (cs.dropWhile (· ≠ '\n')) := by
  rw [tokens]
  simp

theorem tokens_blank {c : Char} (hc : isBlank c = true) (cs : List Char) : tokens (c :: cs) = tokens cs := by
  have hne (d : Char) (hd : isBlank d = false) : c ≠ d := by
    rintro rfl
    rw [hc] at hd
    cases hd
  rw [tokens, if_neg (hne '(' rfl), if_neg (hne ')' rfl), if_neg (hne '\'' rfl), if_neg (hne '"' rfl), if_neg (hne ';' rfl),
    if_pos hc]

theorem isDelimiter_eq_false_iff {c : Char} :
    isDelimiter c = false ↔ isBlank c = false ∧ c ≠ '(' ∧ c ≠ ')' ∧ c ≠ '\'' ∧ c ≠ '"' ∧ c ≠ ';' := by
  simp [isDelimiter, and_assoc]

theorem tokens_atom {c : Char} (hc : isDelimiter c = false) (cs : List Char) :
    tokens (c :: cs) =
      .atom (String.ofList (c :: cs.takeWhile (!isDelimiter ·))) :: tokens (cs.dropWhile (!isDelimiter ·)) := by
  obtain ⟨hblank, h₁, h₂, h₃, h₄, h₅⟩ := isDelimiter_eq_false_iff.1 hc
  rw [tokens, if_neg h₁, if_neg h₂, if_neg h₃, if_neg h₄, if_neg h₅, if_neg (by simp [hblank])]

/-- a token starts at what is no separator -/
theorem tokens_ne_nil {c : Char} (hcomment : c ≠ ';') (hblank : isBlank c = false) (cs : List Char) : tokens (c :: cs) ≠ [] := by
  rw [tokens]
  split_ifs <;> simp_all

namespace Cursor

/-! ## Separators -/

/-- inside a comment the rest of the line is dropped first -/
theorem tokens_skipFrom (comment : Bool) (rs : List Rune) (p : Position) :
    tokens (skipFrom comment rs p).chars =
      tokens (if comment then (rs.map Rune.toChar).dropWhile (· ≠ '\n') else rs.map Rune.toChar) := by
  induction rs generalizing comment p with
  | nil => cases comment <;> rfl
  | cons r rs ih =>
    simp only [skipFrom, List.map_cons]
    cases comment with
    | true =>
      simp only [if_true]
      rw [ih]
      by_cases hline : r.toChar = '\n'
      · simp [hline, tokens_blank (c := '\n') rfl]
      · simp [hline]
    | false =>
      simp only [Bool.false_eq_true, if_false]
      split
      · rename_i hc
        rw [ih, if_pos rfl, hc, tokens_comment]
      · split
        · rename_i hblank
          rw [ih, if_neg Bool.false_ne_true, tokens_blank hblank]
        · rfl

theorem tokens_skip (c : Cursor) : tokens c.skip.chars = tokens c.chars := by
  unfold skip
  rw [tokens_skipFrom, if_neg Bool.false_ne_true]
  rfl

/-- past the separators there is none -/
theorem skipFrom_rest {comment : Bool} {rs : List Rune} {p : Position} {r : Rune} {rest : List Rune}
    (h : (skipFrom comment rs p).rest = r :: rest) : r.toChar ≠ ';' ∧ isBlank r.toChar = false := by
  induction rs generalizing comment p with
  | nil => cases h
  | cons r' rs ih =>
    simp only [skipFrom] at h
    split at h
    · exact ih h
    · split at h
      · exact ih h
      · split at h
        · exact ih h
        · rename_i hc hblank
          cases h
          exact ⟨hc, by simpa using hblank⟩

/-! ## Atoms -/

theorem atomFrom_eq (rs : List Rune) (p : Position) :
    (atomFrom rs p).1.map Rune.toChar = (rs.map Rune.toChar).takeWhile (!isDelimiter ·) ∧
      (atomFrom rs p).2.chars = (rs.map Rune.toChar).dropWhile (!isDelimiter ·) := by
  induction rs generalizing p with
  | nil => exact ⟨rfl, rfl⟩
  | cons r rs ih =>
    simp only [atomFrom, List.map_cons]
    split
    · rename_i hd
      simp [chars, hd]
    · rename_i hd
      obtain ⟨htext, hafter⟩ := ih (p.advance r)
      simp [hd, htext, hafter]

/-! ## One token after the other -/

theorem tokens_of_end {c after : Cursor} (h : c.token? = (none, after)) : tokens c.chars = [] := by
  obtain ⟨rfl, hrest⟩ := token?_end h
  rw [← tokens_skip, chars, hrest]
  exact tokens_nil

theorem tokens_of_token {c after : Cursor} {k : Token} (h : c.token? = (some k, after)) :
    tokens c.chars = k :: tokens after.chars := by
  rw [← tokens_skip]
  unfold token? at h
  cases hr : c.skip.rest with
  | nil => simp [hr] at h
  | cons r rs =>
    obtain ⟨hcomment, hblank⟩ := skipFrom_rest hr
    have hchars : c.skip.chars = r.toChar :: rs.map Rune.toChar := by rw [chars, hr, List.map_cons]
    simp only [hr] at h
    rw [hchars]
    split at h
    · rename_i hc
      cases h
      rw [tokens, if_pos hc]
      rfl
    · rename_i hopen
      split at h
      · rename_i hc
        cases h
        rw [tokens, if_neg hopen, if_pos hc]
        rfl
      · rename_i hclose
        split at h
        · rename_i hc
          cases h
          rw [tokens, if_neg hopen, if_neg hclose, if_pos hc]
          rfl
        · rename_i hquote
          split at h
          · rename_i hc
            cases h
            rw [tokens, if_neg hopen, if_neg hclose, if_neg hquote, if_pos hc]
            rfl
          · rename_i hdouble
            obtain ⟨htext, hafter⟩ := atomFrom_eq rs (c.skip.pos.advance r)
            have hd : isDelimiter r.toChar = false :=
              isDelimiter_eq_false_iff.2 ⟨hblank, hopen, hclose, hquote, hdouble, hcomment⟩
            rw [List.map_cons, htext] at h
            cases h
            rw [tokens_atom hd, hafter]

end Cursor

end LispMachine.Source
