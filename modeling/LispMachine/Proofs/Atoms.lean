/-
Atoms that are numbers.

`Pattern` says by regular expressions which texts are numerals: integers, and doubles with a point or an exponent. The shape of a
text, found by going through its characters once, is that of an integer or of a double exactly if the text is in one of these
languages (`Shape.ofChars_eq_integer_iff`, `Shape.ofChars_eq_float_iff`). The readers of numerals are others and know more
spellings; they accept whatever has such a shape, so the value of an atom is never one that stands for a text that cannot be read
(`Atom.ofText_classifies`).
-/
import Mathlib.Computability.RegularExpressions
import Mathlib.Data.List.TakeWhile
import Mathlib.Tactic
import LispMachine.Source.Atom

namespace LispMachine

namespace Decimal

/-! ## Signs and digits -/

/-- a run of digits before something else -/
theorem digits_append {cs rest : List Char} (hcs : ∀ c ∈ cs, isDigit c = true) (hrest : ∀ c ∈ rest.head?, isDigit c = false) :
    digits (cs ++ rest) = (cs, rest) := by
  unfold digits
  have htake : rest.takeWhile isDigit = [] := by
    cases rest with
    | nil => rfl
    | cons c rest => simp [hrest c rfl]
  have hdrop : rest.dropWhile isDigit = rest := by
    cases rest with
    | nil => rfl
    | cons c rest => simp [hrest c rfl]
  rw [List.takeWhile_append_of_pos hcs, List.dropWhile_append_of_pos hcs, htake, hdrop, List.append_nil]

theorem digits_all {cs : List Char} (hcs : ∀ c ∈ cs, isDigit c = true) : digits cs = (cs, []) := by
  have h : digits (cs ++ []) = (cs, []) := digits_append hcs (by simp)
  rwa [List.append_nil] at h

/-- every text is digits and a rest that starts with none -/
theorem exists_digits (cs : List Char) : ∃ ds rest, cs = ds ++ rest ∧ (∀ c ∈ ds, isDigit c = true) ∧
    (∀ c ∈ rest.head?, isDigit c = false) ∧ digits cs = (ds, rest) := by
  refine ⟨cs.takeWhile isDigit, cs.dropWhile isDigit, List.takeWhile_append_dropWhile.symm,
    fun c hc => List.mem_takeWhile_imp hc, fun c hc => ?_, rfl⟩
  have hhead := List.head?_dropWhile_not isDigit cs
  rw [Option.mem_def.1 hc] at hhead
  simpa using hhead

/-- no more than one sign is taken -/
theorem sign_append {s cs : List Char} (hs : s = [] ∨ s = ['+'] ∨ s = ['-']) (hcs : ∀ c ∈ cs.head?, c ≠ '+' ∧ c ≠ '-') :
    sign (s ++ cs) = (decide (s = ['-']), cs) := by
  rcases hs with rfl | rfl | rfl
  · unfold sign
    rw [List.nil_append]
    split
    · exact absurd rfl (hcs '-' rfl).2
    · exact absurd rfl (hcs '+' rfl).1
    · rfl
  · rfl
  · rfl

theorem exists_sign (cs : List Char) : ∃ s, (s = [] ∨ s = ['+'] ∨ s = ['-']) ∧ cs = s ++ (sign cs).2 := by
  unfold sign
  split
  · exact ⟨['-'], by simp, rfl⟩
  · exact ⟨['+'], by simp, rfl⟩
  · exact ⟨[], by simp, rfl⟩

end Decimal

namespace Source

open Decimal (isDigit sign digits)

/-! ## Regular expressions -/

namespace Pattern

open RegularExpression (char)

/-- `[0-9]` -/
def digit : RegularExpression Char := ("0123456789".toList.map char).sum

/-- `[0-9]+` -/
def digits : RegularExpression Char := digit * digit.star

/-- `[+-]?` -/
def sign : RegularExpression Char := 1 + (char '+' + char '-')

/-- `[+-]?[0-9]+` -/
def integer : RegularExpression Char := sign * digits

/-- `[eE][+-]?[0-9]+` -/
def exponent : RegularExpression Char := (char 'e' + char 'E') * (sign * digits)

/-- `[0-9]+\.[0-9]*|\.[0-9]+` -/
def pointed : RegularExpression Char := digits * (char '.' * digit.star) + char '.' * digits

/-- `[+-]?[0-9]+[eE][+-]?[0-9]+` or `[+-]?([0-9]+\.[0-9]*|\.[0-9]+)([eE][+-]?[0-9]+)?` -/
def float : RegularExpression Char := sign * (digits * exponent) + sign * (pointed * (1 + exponent))

example : (integer.rmatch "+007".toList, float.rmatch "-.5e+1".toList, float.rmatch "1e".toList) = (true, true, false) := by
  decide +kernel

variable {cs : List Char}

theorem mem_char {c : Char} : cs ∈ (char c).matches' ↔ cs = [c] := Iff.rfl

theorem mem_sum {l : List Char} : cs ∈ (l.map char).sum.matches' ↔ ∃ c ∈ l, cs = [c] := by
  induction l with
  | nil => simp [Language.notMem_zero]
  | cons c l ih =>
    rw [List.map_cons, List.sum_cons, RegularExpression.matches'_add, Language.mem_add, ih, mem_char]
    simp

theorem mem_decimals {c : Char} : c ∈ "0123456789".toList ↔ isDigit c = true := by
  refine ⟨fun h => ?_, fun h => ?_⟩
  · have hall : "0123456789".toList.all isDigit = true := by decide
    exact List.all_eq_true.1 hall c h
  · have hn : ∀ n < 58, 48 ≤ n → Char.ofNat n ∈ "0123456789".toList := by decide
    simp only [Decimal.isDigit, Bool.and_eq_true, decide_eq_true_eq, Char.le_def, UInt32.le_iff_toNat_le] at h
    have h48 : 48 ≤ c.toNat := h.1
    have h57 : c.toNat ≤ 57 := h.2
    rw [← Char.ofNat_toNat c]
    exact hn c.toNat (by omega) h48

theorem mem_digit : cs ∈ digit.matches' ↔ ∃ c, isDigit c = true ∧ cs = [c] := by
  simp only [digit, mem_sum, mem_decimals]

theorem mem_star : cs ∈ digit.star.matches' ↔ ∀ c ∈ cs, isDigit c = true := by
  rw [RegularExpression.matches'_star, Language.mem_kstar]
  constructor
  · rintro ⟨words, rfl, hwords⟩ c hc
    obtain ⟨word, hword, hc⟩ := List.mem_flatten.1 hc
    obtain ⟨d, hd, rfl⟩ := mem_digit.1 (hwords word hword)
    rwa [List.mem_singleton.1 hc]
  · intro hcs
    refine ⟨cs.map ([·]), by rw [← List.flatMap_def, List.flatMap_singleton'], fun word hword => ?_⟩
    obtain ⟨c, hc, rfl⟩ := List.mem_map.1 hword
    exact mem_digit.2 ⟨c, hcs c hc, rfl⟩

theorem mem_digits : cs ∈ digits.matches' ↔ cs ≠ [] ∧ ∀ c ∈ cs, isDigit c = true := by
  rw [digits, RegularExpression.matches'_mul, Language.mem_mul]
  constructor
  · rintro ⟨_, hdigit, ds, hds, rfl⟩
    obtain ⟨c, hc, rfl⟩ := mem_digit.1 hdigit
    exact ⟨by simp, List.forall_mem_cons.2 ⟨hc, mem_star.1 hds⟩⟩
  · rintro ⟨hne, hcs⟩
    obtain ⟨c, ds, rfl⟩ := List.exists_cons_of_ne_nil hne
    rw [List.forall_mem_cons] at hcs
    exact ⟨[c], mem_digit.2 ⟨c, hcs.1, rfl⟩, ds, mem_star.2 hcs.2, rfl⟩

theorem mem_sign : cs ∈ sign.matches' ↔ cs = [] ∨ cs = ['+'] ∨ cs = ['-'] := by
  simp only [sign, RegularExpression.matches'_add, RegularExpression.matches'_epsilon, Language.mem_add, Language.mem_one,
    mem_char]

/-- an integer is a sign and digits -/
theorem mem_integer : cs ∈ integer.matches' ↔ ∃ s ∈ sign.matches', ∃ ds ∈ digits.matches', s ++ ds = cs := by
  rw [integer, RegularExpression.matches'_mul, Language.mem_mul]

theorem mem_exponent : cs ∈ exponent.matches' ↔ ∃ c x, (c = 'e' ∨ c = 'E') ∧ x ∈ integer.matches' ∧ cs = c :: x := by
  rw [exponent, RegularExpression.matches'_mul, Language.mem_mul]
  constructor
  · rintro ⟨_, hc, x, hx, rfl⟩
    rcases hc with rfl | rfl
    · exact ⟨'e', x, .inl rfl, hx, rfl⟩
    · exact ⟨'E', x, .inr rfl, hx, rfl⟩
  · rintro ⟨c, x, rfl | rfl, hx, rfl⟩
    · exact ⟨['e'], .inl rfl, x, hx, rfl⟩
    · exact ⟨['E'], .inr rfl, x, hx, rfl⟩

/-- digits with a point after or before them -/
theorem mem_pointed : cs ∈ pointed.matches' ↔ ∃ whole fraction, (∀ c ∈ whole, isDigit c = true) ∧
    (∀ c ∈ fraction, isDigit c = true) ∧ ¬ (whole = [] ∧ fraction = []) ∧ cs = whole ++ '.' :: fraction := by
  simp only [pointed, RegularExpression.matches'_add, RegularExpression.matches'_mul, Language.mem_add, Language.mem_mul]
  constructor
  · rintro (⟨whole, hwhole, _, ⟨_, rfl, fraction, hfraction, rfl⟩, rfl⟩ | ⟨_, rfl, fraction, hfraction, rfl⟩)
    · have hwhole := mem_digits.1 hwhole
      exact ⟨whole, fraction, hwhole.2, mem_star.1 hfraction, fun h => hwhole.1 h.1, rfl⟩
    · have hfraction := mem_digits.1 hfraction
      exact ⟨[], fraction, by simp, hfraction.2, fun h => hfraction.1 h.2, rfl⟩
  · rintro ⟨whole, fraction, hwhole, hfraction, hne, rfl⟩
    by_cases h : whole = []
    · subst h
      exact .inr ⟨['.'], rfl, fraction, mem_digits.2 ⟨fun hf => hne ⟨rfl, hf⟩, hfraction⟩, rfl⟩
    · exact .inl ⟨whole, mem_digits.2 ⟨h, hwhole⟩, '.' :: fraction, ⟨['.'], rfl, fraction, mem_star.2 hfraction, rfl⟩, rfl⟩

/-- a double is a sign and digits with an exponent, or with a point and perhaps an exponent -/
theorem mem_float : cs ∈ float.matches' ↔ ∃ s ∈ sign.matches', ∃ body x, cs = s ++ (body ++ x) ∧
    (body ∈ digits.matches' ∧ x ∈ exponent.matches' ∨ body ∈ pointed.matches' ∧ (x = [] ∨ x ∈ exponent.matches')) := by
  simp only [float, RegularExpression.matches'_add, RegularExpression.matches'_mul, RegularExpression.matches'_epsilon,
    Language.mem_add, Language.mem_mul, Language.mem_one]
  constructor
  · rintro (⟨s, hs, _, ⟨body, hbody, x, hx, rfl⟩, rfl⟩ | ⟨s, hs, _, ⟨body, hbody, x, hx, rfl⟩, rfl⟩)
    · exact ⟨s, hs, body, x, rfl, .inl ⟨hbody, hx⟩⟩
    · exact ⟨s, hs, body, x, rfl, .inr ⟨hbody, hx⟩⟩
  · rintro ⟨s, hs, body, x, rfl, ⟨hbody, hx⟩ | ⟨hbody, hx⟩⟩
    · exact .inl ⟨s, hs, _, ⟨body, hbody, x, hx, rfl⟩, rfl⟩
    · exact .inr ⟨s, hs, _, ⟨body, hbody, x, hx, rfl⟩, rfl⟩

end Pattern

/-! ## Shapes -/

namespace Shape

variable {cs whole rest s : List Char}

theorem not_sign_of_isDigit {c : Char} (hc : isDigit c = true) : c ≠ '+' ∧ c ≠ '-' := by
  constructor <;> rintro rfl <;> cases hc

/-- a sign before digits -/
theorem sign_digits (hs : s ∈ Pattern.sign.matches') (hwhole : ∀ c ∈ whole, isDigit c = true) :
    sign (s ++ whole) = (decide (s = ['-']), whole) :=
  Decimal.sign_append (Pattern.mem_sign.1 hs) fun c hc => not_sign_of_isDigit (hwhole c (List.mem_of_mem_head? hc))

theorem ofChars_append (hs : s ∈ Pattern.sign.matches') (hwhole : ∀ c ∈ whole, isDigit c = true)
    (hrest : ∀ c ∈ rest.head?, isDigit c = false) (hstart : ∀ c ∈ (whole ++ rest).head?, c ≠ '+' ∧ c ≠ '-') :
    ofChars (s ++ (whole ++ rest)) = ofParts whole rest := by
  unfold ofChars
  rw [Decimal.sign_append (Pattern.mem_sign.1 hs) hstart]
  simp only [Decimal.digits_append hwhole hrest]

/-- every text has parts from which its shape is found -/
theorem exists_parts (cs : List Char) : ∃ s ∈ Pattern.sign.matches', ∃ whole rest, cs = s ++ (whole ++ rest) ∧
    (∀ c ∈ whole, isDigit c = true) ∧ (∀ c ∈ rest.head?, isDigit c = false) ∧ digits (sign cs).2 = (whole, rest) := by
  obtain ⟨s, hs, hcs⟩ := Decimal.exists_sign cs
  obtain ⟨whole, rest, hbody, hwhole, hrest, hdigits⟩ := Decimal.exists_digits (sign cs).2
  exact ⟨s, Pattern.mem_sign.2 hs, whole, rest, by rw [← hbody, ← hcs], hwhole, hrest, hdigits⟩

theorem isExponent_iff : isExponent cs = true ↔ cs ∈ Pattern.integer.matches' := by
  rw [Pattern.mem_integer]
  constructor
  · intro h
    obtain ⟨s, hs, whole, rest, hcs, hwhole, -, hdigits⟩ := exists_parts cs
    simp only [isExponent, hdigits, Bool.and_eq_true, decide_eq_true_eq] at h
    obtain ⟨hne, rfl⟩ := h
    exact ⟨s, hs, whole, Pattern.mem_digits.2 ⟨hne, hwhole⟩, by rw [hcs, List.append_nil]⟩
  · rintro ⟨s, hs, ds, hds, rfl⟩
    obtain ⟨hne, hds⟩ := Pattern.mem_digits.1 hds
    simp [isExponent, sign_digits hs hds, Decimal.digits_all hds, hne]

theorem ofParts_eq_integer_iff : ofParts whole rest = .integer ↔ whole ≠ [] ∧ rest = [] := by
  cases rest with
  | nil => simp [ofParts]
  | cons c after =>
    refine ⟨fun h => ?_, fun h => absurd h.2 (by simp)⟩
    simp only [ofParts] at h
    repeat' split at h
    all_goals cases h

theorem ofChars_eq_integer_iff : ofChars cs = .integer ↔ cs ∈ Pattern.integer.matches' := by
  rw [Pattern.mem_integer]
  constructor
  · intro h
    obtain ⟨s, hs, whole, rest, hcs, hwhole, -, hdigits⟩ := exists_parts cs
    simp only [ofChars, hdigits] at h
    obtain ⟨hne, rfl⟩ := ofParts_eq_integer_iff.1 h
    exact ⟨s, hs, whole, Pattern.mem_digits.2 ⟨hne, hwhole⟩, by rw [hcs, List.append_nil]⟩
  · rintro ⟨s, hs, ds, hds, rfl⟩
    obtain ⟨hne, hds⟩ := Pattern.mem_digits.1 hds
    simp only [ofChars, sign_digits hs hds, Decimal.digits_all hds]
    exact ofParts_eq_integer_iff.2 ⟨hne, rfl⟩

theorem mem_exponent_cons {c : Char} {after : List Char} :
    c :: after ∈ Pattern.exponent.matches' ↔ (c = 'e' ∨ c = 'E') ∧ isExponent after = true := by
  rw [Pattern.mem_exponent, isExponent_iff]
  constructor
  · rintro ⟨d, x, hd, hx, heq⟩
    cases heq
    exact ⟨hd, hx⟩
  · rintro ⟨hc, hafter⟩
    exact ⟨c, after, hc, hafter, rfl⟩

theorem not_mem_exponent_nil : ([] : List Char) ∉ Pattern.exponent.matches' := fun h => by
  obtain ⟨_, _, -, -, h⟩ := Pattern.mem_exponent.1 h
  cases h

/-- an exponent starts with no digit -/
theorem isDigit_of_mem_exponent {x : List Char} (hx : x ∈ Pattern.exponent.matches') : ∀ c ∈ x.head?, isDigit c = false := by
  obtain ⟨c, x, hc, -, rfl⟩ := Pattern.mem_exponent.1 hx
  rintro d hd
  cases hd
  rcases hc with rfl | rfl <;> rfl

theorem ofParts_mark {c : Char} {after : List Char} (hc : c = 'e' ∨ c = 'E') :
    ofParts whole (c :: after) = .float ↔ whole ≠ [] ∧ isExponent after = true := by
  simp only [ofParts, if_pos hc]
  split_ifs with h
  · exact iff_of_true rfl h
  · exact iff_of_false (by simp) h

/-- after a point come digits, and perhaps an exponent; there are digits on one side at least -/
theorem ofParts_point {after : List Char} : ofParts whole ('.' :: after) = .float ↔ ∃ fraction x, after = fraction ++ x ∧
    (∀ c ∈ fraction, isDigit c = true) ∧ ¬ (whole = [] ∧ fraction = []) ∧ (x = [] ∨ x ∈ Pattern.exponent.matches') := by
  obtain ⟨fraction, tail, hafter, hfraction, -, hdigits⟩ := Decimal.exists_digits after
  have hmark : ¬ ('.' = 'e' ∨ '.' = 'E') := by decide
  simp only [ofParts, if_neg hmark, if_true, hdigits]
  constructor
  · intro h
    split_ifs at h with hnone
    refine ⟨fraction, tail, hafter, hfraction, hnone, ?_⟩
    split at h
    · exact .inl rfl
    · split_ifs at h with hx
      exact .inr (mem_exponent_cons.2 hx)
  · rintro ⟨fraction', x, heq, hfraction', hsome, hx⟩
    -- the digits before the exponent are all that come after the point
    have hstart : ∀ c ∈ x.head?, isDigit c = false := by
      rcases hx with rfl | hx
      · simp
      · exact isDigit_of_mem_exponent hx
    obtain ⟨rfl, rfl⟩ : fraction' = fraction ∧ x = tail := by
      have := (Decimal.digits_append hfraction' hstart).symm.trans (heq ▸ hdigits)
      simpa using this
    rw [if_neg hsome]
    cases x with
    | nil => rfl
    | cons c x => exact if_pos (mem_exponent_cons.1 (hx.resolve_left (List.cons_ne_nil c x)))

theorem ofParts_eq_float_iff : ofParts whole rest = .float ↔ whole ≠ [] ∧ rest ∈ Pattern.exponent.matches' ∨
    ∃ fraction x, rest = '.' :: (fraction ++ x) ∧ (∀ c ∈ fraction, isDigit c = true) ∧ ¬ (whole = [] ∧ fraction = []) ∧
      (x = [] ∨ x ∈ Pattern.exponent.matches') := by
  cases rest with
  | nil =>
    simp only [ofParts, not_mem_exponent_nil, and_false, false_or]
    refine ⟨fun h => ?_, fun ⟨_, _, h, _⟩ => by cases h⟩
    split_ifs at h
  | cons c after =>
    rw [mem_exponent_cons]
    by_cases hmark : c = 'e' ∨ c = 'E'
    · have hpoint : c ≠ '.' := by rintro rfl; simp at hmark
      simp [ofParts_mark hmark, hmark, hpoint]
    by_cases hpoint : c = '.'
    · subst hpoint
      simp [ofParts_point]
    · simp [ofParts, hmark, hpoint]

theorem ofChars_eq_float_iff : ofChars cs = .float ↔ cs ∈ Pattern.float.matches' := by
  rw [Pattern.mem_float]
  constructor
  · intro h
    obtain ⟨s, hs, whole, rest, hcs, hwhole, -, hdigits⟩ := exists_parts cs
    simp only [ofChars, hdigits] at h
    rcases ofParts_eq_float_iff.1 h with ⟨hne, hx⟩ | ⟨fraction, x, rfl, hfraction, hsome, hx⟩
    · exact ⟨s, hs, whole, rest, hcs, .inl ⟨Pattern.mem_digits.2 ⟨hne, hwhole⟩, hx⟩⟩
    · refine ⟨s, hs, whole ++ '.' :: fraction, x, by rw [hcs]; simp, .inr ⟨?_, hx⟩⟩
      exact Pattern.mem_pointed.2 ⟨whole, fraction, hwhole, hfraction, hsome, rfl⟩
  · rintro ⟨s, hs, body, x, rfl, ⟨hbody, hx⟩ | ⟨hbody, hx⟩⟩
    · obtain ⟨hne, hbody⟩ := Pattern.mem_digits.1 hbody
      rw [ofChars_append hs hbody (isDigit_of_mem_exponent hx)]
      · exact ofParts_eq_float_iff.2 (.inl ⟨hne, hx⟩)
      · obtain ⟨c, ds, rfl⟩ := List.exists_cons_of_ne_nil hne
        rintro d hd
        cases hd
        exact not_sign_of_isDigit (hbody c List.mem_cons_self)
    · obtain ⟨whole, fraction, hwhole, hfraction, hsome, rfl⟩ := Pattern.mem_pointed.1 hbody
      rw [List.append_assoc, List.cons_append, ofChars_append hs hwhole]
      · exact ofParts_eq_float_iff.2 (.inr ⟨fraction, x, rfl, hfraction, hsome, hx⟩)
      · rintro d hd
        cases hd
        rfl
      · cases whole with
        | nil =>
          rintro d hd
          cases hd
          decide
        | cons c whole =>
          rintro d hd
          cases hd
          exact not_sign_of_isDigit (hwhole c List.mem_cons_self)

/-! ## Numerals can be read -/

theorem isSome_exponent? (cs : List Char) : (Decimal.exponent? cs).isSome = isExponent cs := by
  obtain ⟨s, -, whole, rest, -, -, -, hdigits⟩ := exists_parts cs
  simp only [Decimal.exponent?, isExponent, hdigits]
  by_cases h : whole = [] ∨ rest ≠ []
  · rw [if_pos h]
    rcases h with h | h <;> simp [h]
  · rw [if_neg h]
    rw [not_or, not_not] at h
    simp [h]

/-- what has the shape of a number is a plain numeral -/
theorem isSome_parse? (h : ofChars cs ≠ .symbol) : (Decimal.Numeral.parse? cs).isSome := by
  obtain ⟨s, -, whole, rest, -, -, -, hdigits⟩ := exists_parts cs
  simp only [ofChars, hdigits] at h
  -- what follows the digits is an exponent
  have hmarked {c : Char} {after : List Char} (he : c = 'e' ∨ c = 'E') (hx : isExponent after = true)
      (f : ℤ → Decimal.Numeral) :
      (if c = 'e' ∨ c = 'E' then (Decimal.exponent? after).map f else none).isSome := by
    rw [if_pos he, Option.isSome_map, isSome_exponent?]
    exact hx
  simp only [Decimal.Numeral.parse?, hdigits]
  split
  · rename_i after
    have he : ¬ ('.' = 'e' ∨ '.' = 'E') := by decide
    simp only [ofParts, if_neg he, if_true] at h
    obtain ⟨fraction, tail, -, -, -, hafter⟩ := Decimal.exists_digits after
    simp only [hafter] at h ⊢
    split_ifs at h ⊢ with hnone
    · exact absurd rfl h
    · cases tail with
      | nil => rfl
      | cons c after =>
        dsimp only at h ⊢
        split_ifs at h with hx
        · exact hmarked hx.1 hx.2 _
        · exact absurd rfl h
  · rename_i hpoint
    cases rest with
    | nil =>
      have hne : whole ≠ [] := fun hnil => h (by simp [ofParts, hnil])
      simp [hne]
    | cons c after =>
      have hpoint : c ≠ '.' := by
        rintro rfl
        exact hpoint after rfl
      simp only [ofParts, if_neg hpoint] at h
      split_ifs at h with he hx
      · simp only [hx.1, false_and, if_false]
        exact hmarked he hx.2 _
      · exact absurd rfl h
      · exact absurd rfl h

/-- the characters that numerals are written with -/
def alphabet : List Char := "0123456789+-.eE".toList

theorem mem_alphabet_of_isDigit {c : Char} (hc : isDigit c = true) : c ∈ alphabet := by
  have hsub : "0123456789".toList ⊆ alphabet := List.subset_append_left _ "+-.eE".toList
  exact hsub (Pattern.mem_decimals.2 hc)

theorem mem_alphabet_of_sign (hs : s ∈ Pattern.sign.matches') : ∀ c ∈ s, c ∈ alphabet := by
  rcases Pattern.mem_sign.1 hs with rfl | rfl | rfl
  · exact List.forall_mem_nil _
  all_goals exact List.forall_mem_singleton.2 (by decide)

theorem mem_alphabet_of_integer (h : cs ∈ Pattern.integer.matches') : ∀ c ∈ cs, c ∈ alphabet := by
  obtain ⟨s, hs, ds, hds, rfl⟩ := Pattern.mem_integer.1 h
  exact List.forall_mem_append.2
    ⟨mem_alphabet_of_sign hs, fun c hc => mem_alphabet_of_isDigit ((Pattern.mem_digits.1 hds).2 c hc)⟩

theorem mem_alphabet_of_exponent (h : cs ∈ Pattern.exponent.matches') : ∀ c ∈ cs, c ∈ alphabet := by
  obtain ⟨c, x, hc, hx, rfl⟩ := Pattern.mem_exponent.1 h
  refine List.forall_mem_cons.2 ⟨?_, mem_alphabet_of_integer hx⟩
  rcases hc with rfl | rfl <;> decide

theorem mem_alphabet (h : ofChars cs ≠ .symbol) : ∀ c ∈ cs, c ∈ alphabet := by
  cases hshape : ofChars cs with
  | symbol => exact absurd hshape h
  | integer => exact mem_alphabet_of_integer (ofChars_eq_integer_iff.1 hshape)
  | float =>
    obtain ⟨s, hs, body, x, rfl, hparts⟩ := Pattern.mem_float.1 (ofChars_eq_float_iff.1 hshape)
    have hbody : ∀ c ∈ body, c ∈ alphabet := by
      rcases hparts with ⟨hbody, -⟩ | ⟨hbody, -⟩
      · exact fun c hc => mem_alphabet_of_isDigit ((Pattern.mem_digits.1 hbody).2 c hc)
      · obtain ⟨whole, fraction, hwhole, hfraction, -, rfl⟩ := Pattern.mem_pointed.1 hbody
        exact List.forall_mem_append.2 ⟨fun c hc => mem_alphabet_of_isDigit (hwhole c hc),
          List.forall_mem_cons.2 ⟨by decide, fun c hc => mem_alphabet_of_isDigit (hfraction c hc)⟩⟩
    have hx : ∀ c ∈ x, c ∈ alphabet := by
      rcases hparts with ⟨-, hx⟩ | ⟨-, rfl | hx⟩
      · exact mem_alphabet_of_exponent hx
      · simp
      · exact mem_alphabet_of_exponent hx
    exact List.forall_mem_append.2 ⟨mem_alphabet_of_sign hs, List.forall_mem_append.2 ⟨hbody, hx⟩⟩

end Shape

end Source

namespace Decimal

open Source (Shape)

theorem underscoresPart_of_none (digit : Char → Bool) {cs : List Char} (h : '_' ∉ cs) (before : Bool) :
    underscoresPart digit before cs = true := by
  induction cs generalizing before with
  | nil => cases before <;> rfl
  | cons c cs ih =>
    rw [List.mem_cons, not_or] at h
    have hc : c ≠ '_' := fun hc => h.1 hc.symm
    unfold underscoresPart
    split
    · rfl
    · rename_i heq
      cases heq
      exact absurd rfl hc
    · rename_i heq
      cases heq
      simp [hc, ih h.2]

/-- a text in the alphabet of numerals has no other spelling than a plain one -/
theorem parse?_plain {text : String} (h : ∀ c ∈ text.toList, c ∈ Shape.alphabet) :
    parse? text = (Numeral.parse? text.toList).map Numeral.value := by
  obtain ⟨s, -, hcs⟩ := exists_sign text.toList
  generalize hsign : sign text.toList = parts at hcs
  obtain ⟨negative, body⟩ := parts
  rw [hcs] at h
  have hbody : ∀ c ∈ body, c ∈ Shape.alphabet := fun c hc => h c (List.mem_append_right _ hc)
  have hother {c : Char} (hc : c ∉ Shape.alphabet) : c ∉ body := fun hmem => hc (hbody c hmem)
  -- every name of a double has an `n` in it
  have hname : 'n' ∉ body.map Char.toLower := by
    have hlower : Shape.alphabet.all (fun c => c.toLower ≠ 'n') = true := by decide
    rw [List.mem_map]
    rintro ⟨c, hc, heq⟩
    simpa [heq] using List.all_eq_true.1 hlower c (hbody c hc)
  have hword (word : String) (hn : 'n' ∈ word.toList) : String.ofList (body.map Char.toLower) ≠ word := by
    rintro rfl
    rw [String.toList_ofList] at hn
    exact hname hn
  have hnamed (signed : Bool) : named? negative signed (String.ofList (body.map Char.toLower)) = none := by
    unfold named?
    rw [if_neg (not_or.2 ⟨hword "inf" (by decide), hword "infinity" (by decide)⟩),
      if_neg fun h => hword "nan" (by decide) h.1]
  have hhex : afterHexMark? body = none := by
    unfold afterHexMark?
    split
    · rename_i x c cs
      have hx : ¬ (x = 'x' ∨ x = 'X') := by
        rintro (rfl | rfl)
        · exact hother (by decide) (List.mem_cons_of_mem _ List.mem_cons_self)
        · exact hother (by decide) (List.mem_cons_of_mem _ List.mem_cons_self)
      exact if_neg hx
    · rfl
  have hunder : '_' ∉ body := hother (by decide)
  have hplain : withoutUnderscores? body = some body := by
    have hfilter : body.filter (· ≠ '_') = body := List.filter_eq_self.2 fun c hc => by
      have : c ≠ '_' := fun heq => hunder (heq ▸ hc)
      simpa using this
    simp only [withoutUnderscores?, hhex, underscoresPart_of_none isDigit hunder, if_true, hfilter]
  have htake : text.toList.take (text.toList.length - body.length) ++ body = text.toList := by
    rw [hcs]
    simp
  simp only [parse?, hsign, hnamed, hplain, Option.none_or, Option.bind_some, hhex, htake]

theorem isSome_parse? {text : String} (h : Shape.ofChars text.toList ≠ .symbol) : (parse? text).isSome := by
  rw [parse?_plain (Shape.mem_alphabet h), Option.isSome_map]
  exact Shape.isSome_parse? h

end Decimal

namespace Source

open Decimal (sign)

/-! ## Integers -/

/-- the exact value of a sign and digits -/
def decimal : List Char → Int
  | '-' :: ds => -(Nat.ofDigitChars 10 ds 0 : Int)
  | '+' :: ds => Nat.ofDigitChars 10 ds 0
  | ds => Nat.ofDigitChars 10 ds 0

theorem decimal_eq (cs : List Char) : decimal cs =
    if (sign cs).1 then -(Nat.ofDigitChars 10 (sign cs).2 0 : Int) else Nat.ofDigitChars 10 (sign cs).2 0 := by
  unfold decimal sign
  split
  · rfl
  · rfl
  · split <;> simp_all

end Source

namespace Text.Integer

open Source

theorem sign_eq (cs : List Char) : sign cs = Decimal.sign cs := rfl

theorem digit?_of_isDigit {c : Char} (hc : Decimal.isDigit c = true) : digit? c = some (c.toNat - 48) ∧ c.toNat - 48 < 10 := by
  simp only [Decimal.isDigit, Bool.and_eq_true, decide_eq_true_eq] at hc
  refine ⟨if_pos hc, ?_⟩
  have h57 : c.toNat ≤ 57 := hc.2
  omega

/-- digits only get larger -/
theorem le_ofDigitChars (ds : List Char) (n : Nat) : n ≤ Nat.ofDigitChars 10 ds n := by
  induction ds generalizing n with
  | nil => exact Nat.le_refl n
  | cons c ds ih =>
    rw [Nat.ofDigitChars_cons]
    have := ih (10 * n + (c.toNat - '0'.toNat))
    omega

/-- digits are a number, or one that is too large -/
theorem magnitude_digits {ds : List Char} (hds : ∀ c ∈ ds, Decimal.isDigit c = true) {n : Nat} (hn : n < 0x10000000000000000) :
    magnitude 10 false ds n =
      if Nat.ofDigitChars 10 ds n < 0x10000000000000000 then .ok (Nat.ofDigitChars 10 ds n) else .error .range := by
  induction ds generalizing n with
  | nil => exact (if_pos hn).symm
  | cons c ds ih =>
    rw [List.forall_mem_cons] at hds
    obtain ⟨hdigit, hlt⟩ := digit?_of_isDigit hds.1
    have hnext : 10 * n + (c.toNat - '0'.toNat) = n * 10 + (c.toNat - 48) := by
      rw [Nat.mul_comm]
      rfl
    rw [magnitude, if_neg (by simp), Nat.ofDigitChars_cons, hnext]
    simp only [hdigit]
    rw [if_neg (by omega)]
    split
    · rename_i hlarge
      have := le_ofDigitChars ds (n * 10 + (c.toNat - 48))
      rw [if_neg (by omega)]
    · rename_i hsmall
      exact ih hds.2 (by omega)

/-- An integer is read exactly, or it is too large for 64 bits. -/
theorem parse_integer {text : String} (h : text.toList ∈ Pattern.integer.matches') :
    parse text = if -0x8000000000000000 ≤ decimal text.toList ∧ decimal text.toList < 0x8000000000000000
      then .ok (decimal text.toList) else .error .range := by
  obtain ⟨s, hs, ds, hds, hcs⟩ := Pattern.mem_integer.1 h
  obtain ⟨hne, hds⟩ := Pattern.mem_digits.1 hds
  rw [decimal_eq, parse, sign_eq, ← hcs, Shape.sign_digits hs hds]
  simp only [if_neg hne, magnitude_digits hds (Nat.zero_lt_succ _)]
  generalize Nat.ofDigitChars 10 ds 0 = n
  generalize decide (s = ['-']) = negative
  by_cases hn : n < 0x10000000000000000
  · rw [if_pos hn]
    simp only [bind, Except.bind, signed]
    cases negative
    all_goals
      simp only [if_true, Bool.false_eq_true, if_false]
      split_ifs <;> first | rfl | omega
  · rw [if_neg hn, if_neg]
    · rfl
    · split_ifs <;> omega

end Text.Integer

namespace Source.Atom

/-! ## Atoms -/

/-- what an atom is, by its text alone -/
inductive Means (text : String) : Atom → Prop where
  | t : text = "t" → Means text .t
  | nil : text = "nil" → Means text .nil
  /-- an integer that fits in 32 bits -/
  | int {n : Int32} : text.toList ∈ Pattern.integer.matches' → n.toInt = decimal text.toList → Means text (.number (.int n))
  /-- an integer that does not -/
  | large {x : Float} : text.toList ∈ Pattern.integer.matches' →
      ¬ (-2147483648 ≤ decimal text.toList ∧ decimal text.toList ≤ 2147483647) → Decimal.parse? text = some x →
      Means text (.number (.float x))
  | float {x : Float} : text.toList ∈ Pattern.float.matches' → Decimal.parse? text = some x → Means text (.number (.float x))
  | symbol : text ≠ "t" → text ≠ "nil" → text.toList ∉ Pattern.integer.matches' → text.toList ∉ Pattern.float.matches' →
      Means text (.symbol text)

variable {text : String}

theorem shape_ne_symbol_iff : Shape.ofChars text.toList ≠ .symbol ↔
    text.toList ∈ Pattern.integer.matches' ∨ text.toList ∈ Pattern.float.matches' := by
  rw [← Shape.ofChars_eq_integer_iff, ← Shape.ofChars_eq_float_iff]
  cases Shape.ofChars text.toList <;> decide

/-- the double of a numeral is what the numeral is read as -/
theorem floatOf_eq (h : Shape.ofChars text.toList ≠ .symbol) :
    ∃ x, Decimal.parse? text = some x ∧ floatOf text = .float x := by
  obtain ⟨x, hx⟩ := Option.isSome_iff_exists.1 (Decimal.isSome_parse? h)
  exact ⟨x, hx, by rw [floatOf, hx, Option.getD_some]⟩

/-- the two named atoms are no numbers -/
theorem not_numeral_of_named (h : text = "t" ∨ text = "nil") :
    text.toList ∉ Pattern.integer.matches' ∧ text.toList ∉ Pattern.float.matches' := by
  rw [← not_or, ← shape_ne_symbol_iff, not_not]
  rcases h with rfl | rfl <;> decide

theorem not_named_of_numeral (h : text.toList ∈ Pattern.integer.matches' ∨ text.toList ∈ Pattern.float.matches') :
    text ≠ "t" ∧ text ≠ "nil" := by
  rw [← not_or]
  intro hnamed
  obtain ⟨hi, hf⟩ := not_numeral_of_named hnamed
  exact h.elim hi hf

/-- an integer is a number of 32 bits or, if it does not fit, a double -/
theorem ofText_of_integer (h : text.toList ∈ Pattern.integer.matches') : ofText text =
    .number (if Number.fits (decimal text.toList) then .int (Int32.ofInt (decimal text.toList)) else floatOf text) := by
  obtain ⟨ht, hnil⟩ := not_named_of_numeral (.inl h)
  rw [ofText, if_neg ht, if_neg hnil, Shape.ofChars_eq_integer_iff.2 h]
  simp only [Text.Integer.parse_integer h]
  split_ifs with hwide hfits hfits
  · simp only [hfits, if_true]
  · simp only [hfits, Bool.false_eq_true, if_false]
  · simp only [Number.fits, Bool.and_eq_true, decide_eq_true_eq] at hfits
    exact absurd (by omega) hwide
  · rfl

theorem ofText_of_float (h : text.toList ∈ Pattern.float.matches') : ofText text = .number (floatOf text) := by
  obtain ⟨ht, hnil⟩ := not_named_of_numeral (.inr h)
  rw [ofText, if_neg ht, if_neg hnil, Shape.ofChars_eq_float_iff.2 h]

theorem ofText_of_not_numeral (ht : text ≠ "t") (hnil : text ≠ "nil")
    (h : ¬ (text.toList ∈ Pattern.integer.matches' ∨ text.toList ∈ Pattern.float.matches')) : ofText text = .symbol text := by
  rw [← shape_ne_symbol_iff, not_not] at h
  rw [ofText, if_neg ht, if_neg hnil, h]

theorem means_ofText (text : String) : Means text (ofText text) := by
  by_cases ht : text = "t"
  · rw [ofText, if_pos ht]
    exact .t ht
  by_cases hnil : text = "nil"
  · rw [ofText, if_neg ht, if_pos hnil]
    exact .nil hnil
  by_cases hi : text.toList ∈ Pattern.integer.matches'
  · rw [ofText_of_integer hi]
    split_ifs with hfits <;> simp only [Number.fits, Bool.and_eq_true, decide_eq_true_eq] at hfits
    · exact .int hi (Int32.toInt_ofInt_of_le hfits.1 (by omega))
    · obtain ⟨x, hx, hfloat⟩ := floatOf_eq (shape_ne_symbol_iff.2 (.inl hi))
      rw [hfloat]
      exact .large hi hfits hx
  by_cases hf : text.toList ∈ Pattern.float.matches'
  · obtain ⟨x, hx, hfloat⟩ := floatOf_eq (shape_ne_symbol_iff.2 (.inr hf))
    rw [ofText_of_float hf, hfloat]
    exact .float hf hx
  · rw [ofText_of_not_numeral ht hnil (not_or.2 ⟨hi, hf⟩)]
    exact .symbol ht hnil hi hf

theorem Means.eq {a : Atom} (h : Means text a) : ofText text = a := by
  cases h with
  | t h => exact if_pos h
  | nil h =>
    subst h
    decide
  | @int n hi hn =>
    have hfits : Number.fits (decimal text.toList) = true := by
      have := n.toInt_lt
      have := n.le_toInt
      simp only [Number.fits, Bool.and_eq_true, decide_eq_true_eq]
      omega
    rw [ofText_of_integer hi, if_pos hfits, ← hn, Int32.ofInt_toInt]
  | large hi hlarge hx =>
    have hfits : ¬ Number.fits (decimal text.toList) = true := by
      simpa only [Number.fits, Bool.and_eq_true, decide_eq_true_eq] using hlarge
    rw [ofText_of_integer hi, if_neg hfits, floatOf, hx, Option.getD_some]
  | float hf hx => rw [ofText_of_float hf, floatOf, hx, Option.getD_some]
  | symbol ht hnil hi hf => exact ofText_of_not_numeral ht hnil (not_or.2 ⟨hi, hf⟩)

/-- A text is an atom by the patterns. What has the pattern of an integer is read exactly or is too large for 64 bits, and every
numeral can be read as a double. -/
theorem ofText_classifies (text : String) :
    (∀ a, ofText text = a ↔ Means text a) ∧
      (text.toList ∈ Pattern.integer.matches' →
        Text.Integer.parse text = .ok (decimal text.toList) ∨ Text.Integer.parse text = .error .range) ∧
      (text.toList ∈ Pattern.integer.matches' ∨ text.toList ∈ Pattern.float.matches' → (Decimal.parse? text).isSome) := by
  refine ⟨fun a => ⟨?_, Means.eq⟩, fun h => ?_, fun h => Decimal.isSome_parse? (shape_ne_symbol_iff.2 h)⟩
  · rintro rfl
    exact means_ofText text
  · rw [Text.Integer.parse_integer h]
    split_ifs
    · exact .inl rfl
    · exact .inr rfl

/-- leading zeros, a value of 33 bits, a lone point, an exponent without digits and a digit of another script -/
example : ["-007", "2147483648", ".", "1e+", "\u0661"].map (fun text => Shape.ofChars text.toList) =
    [.integer, .integer, .symbol, .symbol, .symbol] := by decide

end Source.Atom

end LispMachine
