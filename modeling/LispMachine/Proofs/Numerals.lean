/-
Numbers and their texts.

The text of an integer is its sign and its digits. The text of a finite double is a sign, digits, a point and digits: those of
a decimal in the interval of what rounds to the double, so reading it gives the double back, bit by bit (`Decimal.exists_spelling`).
Both are read as the number they are the text of, and as no other atom.
-/
import LispMachine.Proofs.Atoms
import LispMachine.Proofs.Rounding
import LispMachine.Proofs.Words
import LispMachine.Source.Scanner

namespace LispMachine.Decimal

/-! ## Digits -/

theorem isDigit_eq (c : Char) : isDigit c = c.isDigit := by
  unfold isDigit Char.isDigit
  rfl

theorem digitsValue_eq (cs : List Char) : digitsValue cs = Nat.ofDigitChars 10 cs 0 := rfl

theorem digitsValue_toString (n : Nat) : digitsValue (toString n).toList = n := by
  rw [digitsValue_eq, Nat.toString_eq_repr, Nat.toList_repr, Nat.ofDigitChars_ten_toDigits]

theorem isDigit_of_mem_toString {n : Nat} {c : Char} (h : c ∈ (toString n).toList) : isDigit c = true := by
  rw [Nat.toString_eq_repr, Nat.toList_repr] at h
  rw [isDigit_eq]
  exact Nat.isDigit_of_mem_toDigits (by decide) (by decide) h

theorem toString_ne_nil (n : Nat) : (toString n).toList ≠ [] := by
  rw [Nat.toString_eq_repr, Nat.toList_repr]
  exact Nat.toDigits_ne_nil

/-! ## The interval of a double -/

variable {e f : Nat}

/-- by what the interval is scaled to integers -/
def scale (e : Nat) : Nat :=
  if lastPlace e < 2 then Nat.pow 5 (2 - lastPlace e).toNat else Nat.pow 2 (lastPlace e - 2).toNat

/-- the lower end of the interval in quarters of the last place -/
def quarters (e f : Nat) : Nat := if f = 0 ∧ 1 < e then 4 * significand e f - 1 else 4 * significand e f - 2

theorem ofFields_eq (e f : Nat) : Interval.ofFields e f =
    { low := quarters e f * scale e, centre := 4 * significand e f * scale e, high := (4 * significand e f + 2) * scale e,
      closed := significand e f % 2 = 0, exponent := if lastPlace e < 2 then lastPlace e - 2 else 0 } := rfl

theorem scale_pos (e : Nat) : 0 < scale e := by
  unfold scale
  split <;> exact Nat.pow_pos (by norm_num)

/-- scaled back, a quarter of the last place -/
theorem scale_eq (e f : Nat) : (scale e : ℚ) * 10 ^ (Interval.ofFields e f).exponent = 2 ^ (lastPlace e - 2) := by
  rw [ofFields_eq, scale]
  dsimp only
  split
  · rename_i hplace
    obtain ⟨k, hk⟩ : ∃ k : Nat, lastPlace e - 2 = -k := ⟨(2 - lastPlace e).toNat, by omega⟩
    have hk' : (2 - lastPlace e).toNat = k := by omega
    have hten : (10 : ℚ) = 5 * 2 := by norm_num
    rw [hk, hk', zpow_neg, zpow_neg, zpow_natCast, zpow_natCast, Nat.pow_eq, Nat.cast_pow, Nat.cast_ofNat, hten, mul_pow,
      mul_inv, mul_inv_cancel_left₀ (pow_ne_zero _ (by norm_num))]
  · rename_i hplace
    obtain ⟨k, hk⟩ : ∃ k : Nat, lastPlace e - 2 = k := ⟨(lastPlace e - 2).toNat, by omega⟩
    rw [hk, Int.toNat_natCast, zpow_zero, mul_one, zpow_natCast, Nat.pow_eq, Nat.cast_pow, Nat.cast_ofNat]

theorem quarters_eq (hp : IsPositive e f) : (quarters e f : ℚ) = 4 * (significand e f - gap e f) := by
  have hm := hp.significand_pos
  unfold quarters gap
  split
  · rw [Nat.cast_sub (by omega)]
    push_cast
    ring
  · rw [Nat.cast_sub (by omega)]
    push_cast
    ring

/-- what lies in the interval rounds to the double -/
theorem rounds_of_holds (hp : IsPositive e f) {n : Nat} (h : (Interval.ofFields e f).holds n = true) :
    Rounds e f (n * 10 ^ (Interval.ofFields e f).exponent) := by
  have hpos : (0 : ℚ) < 4 * scale e := mul_pos (by norm_num) (Nat.cast_pos.2 (scale_pos e))
  have hten : (10 : ℚ) ^ (Interval.ofFields e f).exponent ≠ 0 := zpow_ne_zero _ (by norm_num)
  have hunits : (n : ℚ) * 10 ^ (Interval.ofFields e f).exponent / 2 ^ lastPlace e = n / (4 * scale e) := by
    rw [show lastPlace e = 2 + (lastPlace e - 2) by omega, zpow_add₀ two_ne_zero, ← scale_eq e f, ← mul_assoc,
      mul_div_mul_right _ _ hten]
    norm_num
  have hlow : (significand e f - gap e f : ℚ) = (quarters e f * scale e : Nat) / (4 * scale e) := by
    rw [Nat.cast_mul, quarters_eq hp, eq_div_iff hpos.ne']
    ring
  have hhigh : (significand e f + 1 / 2 : ℚ) = ((4 * significand e f + 2) * scale e : Nat) / (4 * scale e) := by
    rw [eq_div_iff hpos.ne']
    push_cast
    ring
  rw [ofFields_eq, Interval.holds] at h
  dsimp only at h
  refine ⟨?_, ?_, fun hodd => ?_⟩
  · rw [hunits, hlow]
    refine div_le_div_of_nonneg_right (Nat.cast_le.2 ?_) hpos.le
    split at h <;> simp only [Bool.and_eq_true, decide_eq_true_eq] at h <;> omega
  · rw [hunits, hhigh]
    refine div_le_div_of_nonneg_right (Nat.cast_le.2 ?_) hpos.le
    split at h <;> simp only [Bool.and_eq_true, decide_eq_true_eq] at h <;> omega
  · have hopen : ¬ decide (significand e f % 2 = 0) = true := by simp [hodd]
    rw [if_neg hopen] at h
    simp only [Bool.and_eq_true, decide_eq_true_eq] at h
    rw [hunits, hlow, hhigh]
    exact ⟨div_lt_div_of_pos_right (Nat.cast_lt.2 h.1) hpos, div_lt_div_of_pos_right (Nat.cast_lt.2 h.2) hpos⟩

/-! ## The shortest decimal -/

theorem pick?_eq_some {i : Interval} {j d : Nat} (h : i.pick? j = some d) : d ≠ 0 ∧ i.holds (d * 10 ^ j) = true := by
  unfold Interval.pick? at h
  dsimp only [Nat.pow_eq] at h
  generalize i.centre / 10 ^ j = c at h
  split at h
  · rename_i hboth
    simp only [Bool.and_eq_true, decide_eq_true_eq] at hboth
    obtain ⟨⟨hc, hdown⟩, hup⟩ := hboth
    split at h
    · cases h
      exact ⟨hc, hdown⟩
    split at h
    · cases h
      exact ⟨Nat.succ_ne_zero _, hup⟩
    · split at h
      · cases h
        exact ⟨hc, hdown⟩
      · cases h
        exact ⟨Nat.succ_ne_zero _, hup⟩
  split at h
  · rename_i hdown
    simp only [Bool.and_eq_true, decide_eq_true_eq] at hdown
    cases h
    exact hdown
  split at h
  · rename_i hup
    cases h
    exact ⟨Nat.succ_ne_zero _, hup⟩
  · cases h

theorem search_holds {i : Interval} (hcentre : i.centre ≠ 0) (hholds : i.holds i.centre = true) (j : Nat) :
    (i.search j).1 ≠ 0 ∧ i.holds ((i.search j).1 * 10 ^ (i.search j).2) = true := by
  induction j with
  | zero =>
    rw [Interval.search]
    cases hpick : i.pick? 0 with
    | some d => exact pick?_eq_some hpick
    | none =>
      rw [Option.getD_none, pow_zero, mul_one]
      exact ⟨hcentre, hholds⟩
  | succ j ih =>
    rw [Interval.search]
    split
    · exact pick?_eq_some ‹_›
    · exact ih

/-- the shortest decimal rounds to the double -/
theorem rounds_shortest (hp : IsPositive e f) :
    (Interval.ofFields e f).shortest.1 ≠ 0 ∧
      Rounds e f ((Interval.ofFields e f).shortest.1 * 10 ^ (Interval.ofFields e f).shortest.2) := by
  have hm := hp.significand_pos
  have hscale := scale_pos e
  have hquarters : quarters e f < 4 * significand e f := by
    unfold quarters
    split <;> omega
  have hlow : quarters e f * scale e < 4 * significand e f * scale e := Nat.mul_lt_mul_of_pos_right hquarters hscale
  have hhigh : 4 * significand e f * scale e < (4 * significand e f + 2) * scale e :=
    Nat.mul_lt_mul_of_pos_right (by omega) hscale
  have hcentre : (Interval.ofFields e f).centre ≠ 0 := by
    rw [ofFields_eq]
    exact Nat.ne_of_gt (Nat.mul_pos (by omega) hscale)
  have hholds : (Interval.ofFields e f).holds (Interval.ofFields e f).centre = true := by
    rw [ofFields_eq, Interval.holds]
    dsimp only
    split <;> simp only [Bool.and_eq_true, decide_eq_true_eq] <;> omega
  obtain ⟨hne, hin⟩ := search_holds hcentre hholds (toString (Interval.ofFields e f).high).length
  have hrounds := rounds_of_holds hp hin
  rw [Nat.cast_mul, Nat.cast_pow, Nat.cast_ofNat, mul_assoc, ← zpow_natCast, ← zpow_add₀ (by norm_num)] at hrounds
  exact ⟨hne, hrounds⟩

/-! ## Positional texts -/

/-- the text spells a rational with digits before and after a point -/
structure Spells (text : String) (whole fraction : List Char) (v : ℚ) : Prop where
  layout : text.toList = whole ++ '.' :: fraction
  nonempty : whole ≠ []
  before : ∀ c ∈ whole, isDigit c = true
  after : ∀ c ∈ fraction, isDigit c = true
  value : (digitsValue (whole ++ fraction) : ℚ) * 10 ^ (-(fraction.length : Int)) = v

theorem digitsValue_append (cs ds : List Char) :
    digitsValue (cs ++ ds) = 10 ^ ds.length * digitsValue cs + digitsValue ds := by
  simp only [digitsValue_eq]
  rw [Nat.ofDigitChars_append, Nat.ofDigitChars_eq_ofDigitChars_zero]

theorem digitsValue_zeros (n : Nat) : digitsValue (List.replicate n '0') = 0 := by
  rw [digitsValue_eq, Nat.ofDigitChars_replicate_zero, Nat.mul_zero]

theorem exists_spells_positional (d : Nat) (x : Int) :
    ∃ whole fraction, Spells (positional d x) whole fraction (d * 10 ^ x) := by
  have hdigits (c : Char) (hc : c ∈ (toString d).toList) : isDigit c = true := isDigit_of_mem_toString hc
  have hzeros (n : Nat) (c : Char) (hc : c ∈ List.replicate n '0') : isDigit c = true := by
    rw [(List.mem_replicate.1 hc).2]
    rfl
  unfold positional
  dsimp only
  split
  · rename_i hx
    obtain ⟨k, rfl⟩ := Int.eq_ofNat_of_zero_le hx
    refine ⟨(toString d).toList ++ List.replicate k '0', ['0'], by simp, by simp, ?_, ?_, ?_⟩
    · intro c hc
      rcases List.mem_append.1 hc with hc | hc
      · exact hdigits c hc
      · exact hzeros k c hc
    · exact hzeros 1
    · have hlast : digitsValue ['0'] = 0 := rfl
      rw [digitsValue_append, digitsValue_append, digitsValue_zeros, digitsValue_toString, List.length_replicate, hlast,
        List.length_singleton, zpow_natCast]
      push_cast
      rw [zpow_neg_one]
      ring
  · rename_i hx
    obtain ⟨k, rfl⟩ : ∃ k : Nat, x = -k := ⟨(-x).toNat, by omega⟩
    rw [neg_neg, Int.toNat_natCast]
    split
    · rename_i hplaces
      refine ⟨(toString d).toList.take ((toString d).toList.length - k), (toString d).toList.drop ((toString d).toList.length - k),
        by simp, ?_, ?_, ?_, ?_⟩
      · rw [← List.length_pos_iff, List.length_take]
        omega
      · exact fun c hc => hdigits c (List.mem_of_mem_take hc)
      · exact fun c hc => hdigits c (List.mem_of_mem_drop hc)
      · rw [List.take_append_drop, digitsValue_toString, List.length_drop]
        congr 3
        omega
    · rename_i hplaces
      refine ⟨['0'], List.replicate (k - (toString d).toList.length) '0' ++ (toString d).toList, by simp, by simp, hzeros 1, ?_, ?_⟩
      · intro c hc
        rcases List.mem_append.1 hc with hc | hc
        · exact hzeros _ c hc
        · exact hdigits c hc
      · have hfirst : digitsValue ['0'] = 0 := rfl
        rw [digitsValue_append, digitsValue_append, digitsValue_zeros, digitsValue_toString, hfirst, List.length_append,
          List.length_replicate, Nat.sub_add_cancel (Nat.not_lt.1 hplaces), Nat.mul_zero, Nat.zero_add, Nat.mul_zero, Nat.zero_add]

/-! ## Signs -/

section Signs

open Float.Model

/-- the other sign alone is the negation -/
theorem unpack_flip {b b' : BitVec Format.binary64.numBits}
    (hm : UnpackedFloat.unpackMantissa b' = UnpackedFloat.unpackMantissa b)
    (he : UnpackedFloat.unpackExponent b' = UnpackedFloat.unpackExponent b)
    (hs : UnpackedFloat.Sign.ofBitVec (UnpackedFloat.unpackSign b') = -UnpackedFloat.Sign.ofBitVec (UnpackedFloat.unpackSign b)) :
    UnpackedFloat.unpack Format.binary64 b' = (UnpackedFloat.unpack Format.binary64 b).neg := by
  unfold UnpackedFloat.unpack
  simp only [hm, he, hs]
  split
  · split <;> rfl
  · split
    · split <;> rfl
    · rfl

theorem toBits_neg (x : Float) : (-x).toBits.toBitVec =
    UnpackedFloat.pack Format.binary64 (UnpackedFloat.unpack Format.binary64 x.toBits.toBitVec).neg := rfl

theorem toNat_unpackMantissa (w : UInt64) :
    (@UnpackedFloat.unpackMantissa .binary64 w.toBitVec).toNat = w.toNat % 0x10000000000000 := by
  unfold UnpackedFloat.unpackMantissa
  rw [BitVec.toNat_cast, BitVec.extractLsb_toNat]
  simp [Nat.shiftRight_eq_div_pow]

theorem toNat_unpackExponent (w : UInt64) :
    (@UnpackedFloat.unpackExponent .binary64 w.toBitVec).toNat = w.toNat / 0x10000000000000 % 2048 := by
  unfold UnpackedFloat.unpackExponent
  rw [BitVec.toNat_cast, BitVec.extractLsb_toNat]
  simp [Nat.shiftRight_eq_div_pow]

theorem toNat_unpackSign (w : UInt64) :
    (@UnpackedFloat.unpackSign .binary64 w.toBitVec).toNat = w.toNat / 0x8000000000000000 % 2 := by
  unfold UnpackedFloat.unpackSign
  rw [BitVec.toNat_cast, BitVec.extractLsb_toNat]
  simp [Nat.shiftRight_eq_div_pow]

/-- the negation of a double that has no sign bit has it -/
theorem neg_ofBits {r : Nat} (hr : r < 0x7FF0000000000000) :
    -Float.ofBits (UInt64.ofNat r) = Float.ofBits (UInt64.ofNat (0x8000000000000000 + r)) := by
  have hnan (w : UInt64) (hw : w.toNat % 0x8000000000000000 < 0x7FF0000000000000) : ¬ Word.IsNaN w := by
    unfold Word.IsNaN
    omega
  have hsame {w : UInt64} (hw : w.toNat % 0x8000000000000000 < 0x7FF0000000000000) : (Float.ofBits w).toBits = w := by
    rw [Word.toBits_ofBits, Word.ofDoubleBits_eq, if_neg (hnan w hw)]
  have hplus : (UInt64.ofNat r).toNat = r := by rw [UInt64.toNat_ofNat']; omega
  have hminus : (UInt64.ofNat (0x8000000000000000 + r)).toNat = 0x8000000000000000 + r := by
    rw [UInt64.toNat_ofNat']; omega
  generalize UInt64.ofNat r = p at hplus ⊢
  generalize UInt64.ofNat (0x8000000000000000 + r) = n at hminus ⊢
  have hflip : UnpackedFloat.unpack Format.binary64 n.toBitVec = (UnpackedFloat.unpack Format.binary64 p.toBitVec).neg := by
    refine unpack_flip ?_ ?_ ?_
    · rw [← BitVec.toNat_inj, toNat_unpackMantissa, toNat_unpackMantissa]
      omega
    · rw [← BitVec.toNat_inj, toNat_unpackExponent, toNat_unpackExponent]
      omega
    · have hp : @UnpackedFloat.unpackSign .binary64 p.toBitVec = 0#1 := by
        rw [← BitVec.toNat_inj, toNat_unpackSign, BitVec.toNat_ofNat]
        omega
      have hn : @UnpackedFloat.unpackSign .binary64 n.toBitVec = 1#1 := by
        rw [← BitVec.toNat_inj, toNat_unpackSign, BitVec.toNat_ofNat]
        omega
      rw [hp, hn]
      rfl
  have hbits : (-Float.ofBits p).toBits = n := by
    rw [← UInt64.toBitVec_inj, toBits_neg, hsame (by omega), ← hflip, UnpackedFloat.pack_unpack _ (by decide),
      if_neg (mt (Word.isNaNBits_iff n).1 (hnan n (by omega)))]
  rw [← Float.ofBits_toBits (-Float.ofBits p), hbits]

theorem exponent_of_isFinite {x : Float} (hx : x.isFinite = true) :
    x.toBits.toNat / 0x10000000000000 % 2048 ≠ 2047 := by
  intro h
  have hfull : @UnpackedFloat.unpackExponent .binary64 x.toBits.toBitVec = -1#_ := by
    rw [← BitVec.toNat_inj, toNat_unpackExponent, h]
    rfl
  have hnot : (UnpackedFloat.unpack Format.binary64 x.toBits.toBitVec).isFinite = false := by
    unfold UnpackedFloat.unpack
    simp only [hfull, if_true]
    split <;> rfl
  have hsame : x.isFinite = (UnpackedFloat.unpack Format.binary64 x.toBits.toBitVec).isFinite := rfl
  rw [hsame, hnot] at hx
  cases hx
end Signs

/-! ## The text of a double -/

/-- the signed text of a number: a sign if it is negative, then the magnitude -/
def signed (negative : Bool) (cs : List Char) : List Char := if negative then '-' :: cs else cs

/-- the magnitude of a finite double reads back -/
theorem nearest_of_spells {text : String} {whole fraction : List Char} {v : ℚ} (h : Spells text whole fraction v)
    (hp : IsPositive e f) (hv : Rounds e f v) :
    nearest (digitsValue (whole ++ fraction)) (0 - fraction.length) =
      Float.ofBits (UInt64.ofNat (e * 0x10000000000000 + f)) := by
  have hvalue := h.value
  have hne : digitsValue (whole ++ fraction) ≠ 0 := by
    intro hzero
    rw [hzero, Nat.cast_zero, zero_mul] at hvalue
    exact (hv.pos hp).ne hvalue
  rw [Int.zero_sub]
  exact nearest_eq hne hp (hvalue ▸ hv)

/-- the text of a finite double is that of a numeral with its value -/
theorem exists_spelling {x : Float} (hx : x.isFinite = true) : ∃ negative whole fraction,
    (text x).toList = signed negative (whole ++ '.' :: fraction) ∧ whole ≠ [] ∧ (∀ c ∈ whole, isDigit c = true) ∧
      (∀ c ∈ fraction, isDigit c = true) ∧ Numeral.value ⟨negative, whole, fraction, 0⟩ = x := by
  have hfinite := exponent_of_isFinite hx
  have hword := x.toBits.toNat_lt
  have hbits : Float.ofBits (UInt64.ofNat x.toBits.toNat) = x := by rw [UInt64.ofNat_toNat, Float.ofBits_toBits]
  unfold text
  generalize x.toBits.toNat = w at hfinite hword hbits ⊢
  dsimp only
  rw [if_neg hfinite]
  obtain ⟨e, he⟩ : ∃ e, e = w / 0x10000000000000 % 2048 := ⟨_, rfl⟩
  obtain ⟨f, hf⟩ : ∃ f, f = w % 0x10000000000000 := ⟨_, rfl⟩
  have hexponent : e < 2047 := by
    have : e < 2048 := he ▸ Nat.mod_lt _ (by decide)
    rw [← he] at hfinite
    omega
  have hfraction : f < 0x10000000000000 := hf ▸ Nat.mod_lt _ (by decide)
  rw [← he, ← hf]
  -- the magnitude, and its digits
  obtain ⟨whole, fraction, v, hspells, hnearest⟩ : ∃ whole fraction v,
      Spells (if e = 0 ∧ f = 0 then "0.0" else positional (Interval.ofFields e f).shortest.1 (Interval.ofFields e f).shortest.2)
        whole fraction v ∧
      nearest (digitsValue (whole ++ fraction)) (0 - fraction.length) =
        Float.ofBits (UInt64.ofNat (e * 0x10000000000000 + f)) := by
    by_cases hzero : e = 0 ∧ f = 0
    · have hdigit (c : Char) (hc : c ∈ ['0']) : isDigit c = true := by
        rw [List.mem_singleton.1 hc]
        rfl
      rw [if_pos hzero, hzero.1, hzero.2]
      refine ⟨['0'], ['0'], 0, ⟨by decide, by simp, hdigit, hdigit, by simp [digitsValue]⟩, ?_⟩
      decide
    · rw [if_neg hzero]
      obtain ⟨whole, fraction, hspells⟩ := exists_spells_positional (Interval.ofFields e f).shortest.1 (Interval.ofFields e f).shortest.2
      have hp : IsPositive e f := ⟨hexponent, hfraction, Decidable.not_and_iff_or_not.1 hzero⟩
      exact ⟨whole, fraction, _, hspells, nearest_of_spells hspells hp (rounds_shortest hp).2⟩
  refine ⟨decide (0x8000000000000000 ≤ w), whole, fraction, ?_, hspells.nonempty, hspells.before, hspells.after, ?_⟩
  · by_cases hnegative : 0x8000000000000000 ≤ w
    · rw [if_pos hnegative, String.toList_append, hspells.layout, decide_eq_true hnegative]
      rfl
    · rw [if_neg hnegative, hspells.layout, decide_eq_false hnegative]
      rfl
  · have hr : e * 0x10000000000000 + f < 0x7FF0000000000000 := by omega
    unfold Numeral.value
    dsimp only
    rw [hnearest]
    by_cases hnegative : 0x8000000000000000 ≤ w
    · have hw : 0x8000000000000000 + (e * 0x10000000000000 + f) = w := by omega
      rw [if_pos (decide_eq_true hnegative), neg_ofBits hr, hw, hbits]
    · have hw : e * 0x10000000000000 + f = w := by omega
      rw [if_neg (by simpa using hnegative), hw, hbits]

end LispMachine.Decimal

namespace LispMachine.Source

open Decimal (isDigit digits digitsValue sign signed Numeral)

/-! ## Numbers as atoms -/

/-- a text that is one token, an atom -/
def IsWord (text : String) : Prop := text.toList ≠ [] ∧ ∀ c ∈ text.toList, isDelimiter c = false

theorem isDelimiter_of_isDigit {c : Char} (h : isDigit c = true) : isDelimiter c = false := by
  have hrange : 48 ≤ c.toNat ∧ c.toNat ≤ 57 := by
    simp only [isDigit, Bool.and_eq_true, decide_eq_true_eq] at h
    exact ⟨h.1, h.2⟩
  have hne (d : Char) (hd : d.toNat < 48) : c ≠ d := by
    rintro rfl
    omega
  have hblank : Text.isBlank c = false := by
    unfold Text.isBlank
    simp only [Bool.or_eq_false_iff, Bool.and_eq_false_iff, decide_eq_false_iff_not]
    omega
  unfold isDelimiter
  simp [hblank, hne '(' (by decide), hne ')' (by decide), hne '\'' (by decide), hne '"' (by decide)]
  rintro rfl
  exact absurd hrange (by decide)

theorem isDelimiter_of_mem_signed {negative : Bool} {cs : List Char} (h : ∀ c ∈ cs, isDelimiter c = false) :
    ∀ c ∈ signed negative cs, isDelimiter c = false := by
  cases negative with
  | false => exact h
  | true => exact List.forall_mem_cons.2 ⟨by decide, h⟩

/-- the sign of a signed text, and what follows it -/
theorem sign_signed {cs : List Char} (hcs : ∀ c ∈ cs.head?, isDigit c = true) (negative : Bool) :
    sign (signed negative cs) = (negative, cs) := by
  cases negative with
  | true => rfl
  | false =>
    unfold signed sign
    simp only [Bool.false_eq_true, if_false]
    split
    · exact absurd (hcs '-' rfl) (by decide)
    · exact absurd (hcs '+' rfl) (by decide)
    · rfl

namespace Atom

/-- one of the two prefixes of a signed text is a sign -/
theorem exists_signed (negative : Bool) (cs : List Char) : ∃ s ∈ Pattern.sign.matches', signed negative cs = s ++ cs := by
  cases negative with
  | false => exact ⟨[], Pattern.mem_sign.2 (.inl rfl), rfl⟩
  | true => exact ⟨['-'], Pattern.mem_sign.2 (.inr (.inr rfl)), rfl⟩

theorem signed_mem_integer {ds : List Char} (hne : ds ≠ []) (hds : ∀ c ∈ ds, isDigit c = true) (negative : Bool) :
    signed negative ds ∈ Pattern.integer.matches' := by
  obtain ⟨s, hs, heq⟩ := exists_signed negative ds
  exact Pattern.mem_integer.2 ⟨s, hs, ds, Pattern.mem_digits.2 ⟨hne, hds⟩, heq.symm⟩

theorem decimal_signed {ds : List Char} (hds : ∀ c ∈ ds, isDigit c = true) (negative : Bool) :
    decimal (signed negative ds) = if negative then -(digitsValue ds : Int) else digitsValue ds := by
  rw [decimal_eq, sign_signed (fun c hc => hds c (List.mem_of_mem_head? hc))]
  rfl

variable {whole fraction : List Char}

theorem head?_whole (hne : whole ≠ []) (hwhole : ∀ c ∈ whole, isDigit c = true) :
    ∀ c ∈ (whole ++ '.' :: fraction).head?, isDigit c = true := by
  cases whole with
  | nil => exact absurd rfl hne
  | cons c cs =>
    intro d hd
    cases hd
    exact hwhole c List.mem_cons_self

theorem digits_point (hwhole : ∀ c ∈ whole, isDigit c = true) :
    digits (whole ++ '.' :: fraction) = (whole, '.' :: fraction) :=
  Decimal.digits_append hwhole fun c hc => by cases hc; decide

theorem signed_mem_float (hne : whole ≠ []) (hwhole : ∀ c ∈ whole, isDigit c = true)
    (hfraction : ∀ c ∈ fraction, isDigit c = true) (negative : Bool) :
    signed negative (whole ++ '.' :: fraction) ∈ Pattern.float.matches' := by
  obtain ⟨s, hs, heq⟩ := exists_signed negative (whole ++ '.' :: fraction)
  refine Pattern.mem_float.2 ⟨s, hs, whole ++ '.' :: fraction, [], by rw [heq, List.append_nil], .inr ⟨?_, .inl rfl⟩⟩
  exact Pattern.mem_pointed.2 ⟨whole, fraction, hwhole, hfraction, fun h => hne h.1, rfl⟩

theorem parse?_point (hne : whole ≠ []) (hwhole : ∀ c ∈ whole, isDigit c = true) (hfraction : ∀ c ∈ fraction, isDigit c = true)
    (negative : Bool) :
    Numeral.parse? (signed negative (whole ++ '.' :: fraction)) = some ⟨negative, whole, fraction, 0⟩ := by
  have hdigits : Decimal.digits (fraction ++ []) = (fraction, []) := Decimal.digits_append hfraction (by simp)
  rw [List.append_nil] at hdigits
  unfold Numeral.parse?
  rw [sign_signed (head?_whole hne hwhole) negative]
  simp only [digits_point hwhole, hdigits]
  rw [if_neg (by simp [hne])]

/-- The text of a finite double is read as the double. -/
theorem ofText_float {x : Float} (hx : x.isFinite = true) : ofText (Decimal.text x) = .number (.float x) := by
  obtain ⟨negative, whole, fraction, htext, hne, hwhole, hfraction, hvalue⟩ := Decimal.exists_spelling hx
  have hmem : (Decimal.text x).toList ∈ Pattern.float.matches' := by
    rw [htext]
    exact signed_mem_float hne hwhole hfraction negative
  have hparse : Decimal.parse? (Decimal.text x) = some x := by
    rw [Decimal.parse?_plain (Shape.mem_alphabet (shape_ne_symbol_iff.2 (.inr hmem))), htext, parse?_point hne hwhole hfraction,
      Option.map_some, hvalue]
  exact (Means.float hmem hparse).eq

theorem toList_toString_int (v : Int) : (toString v).toList = signed (decide (v < 0)) (toString v.natAbs).toList := by
  cases v with
  | ofNat n => rfl
  | negSucc n =>
    have : toString (Int.negSucc n) = "-" ++ toString (n + 1) := rfl
    rw [this, String.toList_append, decide_eq_true (Int.negSucc_lt_zero n), Int.natAbs_negSucc]
    rfl

/-- The text of an integer is read as the integer. -/
theorem ofText_int (n : Int32) : ofText (toString n.toInt) = .number (.int n) := by
  have hds (c : Char) : c ∈ (toString n.toInt.natAbs).toList → isDigit c = true := Decimal.isDigit_of_mem_toString
  have hmem : (toString n.toInt).toList ∈ Pattern.integer.matches' := by
    rw [toList_toString_int]
    exact signed_mem_integer (Decimal.toString_ne_nil _) hds _
  refine (Means.int hmem ?_).eq
  rw [toList_toString_int, decimal_signed hds, Decimal.digitsValue_toString]
  by_cases h : n.toInt < 0
  · rw [if_pos (decide_eq_true h)]
    omega
  · rw [if_neg (by simpa using h)]
    omega

theorem isWord_float {x : Float} (hx : x.isFinite = true) : IsWord (Decimal.text x) := by
  obtain ⟨negative, whole, fraction, htext, hne, hwhole, hfraction, -⟩ := Decimal.exists_spelling hx
  rw [IsWord, htext]
  refine ⟨by cases negative <;> simp [signed], isDelimiter_of_mem_signed fun c hc => ?_⟩
  rcases List.mem_append.1 hc with hc | hc
  · exact isDelimiter_of_isDigit (hwhole c hc)
  · rcases List.mem_cons.1 hc with rfl | hc
    · decide
    · exact isDelimiter_of_isDigit (hfraction c hc)

theorem isWord_int (n : Int32) : IsWord (toString n.toInt) := by
  rw [IsWord, toList_toString_int]
  have hne := Decimal.toString_ne_nil n.toInt.natAbs
  refine ⟨?_, isDelimiter_of_mem_signed fun c hc => isDelimiter_of_isDigit (Decimal.isDigit_of_mem_toString hc)⟩
  cases decide (n.toInt < 0)
  · exact hne
  · exact List.cons_ne_nil _ _

end Atom

end LispMachine.Source
