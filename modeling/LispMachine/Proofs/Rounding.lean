/-
Rounding to doubles.

A positive double is a significand times a power of two, its last place; the rationals that round to it lie around it, up to
half a last place on either side, or a quarter below a power of two. `ratioBits_eq`: the bits that are computed for a ratio are
those of the double that the ratio rounds to. `nearest_eq`: so is the double for an integer times a power of ten, for the
bounds on its size leave out none that rounds to a finite one.
-/
import Mathlib.Tactic
import LispMachine.Decimal.Shortest
import LispMachine.Decimal.Nearest

namespace LispMachine.Decimal

/-! ## Rounded division -/

/-- the quotient is the only integer at most half away, or the even one of two -/
theorem roundDiv_eq {num den r : Nat} (hden : 0 < den) (hlow : 2 * (den * r) ≤ 2 * num + den)
    (hhigh : 2 * num ≤ 2 * (den * r) + den)
    (heven : 2 * (den * r) = 2 * num + den ∨ 2 * num = 2 * (den * r) + den → r % 2 = 0) : roundDiv num den = r := by
  have hdiv := Nat.div_add_mod num den
  have hmod := Nat.mod_lt num hden
  unfold roundDiv
  generalize num / den = q at hdiv ⊢
  generalize num % den = s at hdiv hmod ⊢
  have hq : q ≤ r := by
    by_contra h
    have : den * (r + 1) ≤ den * q := Nat.mul_le_mul_left den (by omega)
    rw [Nat.mul_succ] at this
    omega
  have hr : r ≤ q + 1 := by
    by_contra h
    have : den * (q + 2) ≤ den * r := Nat.mul_le_mul_left den (by omega)
    rw [Nat.mul_add] at this
    omega
  obtain rfl | rfl : r = q ∨ r = q + 1 := by omega
  · dsimp only
    split_ifs <;> omega
  · rw [Nat.mul_succ] at hlow hhigh heven
    dsimp only
    split_ifs <;> omega

theorem roundDiv_eq_of_le {num den r : Nat} (hden : 0 < den) (hlow : (r : ℚ) - 1 / 2 ≤ num / den)
    (hhigh : (num : ℚ) / den ≤ r + 1 / 2)
    (heven : (r : ℚ) - 1 / 2 = num / den ∨ (num : ℚ) / den = r + 1 / 2 → r % 2 = 0) : roundDiv num den = r := by
  have hpos : (0 : ℚ) < den := Nat.cast_pos.2 hden
  rw [le_div_iff₀ hpos] at hlow
  rw [div_le_iff₀ hpos] at hhigh
  rw [eq_div_iff hpos.ne', div_eq_iff hpos.ne'] at heven
  refine roundDiv_eq hden ?_ ?_ fun h => heven ?_
  · have : (2 * (den * r) : ℚ) ≤ 2 * num + den := by linarith
    exact_mod_cast this
  · have : (2 * num : ℚ) ≤ 2 * (den * r) + den := by linarith
    exact_mod_cast this
  · rcases h with h | h
    · have : (2 * (den * r) : ℚ) = 2 * num + den := by exact_mod_cast h
      left
      linarith
    · have : (2 * num : ℚ) = 2 * (den * r) + den := by exact_mod_cast h
      right
      linarith

/-- a ratio in units of a power of two, rounded -/
def roundScaled (num den : Nat) (unit : Int) : Nat :=
  if 0 ≤ unit then roundDiv num (den * Nat.pow 2 unit.toNat) else roundDiv (num * Nat.pow 2 (-unit).toNat) den

theorem roundScaled_eq {num den r : Nat} {unit : Int} (hden : 0 < den)
    (hlow : (r : ℚ) - 1 / 2 ≤ num / den / 2 ^ unit) (hhigh : (num : ℚ) / den / 2 ^ unit ≤ r + 1 / 2)
    (heven : (r : ℚ) - 1 / 2 = num / den / 2 ^ unit ∨ (num : ℚ) / den / 2 ^ unit = r + 1 / 2 → r % 2 = 0) :
    roundScaled num den unit = r := by
  unfold roundScaled
  split
  · rename_i hunit
    obtain ⟨k, rfl⟩ := Int.eq_ofNat_of_zero_le hunit
    have hscaled : (num : ℚ) / den / 2 ^ (k : Int) = num / (den * Nat.pow 2 (k : Int).toNat : Nat) := by
      simp [div_div]
    rw [hscaled] at hlow hhigh heven
    exact roundDiv_eq_of_le (Nat.mul_pos hden (Nat.pow_pos Nat.two_pos)) hlow hhigh heven
  · rename_i hunit
    obtain ⟨k, hk⟩ : ∃ k : Nat, unit = -k := ⟨(-unit).toNat, by omega⟩
    have hscaled : (num : ℚ) / den / 2 ^ unit = (num * Nat.pow 2 (-unit).toNat : Nat) / den := by
      rw [hk, neg_neg, Int.toNat_natCast, zpow_neg, zpow_natCast, div_inv_eq_mul, Nat.cast_mul, Nat.pow_eq, Nat.cast_pow,
        Nat.cast_ofNat, div_mul_eq_mul_div]
    rw [hscaled] at hlow hhigh heven
    exact roundDiv_eq_of_le hden hlow hhigh heven

/-! ## The order of a ratio -/

theorem binaryOrder_spec {num den : Nat} (hnum : 0 < num) (hden : 0 < den) :
    (2 : ℚ) ^ binaryOrder num den ≤ num / den ∧ (num : ℚ) / den < 2 ^ (binaryOrder num den + 1) := by
  have hpos : (0 : ℚ) < den := Nat.cast_pos.2 hden
  have hnumLow : (2 : ℚ) ^ (Nat.log2 num : Int) ≤ num := by
    rw [zpow_natCast]
    exact_mod_cast Nat.log2_self_le hnum.ne'
  have hnumHigh : (num : ℚ) < 2 ^ ((Nat.log2 num : Int) + 1) := by
    have : (num : ℚ) < 2 ^ (Nat.log2 num + 1) := by exact_mod_cast Nat.lt_log2_self
    exact_mod_cast this
  have hdenLow : (2 : ℚ) ^ (Nat.log2 den : Int) ≤ den := by
    rw [zpow_natCast]
    exact_mod_cast Nat.log2_self_le hden.ne'
  have hdenHigh : (den : ℚ) < 2 ^ ((Nat.log2 den : Int) + 1) := by
    have : (den : ℚ) < 2 ^ (Nat.log2 den + 1) := by exact_mod_cast Nat.lt_log2_self
    exact_mod_cast this
  unfold binaryOrder
  generalize (Nat.log2 num : Int) = a at hnumLow hnumHigh ⊢
  generalize (Nat.log2 den : Int) = c at hdenLow hdenHigh ⊢
  -- the first guess is the order or one more
  have hbelow : (2 : ℚ) ^ (a - c - 1) ≤ num / den := by
    rw [le_div_iff₀ hpos]
    calc (2 : ℚ) ^ (a - c - 1) * den ≤ 2 ^ (a - c - 1) * 2 ^ (c + 1) := by gcongr
      _ = 2 ^ a := by rw [← zpow_add₀ two_ne_zero]; congr 1; omega
      _ ≤ num := hnumLow
  have habove : (num : ℚ) / den < 2 ^ (a - c + 1) := by
    rw [div_lt_iff₀ hpos]
    calc (num : ℚ) < 2 ^ (a + 1) := hnumHigh
      _ = 2 ^ (a - c + 1) * 2 ^ c := by rw [← zpow_add₀ two_ne_zero]; congr 1; omega
      _ ≤ 2 ^ (a - c + 1) * den := by gcongr
  have hreached : (if 0 ≤ a - c then den * Nat.pow 2 (a - c).toNat ≤ num else den ≤ num * Nat.pow 2 (-(a - c)).toNat) ↔
      (2 : ℚ) ^ (a - c) ≤ num / den := by
    rw [le_div_iff₀ hpos]
    split
    · rename_i hguess
      obtain ⟨k, hk⟩ := Int.eq_ofNat_of_zero_le hguess
      rw [hk, Int.toNat_natCast, zpow_natCast, mul_comm]
      exact_mod_cast Iff.rfl
    · rename_i hguess
      obtain ⟨k, hk⟩ : ∃ k : Nat, a - c = -k := ⟨(-(a - c)).toNat, by omega⟩
      rw [hk, neg_neg, Int.toNat_natCast, zpow_neg, zpow_natCast, inv_mul_le_iff₀ (by positivity), mul_comm (2 ^ k : ℚ)]
      exact_mod_cast Iff.rfl
  simp only [hreached]
  split
  · exact ⟨‹_›, habove⟩
  · rename_i hnot
    rw [sub_add_cancel]
    exact ⟨hbelow, not_le.1 hnot⟩

theorem binaryOrder_eq {num den : Nat} {b : Int} (hnum : 0 < num) (hden : 0 < den) (hlow : (2 : ℚ) ^ b ≤ num / den)
    (hhigh : (num : ℚ) / den < 2 ^ (b + 1)) : binaryOrder num den = b := by
  obtain ⟨horder, horder'⟩ := binaryOrder_spec hnum hden
  have h₁ := (zpow_lt_zpow_iff_right₀ (one_lt_two (α := ℚ))).1 (hlow.trans_lt horder')
  have h₂ := (zpow_lt_zpow_iff_right₀ (one_lt_two (α := ℚ))).1 (horder.trans_lt hhigh)
  omega

theorem binaryOrder_le {num den : Nat} {b : Int} (hnum : 0 < num) (hden : 0 < den) (h : (num : ℚ) / den < 2 ^ (b + 1)) :
    binaryOrder num den ≤ b := by
  have h' := (zpow_lt_zpow_iff_right₀ (one_lt_two (α := ℚ))).1 ((binaryOrder_spec hnum hden).1.trans_lt h)
  omega

/-! ## What rounds to a double -/

/-- the significand of the double with biased exponent `e` and fraction `f` -/
def significand (e f : Nat) : Nat := if e = 0 then f else f + 0x10000000000000

/-- the exponent of its last place -/
def lastPlace (e : Nat) : Int := if e = 0 then -1074 else (e : Int) - 1075

/-- how far below it, in last places, the next smaller double is halfway; below a power of two they lie twice as densely -/
def gap (e f : Nat) : ℚ := if f = 0 ∧ 1 < e then 1 / 4 else 1 / 2

/-- the positive double with biased exponent `e` and fraction `f` is finite -/
structure IsPositive (e f : Nat) : Prop where
  exponent : e < 2047
  fraction : f < 0x10000000000000
  nonzero : e ≠ 0 ∨ f ≠ 0

/-- the rational `v` rounds to the double with biased exponent `e` and fraction `f` -/
structure Rounds (e f : Nat) (v : ℚ) : Prop where
  low : significand e f - gap e f ≤ v / 2 ^ lastPlace e
  high : v / 2 ^ lastPlace e ≤ significand e f + 1 / 2
  /-- halfway the even neighbour is taken -/
  inside : significand e f % 2 = 1 → significand e f - gap e f < v / 2 ^ lastPlace e ∧
    v / 2 ^ lastPlace e < significand e f + 1 / 2

namespace IsPositive

variable {e f : Nat}

theorem significand_pos (h : IsPositive e f) : 1 ≤ significand e f := by
  have := h.nonzero
  unfold significand
  split <;> omega

theorem significand_lt (h : IsPositive e f) : significand e f < 0x20000000000000 := by
  have := h.fraction
  unfold significand
  split <;> omega

theorem bits_le (h : IsPositive e f) : e * 0x10000000000000 + f ≤ 0x7FF0000000000000 := by
  have := h.exponent
  have := h.fraction
  omega

theorem lastPlace_le (h : IsPositive e f) : lastPlace e ≤ 971 := by
  have := h.exponent
  unfold lastPlace
  split <;> omega

end IsPositive

theorem le_lastPlace (e : Nat) : -1074 ≤ lastPlace e := by
  unfold lastPlace
  split <;> omega

theorem gap_le (e f : Nat) : gap e f ≤ 1 / 2 := by
  unfold gap
  split <;> norm_num

namespace Rounds

variable {e f : Nat} {v : ℚ}

/-- in units of the last place -/
theorem eq_mul (e : Nat) (v : ℚ) : v = v / 2 ^ lastPlace e * 2 ^ lastPlace e := by
  rw [div_mul_cancel₀]
  exact (zpow_pos two_pos _).ne'

theorem half_le (h : Rounds e f v) (hp : IsPositive e f) : 1 / 2 ≤ v / 2 ^ lastPlace e := by
  have hm : (1 : ℚ) ≤ significand e f := by exact_mod_cast hp.significand_pos
  have := gap_le e f
  have := h.low
  linarith

theorem lt_two_pow (h : Rounds e f v) (hp : IsPositive e f) : v / 2 ^ lastPlace e < 2 ^ 53 := by
  have hm : (significand e f : ℚ) ≤ 2 ^ 53 - 1 := by
    have := hp.significand_lt
    have hle : significand e f ≤ 0x1FFFFFFFFFFFFF := by omega
    calc (significand e f : ℚ) ≤ (0x1FFFFFFFFFFFFF : Nat) := Nat.cast_le.2 hle
      _ = 2 ^ 53 - 1 := by norm_num
  have := h.high
  linarith

theorem pos (h : Rounds e f v) (hp : IsPositive e f) : 0 < v := by
  rw [eq_mul e v]
  have := h.half_le hp
  have h2 : (0 : ℚ) < 2 ^ lastPlace e := zpow_pos two_pos _
  exact mul_pos (by linarith) h2

end Rounds

/-! ## The bits of a ratio -/

theorem ratioBits_of_order {num den : Nat} (hnum : num ≠ 0) (unit : Int)
    (hunit : max (binaryOrder num den - 52) (-1074) = unit) :
    ratioBits num den =
      min ((unit + 1074).toNat * 0x10000000000000 + roundScaled num den unit) 0x7FF0000000000000 := by
  unfold ratioBits
  rw [if_neg hnum, hunit]
  rfl

/-- The bits that are computed for a ratio are those of the double that it rounds to. -/
theorem ratioBits_eq {num den e f : Nat} (hden : 0 < den) (hp : IsPositive e f) (h : Rounds e f (num / den)) :
    ratioBits num den = e * 0x10000000000000 + f := by
  have hpos := h.pos hp
  have hnum : 0 < num := by
    rw [Nat.pos_iff_ne_zero]
    rintro rfl
    simp at hpos
  have hlt := h.lt_two_pow hp
  have hplace := le_lastPlace e
  have hpow : (0 : ℚ) < 2 ^ lastPlace e := zpow_pos two_pos _
  have hhigh : (num : ℚ) / den < 2 ^ (lastPlace e + 52 + 1) := by
    rw [Rounds.eq_mul e (num / den), show lastPlace e + 52 + 1 = 53 + lastPlace e by omega, zpow_add₀ two_ne_zero]
    exact mul_lt_mul_of_pos_right hlt hpow
  have horder := binaryOrder_le hnum hden hhigh
  have hbits : (lastPlace e + 1074).toNat * 0x10000000000000 + significand e f = e * 0x10000000000000 + f := by
    unfold lastPlace significand
    split
    · omega
    · have := hp.nonzero
      omega
  by_cases hfull : (2 : ℚ) ^ 52 ≤ num / den / 2 ^ lastPlace e ∨ lastPlace e = -1074
  · -- the last place of the ratio is that of the double
    have hunit : max (binaryOrder num den - 52) (-1074) = lastPlace e := by
      rcases hfull with hfull | hfull
      · have hlow : (2 : ℚ) ^ (lastPlace e + 52) ≤ num / den := by
          rw [Rounds.eq_mul e (num / den), show lastPlace e + 52 = 52 + lastPlace e by omega, zpow_add₀ two_ne_zero]
          exact mul_le_mul_of_nonneg_right hfull hpow.le
        rw [binaryOrder_eq hnum hden hlow hhigh]
        omega
      · omega
    have hround : roundScaled num den (lastPlace e) = significand e f := by
      have hgap := gap_le e f
      refine roundScaled_eq hden (by linarith [h.low]) h.high fun hhalf => ?_
      by_contra hodd
      have hinside := h.inside (by omega)
      rcases hhalf with hhalf | hhalf <;> linarith [hinside.1, hinside.2]
    rw [ratioBits_of_order hnum.ne' _ hunit, hround, hbits]
    exact Nat.min_eq_left hp.bits_le
  · -- it is below a power of two, where the double is that power
    rw [not_or, not_le] at hfull
    obtain ⟨hsmall, hnormal⟩ := hfull
    have he : 1 < e := by
      by_contra hle
      refine hnormal ?_
      unfold lastPlace
      split <;> omega
    have hsignificand : significand e f = f + 0x10000000000000 := by rw [significand, if_neg (by omega)]
    have hf : f = 0 := by
      by_contra hne
      have hle : 0x10000000000001 ≤ significand e f := by omega
      have hm : (2 : ℚ) ^ 52 + 1 ≤ significand e f := by
        calc (2 : ℚ) ^ 52 + 1 = (0x10000000000001 : Nat) := by norm_num
          _ ≤ significand e f := Nat.cast_le.2 hle
      have := gap_le e f
      linarith [h.low]
    subst hf
    rw [Nat.zero_add] at hsignificand
    have hgap : gap e 0 = 1 / 4 := by rw [gap, if_pos ⟨rfl, he⟩]
    have hm : (significand e 0 : ℚ) = 2 ^ 52 := by rw [hsignificand]; norm_num
    have hw : (2 : ℚ) ^ 52 - 1 / 4 ≤ num / den / 2 ^ lastPlace e := by
      have := h.low
      rwa [hgap, hm] at this
    have hdouble : (num : ℚ) / den / 2 ^ (lastPlace e - 1) = 2 * (num / den / 2 ^ lastPlace e) := by
      rw [zpow_sub_one₀ two_ne_zero, div_mul_eq_div_div, div_inv_eq_mul, mul_comm]
    have hunit : max (binaryOrder num den - 52) (-1074) = lastPlace e - 1 := by
      have hlow : (2 : ℚ) ^ (lastPlace e + 51) ≤ num / den := by
        rw [Rounds.eq_mul e (num / den), show lastPlace e + 51 = 51 + lastPlace e by omega, zpow_add₀ two_ne_zero]
        refine mul_le_mul_of_nonneg_right (le_trans ?_ hw) hpow.le
        norm_num
      have hhigh : (num : ℚ) / den < 2 ^ (lastPlace e + 51 + 1) := by
        rw [Rounds.eq_mul e (num / den), show lastPlace e + 51 + 1 = 52 + lastPlace e by omega, zpow_add₀ two_ne_zero]
        exact mul_lt_mul_of_pos_right hsmall hpow
      rw [binaryOrder_eq hnum hden hlow hhigh]
      omega
    have hround : roundScaled num den (lastPlace e - 1) = 0x20000000000000 := by
      refine roundScaled_eq hden ?_ ?_ fun _ => rfl
      · rw [hdouble]
        push_cast
        linarith
      · rw [hdouble]
        push_cast
        linarith
    have hlast : lastPlace e = (e : Int) - 1075 := if_neg (by omega)
    have hunits : (lastPlace e - 1 + 1074).toNat + 2 = e := by omega
    have hcarry : (lastPlace e - 1 + 1074).toNat * 0x10000000000000 + 0x20000000000000 = e * 0x10000000000000 + 0 := by
      calc _ = ((lastPlace e - 1 + 1074).toNat + 2) * 0x10000000000000 + 0 := by rw [Nat.add_mul]
        _ = e * 0x10000000000000 + 0 := by rw [hunits]
    rw [ratioBits_of_order hnum.ne' _ hunit, hround]
    exact (congrArg (min · _) hcarry).trans (Nat.min_eq_left hp.bits_le)

/-! ## The nearest double -/

theorem nearest_of_size {m : Nat} {e : Int} (hm : m ≠ 0) (hlow : -330 ≤ ((toString m).length : Int) + e)
    (hhigh : ((toString m).length : Int) + e ≤ 310) :
    nearest m e = if 0 ≤ e then ofRatio (m * Nat.pow 10 e.toNat) 1 else ofRatio m (Nat.pow 10 (-e).toNat) := by
  unfold nearest
  simp only [if_neg hm]
  rw [if_neg (by omega), if_neg (by omega)]

/-- an integer lies between the powers of ten that its digits say -/
theorem pow_length_le {m : Nat} (hm : m ≠ 0) : (10 : ℚ) ^ (((toString m).length : Int) - 1) ≤ m := by
  obtain ⟨k, hk⟩ : ∃ k : Nat, (toString m).length = k + 1 := Nat.exists_eq_succ_of_ne_zero (Nat.length_repr_pos).ne'
  rw [hk, Nat.cast_add, Nat.cast_one, add_sub_cancel_right, zpow_natCast]
  by_contra h
  rw [not_le] at h
  have hsmall : m < 10 ^ k := by exact_mod_cast h
  match k with
  | 0 => omega
  | k + 1 =>
    have := (Nat.length_repr_le_iff (Nat.succ_pos k)).2 hsmall
    have hlen : m.repr.length = k + 1 + 1 := hk
    omega

theorem lt_pow_length (m : Nat) : (m : ℚ) < 10 ^ ((toString m).length : Int) := by
  rw [zpow_natCast]
  exact_mod_cast (Nat.length_repr_le_iff Nat.length_repr_pos).1 le_rfl

/-- every finite double lies below this power of ten -/
theorem two_pow_le_ten_pow : (2 : ℚ) ^ (1024 : Int) ≤ 10 ^ (309 : Int) := by
  have h : 2 ^ 1024 ≤ 10 ^ 309 := by decide +kernel
  rw [zpow_ofNat, zpow_ofNat]
  exact_mod_cast h

/-- and what rounds to a positive one lies above this one -/
theorem ten_pow_le_two_pow : (10 : ℚ) ^ (-330 : Int) ≤ 2 ^ (-1075 : Int) := by
  have h : 2 ^ 1075 ≤ 10 ^ 330 := by decide +kernel
  have hcast : (2 : ℚ) ^ 1075 ≤ 10 ^ 330 := by exact_mod_cast h
  rw [zpow_neg, zpow_neg, zpow_ofNat, zpow_ofNat]
  exact inv_anti₀ (pow_pos two_pos _) hcast

/-- The double that is computed for an integer times a power of ten is the one that it rounds to. -/
theorem nearest_eq {m e f : Nat} {x : Int} (hm : m ≠ 0) (hp : IsPositive e f) (h : Rounds e f (m * 10 ^ x)) :
    nearest m x = Float.ofBits (UInt64.ofNat (e * 0x10000000000000 + f)) := by
  have hten : (0 : ℚ) < 10 ^ x := zpow_pos (by norm_num) x
  have hlow : -330 ≤ ((toString m).length : Int) + x := by
    have hbig : (10 : ℚ) ^ (-330 : Int) < 10 ^ (((toString m).length : Int) + x) := by
      calc (10 : ℚ) ^ (-330 : Int) ≤ 2 ^ (-1075 : Int) := ten_pow_le_two_pow
        _ = 1 / 2 * 2 ^ (-1074 : Int) := by
          rw [show (-1075 : Int) = -1 + -1074 by norm_num, zpow_add₀ two_ne_zero, zpow_neg_one, one_div]
        _ ≤ 1 / 2 * 2 ^ lastPlace e := by gcongr; exacts [one_le_two, le_lastPlace e]
        _ ≤ m * 10 ^ x / 2 ^ lastPlace e * 2 ^ lastPlace e :=
          mul_le_mul_of_nonneg_right (h.half_le hp) (zpow_pos two_pos _).le
        _ = m * 10 ^ x := (Rounds.eq_mul e _).symm
        _ < 10 ^ ((toString m).length : Int) * 10 ^ x := by gcongr; exact lt_pow_length m
        _ = 10 ^ (((toString m).length : Int) + x) := (zpow_add₀ (by norm_num) _ _).symm
    have := (zpow_lt_zpow_iff_right₀ (by norm_num)).1 hbig
    omega
  have hhigh : ((toString m).length : Int) + x ≤ 310 := by
    have hsmall : (10 : ℚ) ^ (((toString m).length : Int) - 1 + x) < 10 ^ (309 : Int) := by
      calc (10 : ℚ) ^ (((toString m).length : Int) - 1 + x) = 10 ^ (((toString m).length : Int) - 1) * 10 ^ x :=
          zpow_add₀ (by norm_num) _ _
        _ ≤ m * 10 ^ x := by gcongr; exact pow_length_le hm
        _ = m * 10 ^ x / 2 ^ lastPlace e * 2 ^ lastPlace e := Rounds.eq_mul e _
        _ < 2 ^ 53 * 2 ^ lastPlace e := by gcongr; exact h.lt_two_pow hp
        _ ≤ 2 ^ 53 * 2 ^ (971 : Int) := by gcongr; exacts [one_le_two, hp.lastPlace_le]
        _ = 2 ^ (1024 : Int) := by
          rw [show (1024 : Int) = 53 + 971 by norm_num, zpow_add₀ two_ne_zero]
          rfl
        _ ≤ 10 ^ (309 : Int) := two_pow_le_ten_pow
    have := (zpow_lt_zpow_iff_right₀ (by norm_num)).1 hsmall
    omega
  rw [nearest_of_size hm hlow hhigh]
  split
  · rename_i hx
    obtain ⟨k, rfl⟩ := Int.eq_ofNat_of_zero_le hx
    have hratio : Rounds e f ((m * Nat.pow 10 (k : Int).toNat : Nat) / (1 : Nat)) := by simpa using h
    rw [ofRatio, ratioBits_eq Nat.one_pos hp hratio]
  · rename_i hx
    obtain ⟨k, hk⟩ : ∃ k : Nat, x = -k := ⟨(-x).toNat, by omega⟩
    have hratio : Rounds e f (m / (Nat.pow 10 (-x).toNat : Nat)) := by
      rw [hk, zpow_neg, zpow_natCast, ← div_eq_mul_inv] at h
      rw [hk, neg_neg, Int.toNat_natCast, Nat.pow_eq, Nat.cast_pow, Nat.cast_ofNat]
      exact h
    have hden : 0 < Nat.pow 10 (-x).toNat := Nat.pow_pos (by norm_num)
    rw [ofRatio, ratioBits_eq hden hp hratio]

end LispMachine.Decimal
