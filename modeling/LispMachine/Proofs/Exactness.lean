/-
What numbers stand for.

A number stands for a rational or for an infinity, and not-a-number for nothing. Two numbers are equal exactly if they stand for
the same (`Number.equal_iff`), whether they are integers or doubles: a double that is read from its bits has a normal form, so
that comparing the parts of two doubles compares their values, and an integer of 32 bits has a double of its own value.
-/
import Mathlib
import LispMachine.Number

namespace LispMachine

open Float.Model Float.Model.UnpackedFloat

/-- what a number stands for -/
inductive Magnitude where
  | rational (q : ℚ)
  | infinite (s : Sign)

/-- what a double stands for, if it is a number -/
def Magnitude.ofDouble? : UnpackedFloat → Option Magnitude
  | .notANumber => none
  | .infinity s => some (.infinite s)
  | .zero _ => some (.rational 0)
  | .finite s m e _ => some (.rational (s.apply m * 2 ^ e))

def Number.magnitude? : Number → Option Magnitude
  | .int n => some (.rational n.toInt)
  | .float x => Magnitude.ofDouble? x.toModel.unpack

namespace Double

/-! ## Normal forms -/

/-- the normal form of a double: 53 bits, or fewer at the lowest exponent -/
def IsNormal : UnpackedFloat → Prop
  | .finite _ m e _ => m < 2 ^ 53 ∧ -1074 ≤ e ∧ e ≤ 971 ∧ (2 ^ 52 ≤ m ∨ e = -1074)
  | _ => True

theorem toNat_one_append (b : BitVec Format.binary64.mantissaBitsWithoutImplicit) :
    (1#1 ++ b).toNat = 2 ^ 52 + b.toNat := by
  have hlt : b.toNat < 2 ^ 52 := b.isLt
  have hor := Nat.two_pow_add_eq_or_of_lt hlt 1
  rw [mul_one] at hor
  rw [BitVec.toNat_append, Nat.shiftLeft_eq, hor, BitVec.toNat_ofNat, Nat.one_mod, one_mul]

theorem exponentBias_eq : Format.binary64.exponentBias = 1023 := rfl

theorem isNormal_unpack (b : BitVec Format.binary64.numBits) : IsNormal (UnpackedFloat.unpack .binary64 b) := by
  have hexp : (unpackExponent b).toNat < 2048 := (unpackExponent b).isLt
  have hman : (unpackMantissa b).toNat < 2 ^ 52 := (unpackMantissa b).isLt
  unfold UnpackedFloat.unpack
  simp only [exponentBias_eq]
  split
  · split <;> trivial
  · rename_i hfull
    have hne : (unpackExponent b).toNat ≠ 2047 := fun h => hfull (BitVec.eq_of_toNat_eq h)
    split
    · split
      · trivial
      · rename_i hzero _
        rw [hzero]
        exact ⟨by omega, by norm_num, by norm_num, .inr (by norm_num)⟩
    · rename_i hzero
      have hpos : (unpackExponent b).toNat ≠ 0 := fun h => hzero (BitVec.eq_of_toNat_eq h)
      have hval := toNat_one_append (unpackMantissa b)
      exact ⟨by omega, by omega, by omega, .inl (by omega)⟩

/-- reading what a double in normal form is stored as -/
theorem unpack_pack {u : UnpackedFloat} (hu : IsNormal u) :
    UnpackedFloat.unpack .binary64 (UnpackedFloat.pack .binary64 u) = u := by
  match u, hu with
  | .notANumber, _ => exact unpack_packedNaN
  | .infinity .positive, _ => rfl
  | .infinity .negative, _ => rfl
  | .zero _, _ => exact unpack_packedZero
  | .finite s m e hm, ⟨hlt, hlow, hhigh, hnorm⟩ =>
    have hbiased : (e + (Format.binary64.exponentBias : ℕ) + (52 : ℕ)).toNat = (e + 1075).toNat := by
      rw [exponentBias_eq]
      omega
    have hlog : m.log2 + 1 = 53 ↔ 2 ^ 52 ≤ m := by
      have h₁ := Nat.log2_lt (n := m) (k := 53) (by omega)
      have h₂ := Nat.le_log2 (n := m) (k := 52) (by omega)
      omega
    unfold UnpackedFloat.pack
    simp only [hbiased]
    rw [if_neg (by norm_num; omega)]
    split
    · rename_i hfull
      have hle := hlog.1 hfull
      have hman : (1#1 ++ BitVec.ofNat Format.binary64.mantissaBitsWithoutImplicit m).toNat = m := by
        rw [toNat_one_append, BitVec.toNat_ofNat]
        change 2 ^ 52 + m % 2 ^ 52 = m
        omega
      have hexp : (BitVec.ofNat Format.binary64.exponentBits (e + 1075).toNat).toNat = (e + 1075).toNat :=
        Nat.mod_eq_of_lt (by norm_num; omega)
      unfold UnpackedFloat.unpack
      simp only [unpackExponent_packComponents, unpackMantissa_packComponents, unpackSign_packComponents,
        Sign.ofBitVec_toBitVec, hman, hexp, exponentBias_eq]
      rw [if_neg, if_neg]
      · congr 1
        omega
      · intro h
        have h := congrArg BitVec.toNat h
        rw [hexp] at h
        simp at h
        omega
      · intro h
        have h := congrArg BitVec.toNat h
        rw [hexp] at h
        simp at h
        omega
    · rename_i hshort
      have hlt : m < 2 ^ 52 := by
        by_contra hge
        exact hshort (hlog.2 (not_lt.1 hge))
      have hman : (BitVec.ofNat Format.binary64.mantissaBitsWithoutImplicit m).toNat = m := Nat.mod_eq_of_lt hlt
      unfold UnpackedFloat.unpack
      simp only [unpackExponent_packComponents, unpackMantissa_packComponents, unpackSign_packComponents,
        Sign.ofBitVec_toBitVec, hman, exponentBias_eq]
      rw [if_neg, if_pos, dif_neg]
      · congr 1
        rcases hnorm with hge | rfl
        · omega
        · rfl
      · intro h
        have h := congrArg BitVec.toNat h
        rw [hman] at h
        simp at h
        omega
      · trivial
      · decide

/-! ## Comparing -/

theorem IsNormal.lt_of_lt {m n : ℕ} {e f : ℤ} (hm : m < 2 ^ 53) (hn : 2 ^ 52 ≤ n) (h : e < f) :
    (m : ℚ) * 2 ^ e < n * 2 ^ f := by
  have hpow : (2 : ℚ) ^ e * 2 ≤ 2 ^ f := by
    rw [← zpow_add_one₀ two_ne_zero]
    exact zpow_le_zpow_right₀ one_le_two h
  have hm' : (m : ℚ) < 2 ^ 53 := by exact_mod_cast hm
  have hn' : (2 : ℚ) ^ 52 ≤ n := by exact_mod_cast hn
  have hpos : (0 : ℚ) < 2 ^ e := by positivity
  nlinarith

/-- a magnitude has one normal form -/
theorem normal_unique {s s' : Sign} {m n : ℕ} {e f : ℤ} {hm : 0 < m} {hn : 0 < n} (h : IsNormal (.finite s m e hm))
    (h' : IsNormal (.finite s' n f hn)) (heq : (m : ℚ) * 2 ^ e = n * 2 ^ f) : m = n ∧ e = f := by
  obtain ⟨hlt, hlow, -, hnorm⟩ := h
  obtain ⟨hlt', hlow', -, hnorm'⟩ := h'
  have hef : e = f := by
    rcases lt_trichotomy e f with hlt₁ | heq₁ | hlt₁
    · exact absurd heq (IsNormal.lt_of_lt hlt (hnorm'.resolve_right (by omega)) hlt₁).ne
    · exact heq₁
    · exact absurd heq.symm (IsNormal.lt_of_lt hlt' (hnorm.resolve_right (by omega)) hlt₁).ne
  subst hef
  have hpos : (2 : ℚ) ^ e ≠ 0 := by positivity
  exact ⟨by exact_mod_cast mul_right_cancel₀ hpos heq, rfl⟩

theorem finite_eq_of_magnitude {s s' : Sign} {m n : ℕ} {e f : ℤ} {hm : 0 < m} {hn : 0 < n}
    (h : IsNormal (.finite s m e hm)) (h' : IsNormal (.finite s' n f hn))
    (heq : (s.apply m : ℚ) * 2 ^ e = s'.apply n * 2 ^ f) : UnpackedFloat.finite s m e hm = .finite s' n f hn := by
  have hpos : (0 : ℚ) < m * 2 ^ e := by positivity
  have hpos' : (0 : ℚ) < n * 2 ^ f := by positivity
  cases s <;> cases s' <;> simp only [Sign.apply, Int.cast_neg, Int.cast_natCast, neg_mul] at heq
  · obtain ⟨rfl, rfl⟩ := normal_unique h h' (neg_inj.1 heq)
    rfl
  · linarith
  · linarith
  · obtain ⟨rfl, rfl⟩ := normal_unique h h' heq
    rfl

/-- two doubles in normal form compare equal exactly if they stand for the same -/
theorem beq_iff {a b : UnpackedFloat} (ha : IsNormal a) (hb : IsNormal b) :
    a.beq b = true ↔ ∃ q, Magnitude.ofDouble? a = some q ∧ Magnitude.ofDouble? b = some q := by
  have hne {s : Sign} {m : ℕ} {e : ℤ} (hm : 0 < m) : (s.apply m : ℚ) * 2 ^ e ≠ 0 := by
    have hpos : (0 : ℚ) < m * 2 ^ e := by positivity
    cases s
    · simpa only [Sign.apply, Int.cast_neg, Int.cast_natCast, neg_mul, ne_eq, neg_eq_zero] using hpos.ne'
    · exact hpos.ne'
  rw [beq_iff_ne_notANumber_and_eq]
  constructor
  · rintro ⟨hnum, -, rfl | ⟨rfl, rfl⟩ | ⟨rfl, rfl⟩⟩
    · cases a with
      | notANumber => exact absurd rfl hnum
      | _ => exact ⟨_, rfl, rfl⟩
    · exact ⟨_, rfl, rfl⟩
    · exact ⟨_, rfl, rfl⟩
  · rintro ⟨q, hqa, hqb⟩
    have heq := hqa.trans hqb.symm
    refine ⟨(by rintro rfl; cases hqa), (by rintro rfl; cases hqb), ?_⟩
    cases a with
    | notANumber => cases hqa
    | infinity s =>
      cases b with
      | infinity s' => cases heq; exact .inl rfl
      | _ => cases heq
    | zero s =>
      cases b with
      | zero s' => cases s <;> cases s' <;> simp
      | finite s' n f hn => exact absurd (Magnitude.rational.inj (Option.some.inj heq)).symm (hne hn)
      | _ => cases heq
    | finite s m e hm =>
      cases b with
      | zero s' => exact absurd (Magnitude.rational.inj (Option.some.inj heq)) (hne hm)
      | finite s' n f hn => exact .inl (finite_eq_of_magnitude ha hb (Magnitude.rational.inj (Option.some.inj heq)))
      | _ => cases heq

/-! ## Integers as doubles -/

/-- what has 53 bits is not rounded -/
theorem shiftToTargetExponent_of_normal {m : ℕ} {e : ℤ} (hlow : 2 ^ 52 ≤ m) (hhigh : m < 2 ^ 53) (he : -1074 ≤ e) :
    shiftToTargetExponent .binary64 m e .exact = (⟨m, false, false⟩, e) := by
  have hlog : m.log2 = 52 := by
    have h₁ := (Nat.log2_lt (n := m) (k := 53) (by omega)).2 hhigh
    have h₂ := (Nat.le_log2 (n := m) (k := 52) (by omega)).2 hlow
    omega
  have htarget : Format.binary64.targetExponent (totalExponent m e) = e := by
    simp only [Format.targetExponent, totalExponent, Format.mantissaBits, Format.minExponent, hlog]
    norm_num
    omega
  unfold shiftToTargetExponent
  rw [htarget, shiftToExponent, Int.sub_self]
  simp [HShiftRight.hShiftRight, Nat.repeat, ExtendedMantissa.ofMantissaAndAccuracy]

theorem roundWithAccuracy_of_normal (s : Sign) {m : ℕ} {e : ℤ} (hlow : 2 ^ 52 ≤ m) (hhigh : m < 2 ^ 53) (he : -1074 ≤ e) :
    roundWithAccuracy .binary64 s m e .exact = .finite s m e (by omega) := by
  have hshift := shiftToTargetExponent_of_normal hlow hhigh he
  have hrounded : (ExtendedMantissa.mk m false false).roundedMantissa = m := rfl
  unfold roundWithAccuracy
  simp only [hshift, hrounded]
  rw [dif_neg (by omega)]

/-- a natural number of at most 53 bits becomes a double of its own value -/
theorem ofNat_exact {n : ℕ} (hn : n < 2 ^ 53) : IsNormal (UnpackedFloat.ofNat .binary64 n) ∧
    Magnitude.ofDouble? (UnpackedFloat.ofNat .binary64 n) = some (.rational n) := by
  rcases Nat.eq_zero_or_pos n with rfl | hpos
  · exact ⟨trivial, rfl⟩
  have hlog : n.log2 < 53 := (Nat.log2_lt hpos.ne').2 hn
  have hlow : 2 ^ n.log2 ≤ n := Nat.log2_self_le hpos.ne'
  have hhigh : n < 2 ^ (n.log2 + 1) := Nat.lt_log2_self
  -- the bits are shifted up until there are 53 of them
  obtain ⟨k, hk⟩ : ∃ k, n.log2 + k = 52 := ⟨52 - n.log2, by omega⟩
  have hshift : 2 ^ 52 ≤ n * 2 ^ k ∧ n * 2 ^ k < 2 ^ 53 := by
    constructor
    · calc 2 ^ 52 = 2 ^ n.log2 * 2 ^ k := by rw [← pow_add, hk]
        _ ≤ n * 2 ^ k := Nat.mul_le_mul_right _ hlow
    · calc n * 2 ^ k < 2 ^ (n.log2 + 1) * 2 ^ k := Nat.mul_lt_mul_of_pos_right hhigh (by positivity)
        _ = 2 ^ 53 := by rw [← pow_add]; congr 1; omega
  have htarget : Format.binary64.targetExponent (totalExponent n 0) = -k := by
    simp only [Format.targetExponent, totalExponent, Format.mantissaBits, Format.minExponent]
    norm_num
    omega
  have hround : UnpackedFloat.ofNat .binary64 n = .finite .positive (n * 2 ^ k) (-k) (by positivity) := by
    have hgt : compare (n : ℤ) 0 = .gt := by
      rw [compare_gt_iff_gt]
      omega
    unfold UnpackedFloat.ofNat UnpackedFloat.ofInt UnpackedFloat.normalize
    rw [hgt]
    simp only [UnpackedFloat.round, Int.toNat_natCast, htarget, decreaseExponent]
    rw [show ((0 : ℤ) - -k).toNat = k by omega, Nat.shiftLeft_eq, zero_sub]
    exact roundWithAccuracy_of_normal .positive hshift.1 hshift.2 (by omega)
  rw [hround]
  refine ⟨⟨hshift.2, by omega, by omega, .inl hshift.1⟩, ?_⟩
  simp [Magnitude.ofDouble?, Sign.apply]

theorem unpack_toFloat {n : UInt64} (hn : n.toNat < 2 ^ 53) :
    n.toFloat.toModel.unpack = UnpackedFloat.ofNat .binary64 n.toNat := unpack_pack (ofNat_exact hn).1

theorem isNormal_neg {u : UnpackedFloat} (hu : IsNormal u) : IsNormal u.neg := by
  cases u <;> exact hu

theorem unpack_neg (x : Float) : (-x).toModel.unpack = x.toModel.unpack.neg :=
  unpack_pack (isNormal_neg (isNormal_unpack _))

theorem ofDouble?_neg {u : UnpackedFloat} {q : ℚ} (hu : Magnitude.ofDouble? u = some (.rational q)) :
    Magnitude.ofDouble? u.neg = some (.rational (-q)) := by
  cases u with
  | zero s =>
    cases hu
    exact congrArg _ (congrArg _ neg_zero.symm)
  | finite s m e hm =>
    obtain rfl := Magnitude.rational.inj (Option.some.inj hu)
    have hsign : (-s).apply (m : ℤ) = -s.apply m := by
      cases s
      · exact (neg_neg _).symm
      · rfl
    simp only [UnpackedFloat.neg, Magnitude.ofDouble?, hsign, Int.cast_neg, neg_mul]
  | _ => cases hu

end Double

namespace Number

open Double

theorem widen_exact {v : ℤ} (hv : v.natAbs < 2 ^ 53) : magnitude? (.float (widen v)) = some (.rational v) := by
  have hnat : (UInt64.ofNat v.natAbs).toNat = v.natAbs := by
    rw [UInt64.toNat_ofNat']
    omega
  have hexact : Magnitude.ofDouble? (UInt64.ofNat v.natAbs).toFloat.toModel.unpack = some (.rational v.natAbs) := by
    rw [unpack_toFloat (by rwa [hnat]), hnat]
    exact (ofNat_exact hv).2
  unfold widen magnitude?
  simp only
  split
  · rw [unpack_neg, ofDouble?_neg hexact]
    congr 2
    rename_i hneg
    rw [Nat.cast_natAbs, abs_of_neg hneg]
    simp
  · rw [hexact]
    congr 2
    rename_i hneg
    rw [Nat.cast_natAbs, abs_of_nonneg (not_lt.1 hneg)]

theorem equal_float (x y : Float) : (x == y) = true ↔ ∃ q, magnitude? (.float x) = some q ∧ magnitude? (.float y) = some q :=
  beq_iff (isNormal_unpack _) (isNormal_unpack _)

/-- doubles that are in order are not equal -/
theorem beq_of_lt {x y : Float} (h : x < y) : (x == y) = false := by
  have hlt : (x.toModel.unpack.compare y.toModel.unpack == some .lt) = true := of_decide_eq_true (h : x.lt y = true)
  have hbeq : (x == y) = (x.toModel.unpack.compare y.toModel.unpack == some .eq) := rfl
  rw [hbeq, beq_iff_eq.1 hlt]
  rfl

/-- looking for the order of two doubles finds equal ones -/
theorem order_eq_iff {x y : Float} :
    (if x < y then some Ordering.lt else if y < x then some .gt else if x == y then some .eq else none) = some .eq ↔
      ∃ q, magnitude? (.float x) = some q ∧ magnitude? (.float y) = some q := by
  rw [← equal_float]
  split
  · rename_i hlt
    simp [beq_of_lt hlt]
  · split
    · rename_i hlt
      have hne : ¬ (x == y) = true := by
        rw [equal_float]
        rintro ⟨q, hx, hy⟩
        exact absurd ((equal_float y x).2 ⟨q, hy, hx⟩) (by simp [beq_of_lt hlt])
      simp [hne]
    · split <;> simp_all

/-- **Two numbers are equal exactly if they stand for the same.** -/
theorem equal_iff (x y : Number) : x.equal y = true ↔ ∃ q, x.magnitude? = some q ∧ y.magnitude? = some q := by
  have hint (n : Int32) : magnitude? (.float (widen n.toInt)) = magnitude? (.int n) := by
    have := n.toInt_lt
    have := n.le_toInt
    exact widen_exact (by omega)
  unfold equal
  rw [decide_eq_true_iff]
  cases x with
  | int a =>
    cases y with
    | int b =>
      simp only [compare?, magnitude?, Option.some.injEq, exists_eq_left', Magnitude.rational.injEq, Int.cast_inj,
        compare_eq_iff_eq]
      exact eq_comm
    | float y =>
      rw [← hint]
      exact order_eq_iff
  | float x =>
    cases y with
    | int b =>
      rw [← hint]
      exact order_eq_iff
    | float y => exact order_eq_iff

end Number

end LispMachine
