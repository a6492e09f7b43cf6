/-
Words stand for values.

Nine variants share 64 bits with all doubles. For every value that fits, the word can be made, every question about the word
has the answer that the value gives, and what the word carries is what the value carries; so two values share a word only if
they are equal. A double may come with any 64 bits. They are kept, but for those that are no number's: these share one pattern,
which no tagged word has (`ofDoubleBits`). The mood of an error can be changed in its word, with the handle left as it is.
-/
import Mathlib
import LispMachine.Word

namespace LispMachine

/-- a value that fits into a word: handles below `2 ^ 28`, stack ids below `2 ^ 16`, slots below `2 ^ 30`; immediates with no
meaning of their own are left out, as some of them have the words of others -/
inductive Value.Fits : Value → Prop where
  | float (x : Float) : Fits (.float x)
  | nil : Fits .nil
  | t : Fits .t
  | unset : Fits .unset
  | int (n : Int32) : Fits (.int n)
  | uint (n : UInt32) : Fits (.uint n)
  | cons {h : Handle} : 1 ≤ h → h < 0x10000000 → Fits (.cons h)
  | symbol {h : Handle} : 1 ≤ h → h < 0x10000000 → Fits (.symbol h)
  | scope {h : Handle} : 1 ≤ h → h < 0x10000000 → Fits (.scope h)
  | function {h : Handle} : 1 ≤ h → h < 0x10000000 → Fits (.function h)
  | error {h : Handle} (mood : Mood) : 1 ≤ h → h < 0x10000000 → Fits (.error h mood)
  | box {h : Handle} : 1 ≤ h → h < 0x10000000 → Fits (.box h)
  | stack {id i : Nat} : id < 0x10000 → i < 0x40000000 → Fits (.ref (.stack id i))
  | boxSlot {h : Handle} : 1 ≤ h → h < 0x10000000 → Fits (.ref (.box h))
  | car {h : Handle} : 1 ≤ h → h < 0x10000000 → Fits (.ref (.car h))
  | cdr {h : Handle} : 1 ≤ h → h < 0x10000000 → Fits (.ref (.cdr h))

namespace Word

/-- the bits of a double that is not a number -/
def IsNaN (w : Word) : Prop := w.toNat / 0x10000000000000 % 2048 = 0x7FF ∧ w.toNat % 0x10000000000000 ≠ 0

instance (w : Word) : Decidable w.IsNaN := inferInstanceAs (Decidable (_ ∧ _))

/-- every question about the word has the answer that the value gives, and the word carries what the value carries -/
structure StandsFor (w : Word) (v : Value) : Prop where
  kind : w.kind? = some v.kind
  isFloat : w.isFloat = true ↔ ∃ x, v = .float x
  isHeap : w.isHeap = v.isHeap
  isCons : w.isCons = true ↔ ∃ h, v = .cons h
  isSymbol : w.isSymbol = true ↔ ∃ h, v = .symbol h
  isReference : w.isReference = v.isReference
  isError : w.isError = v.isError
  isSignaling : w.isSignaling = v.isSignaling
  isBool : w.isBool = true ↔ v = .nil ∨ v = .t
  isInt : w.isInt = true ↔ ∃ n, v = .int n
  isUint : w.isUint = true ↔ ∃ n, v = .uint n
  isNil : w.isNil = true ↔ v = .nil
  isUnset : w.isUnset = true ↔ v = .unset
  float : ∀ x, v = .float x → w.float? = some x.toBits
  int : ∀ n, v = .int n → w.int? = some n
  uint : ∀ n, v = .uint n → w.uint? = some n
  handle : ∀ h, v.handle? = some h → w.handle = h
  place : ∀ p, v = .ref p → w.place? = some p
  decode : w.decode = some v

/-! ## Tagged words -/

section Tagged

variable {t p : Nat}

theorem toNat_tagged (ht : t < 16) (hp : p < 0x1000000000000) :
    (tagged t p).toNat = 0x7FF0000000000000 + t * 0x1000000000000 + p := by
  unfold tagged
  exact UInt64.toNat_ofNat_of_lt' (by simp only [UInt64.size]; omega)

theorem tag_tagged (ht : t < 16) (hp : p < 0x1000000000000) : (tagged t p).tag = t := by
  unfold tag
  rw [toNat_tagged ht hp]
  omega

theorem payload_tagged (ht : t < 16) (hp : p < 0x1000000000000) : (tagged t p).payload = p := by
  unfold payload
  rw [toNat_tagged ht hp]
  omega

theorem isFloat_tagged (ht : t < 16) (hp : p < 0x1000000000000) :
    (tagged t p).isFloat = (t == 0 || t == 8) := by
  unfold isFloat
  rw [tag_tagged ht hp, toNat_tagged ht hp]
  have hhigh : (0x7FF0000000000000 + t * 0x1000000000000 + p) / 0x10000000000000 = 0x7FF := by omega
  rw [hhigh]
  simp [Bool.beq_eq_decide_eq]

theorem tagged?_eq_some (hp : p < 0x1000000000000) : tagged? t p = some (tagged t p) := if_pos hp

/-- a tagged word is known by its tag and its payload -/
theorem eq_of_tagged {t' p' : Nat} (ht : t < 16) (hp : p < 0x1000000000000) (ht' : t' < 16) (hp' : p' < 0x1000000000000)
    (h : tagged t p = tagged t' p') : t = t' ∧ p = p' := by
  have htag := congrArg tag h
  have hpayload := congrArg payload h
  rw [tag_tagged ht hp, tag_tagged ht' hp'] at htag
  rw [payload_tagged ht hp, payload_tagged ht' hp'] at hpayload
  exact ⟨htag, hpayload⟩

end Tagged

section Questions

variable {t p : Nat} (ht : t < 16) (hp : p < 0x1000000000000)
include ht hp

theorem hasTag_tagged (t' : Nat) : (tagged t p).hasTag t' = (!(t == 0 || t == 8) && t == t') := by
  unfold hasTag
  rw [isFloat_tagged ht hp, tag_tagged ht hp]
  rfl

theorem immediate?_tagged :
    (tagged t p).immediate? = if t = 9 then some (p / 0x100000000, p % 0x100000000) else none := by
  unfold immediate?
  rw [hasTag_tagged ht hp, payload_tagged ht hp]
  by_cases h : t = 9
  · simp [h]
  · simp [h]

theorem isNil_tagged : (tagged t p).isNil = true ↔ t = 9 ∧ p = 0 := by
  unfold isNil immediate
  rw [decide_eq_true_iff]
  refine ⟨fun h => eq_of_tagged ht hp (by decide) (by decide) h, ?_⟩
  rintro ⟨rfl, rfl⟩
  rfl

theorem isUnset_tagged : (tagged t p).isUnset = true ↔ t = 9 ∧ p = 0x300000000 := by
  unfold isUnset immediate
  rw [decide_eq_true_iff]
  refine ⟨fun h => eq_of_tagged ht hp (by decide) (by decide) h, ?_⟩
  rintro ⟨rfl, rfl⟩
  rfl

end Questions

/-! ## Doubles -/

theorem ofDoubleBits_eq (w : Word) : ofDoubleBits w = if w.IsNaN then canonicalNaN else w := rfl

open Float.Model in
theorem isNaNBits_iff (w : Word) : @UnpackedFloat.isNaNBits .binary64 w.toBitVec = true ↔ w.IsNaN := by
  unfold UnpackedFloat.isNaNBits UnpackedFloat.unpackExponent UnpackedFloat.unpackMantissa IsNaN
  rw [decide_eq_true_iff]
  simp only [← BitVec.toNat_inj, ne_eq, BitVec.toNat_cast, BitVec.extractLsb_toNat]
  simp [Nat.shiftRight_eq_div_pow]

open Float.Model in
/-- a double keeps its bits, unless it is not a number -/
theorem toBits_ofBits (w : Word) : (Float.ofBits w).toBits = ofDoubleBits w := by
  have hnan : UnpackedFloat.packedNaN Format.binary64 = canonicalNaN.toBitVec := by decide
  rw [ofDoubleBits_eq, ← UInt64.toBitVec_inj]
  refine (@UnpackedFloat.pack_unpack .binary64 w.toBitVec (by decide)).trans ?_
  rw [hnan]
  by_cases h : w.IsNaN
  · rw [if_pos ((isNaNBits_iff w).2 h), if_pos h]
  · rw [if_neg (mt (isNaNBits_iff w).1 h), if_neg h]

/-- the bits of a double are its word -/
theorem ofDoubleBits_toBits (x : Float) : ofDoubleBits x.toBits = x.toBits := by
  rw [← toBits_ofBits, Float.ofBits_toBits]

theorem isFloat_ofDoubleBits (w : Word) : (ofDoubleBits w).isFloat = true := by
  rw [ofDoubleBits_eq]
  split
  · decide
  · rename_i h
    -- no tag is set in a word that is a number, or its exponent is not full
    have hlt := w.toNat_lt
    unfold IsNaN at h
    have hbits : w.toNat / 0x10000000000000 ≠ 0x7FF ∨ w.toNat / 0x1000000000000 % 16 = 0 := by omega
    rcases hbits with hprefix | htag
    · simp [isFloat, hprefix]
    · simp [isFloat, tag, htag]

theorem ofDoubleBits_inj {w w' : Word} : ofDoubleBits w = ofDoubleBits w' ↔ w = w' ∨ w.IsNaN ∧ w'.IsNaN := by
  have hcanonical : canonicalNaN.IsNaN := by decide
  simp only [ofDoubleBits_eq]
  split <;> split <;> rename_i h h'
  · exact ⟨fun _ => .inr ⟨h, h'⟩, fun _ => rfl⟩
  · refine ⟨fun heq => absurd (heq ▸ hcanonical) h', ?_⟩
    rintro (rfl | hboth)
    · exact absurd h h'
    · exact absurd hboth.2 h'
  · refine ⟨fun heq => absurd (heq ▸ hcanonical) h, ?_⟩
    rintro (rfl | hboth)
    · exact absurd h' h
    · exact absurd hboth.1 h
  · exact ⟨.inl, fun hor => hor.resolve_right fun hboth => h hboth.1⟩

/-! ## Every variant -/

theorem standsFor_float (x : Float) : (encode (.float x)).StandsFor (.float x) := by
  obtain ⟨w, hw⟩ : ∃ w : Word, w = encode (.float x) := ⟨_, rfl⟩
  have hbits : w = x.toBits := hw.trans (ofDoubleBits_toBits x)
  have hfloat : w.isFloat = true := hw ▸ isFloat_ofDoubleBits x.toBits
  have htag (t : Nat) : w.hasTag t = false := by unfold hasTag; rw [hfloat]; rfl
  have himmediate : w.immediate? = none := by unfold immediate?; rw [htag]; rfl
  have hother (w' : Word) (h : w'.isFloat = false) : w ≠ w' := by
    rintro rfl
    rw [hfloat] at h
    cases h
  have hdecode : w.decode = some (.float x) := by
    unfold decode
    rw [if_pos hfloat, hbits, Float.ofBits_toBits]
  have hread : w.float? = some x.toBits := by unfold float?; rw [if_pos hfloat, hbits]
  rw [← hw]
  constructor <;>
    simp [kind?, isHeap, isCons, isSymbol, isReference, isError, isSignaling, isBool, isInt, isUint, hasSubTag, isNil, isUnset,
      Value.kind, Value.isHeap, Value.handle?, Value.isReference, Value.isError, Value.isSignaling, hfloat, htag, himmediate,
      hother (immediate 0 0) (by decide), hother (immediate 3 0) (by decide), hread, hdecode]

theorem decode_tagged {t p : Nat} (ht : t < 16) (hp : p < 0x1000000000000) (hfloat : (t == 0 || t == 8) = false) :
    (tagged t p).decode = decodeTagged t p := by
  unfold decode
  rw [isFloat_tagged ht hp, hfloat, if_neg Bool.false_ne_true, tag_tagged ht hp, payload_tagged ht hp]

/-- an immediate with a meaning stands for what it decodes to -/
theorem standsFor_immediate {p : Nat} {v : Value} (hp : p < 0x1000000000000)
    (hv : decodeImmediate (p / 0x100000000) (p % 0x100000000) = v) (hmeant : ∀ sub val, v ≠ .reserved sub val) :
    (tagged 9 p).StandsFor v := by
  have hdecode := decode_tagged (show 9 < 16 by decide) hp rfl
  have hnil : p = 0 ↔ p / 0x100000000 = 0 ∧ p % 0x100000000 = 0 := by omega
  have hunset : p = 0x300000000 ↔ p / 0x100000000 = 3 ∧ p % 0x100000000 = 0 := by omega
  generalize hsub : p / 0x100000000 = sub, hval : p % 0x100000000 = val at *
  unfold decodeImmediate at hv
  split at hv <;> subst hv <;> first
    | exact absurd rfl (hmeant _ _)
    | (constructor <;>
        simp [kind?, isHeap, isCons, isSymbol, isReference, isError, isSignaling, isBool, isInt, isUint, hasSubTag, int?,
          uint?, decodeTagged, decodeImmediate, Value.kind, Value.isHeap, Value.handle?, Value.isReference, Value.isError,
          Value.isSignaling, isFloat_tagged, tag_tagged, hasTag_tagged, immediate?_tagged, isNil_tagged, isUnset_tagged, hp,
          hdecode, hnil, hunset, hsub, hval])

/-- a word that names an object or a place stands for what it decodes to -/
theorem standsFor_tagged {t p : Nat} {v : Value} (ht : t < 8) (hp : p < 0x1000000000000)
    (hv : (tagged t p).decode = some v) (hfloat : t ≠ 0) : (tagged t p).StandsFor v := by
  have hdecode := hv
  rw [decode_tagged (ht.trans (by decide)) hp (by simp; omega)] at hv
  obtain rfl | rfl | rfl | rfl | rfl | rfl | rfl : t = 1 ∨ t = 2 ∨ t = 3 ∨ t = 4 ∨ t = 6 ∨ t = 7 ∨ t = 5 := by omega
  case inr.inr.inr.inr.inr.inr =>
    by_cases hmood : p % 8 = 0
    all_goals
      simp only [decodeTagged, hmood, if_true, if_false, Option.some.injEq] at hv
      subst hv
      constructor <;>
        simp [kind?, isHeap, isCons, isSymbol, isReference, isError, isSignaling, isBool, isInt, isUint, hasSubTag, handle,
          Value.kind, Value.isHeap, Value.handle?, Value.isReference, Value.isError, Value.isSignaling, isFloat_tagged,
          tag_tagged, payload_tagged, hasTag_tagged, immediate?_tagged, isNil_tagged, isUnset_tagged, hp, hdecode, hmood]
  all_goals
    simp only [decodeTagged, Option.some.injEq] at hv
    subst hv
    constructor <;>
      simp [kind?, isHeap, isCons, isSymbol, isReference, isError, isSignaling, isBool, isInt, isUint, hasSubTag, place?,
        handle, Value.kind, Value.isHeap, Value.handle?, Value.isReference, Value.isError, Value.isSignaling, isFloat_tagged,
        tag_tagged, payload_tagged, hasTag_tagged, immediate?_tagged, isNil_tagged, isUnset_tagged, hp, hdecode]

theorem error_lt {h : Nat} (mood : Mood) (hh : h < 0x10000000) : h * 8 + moodBits mood < 0x1000000000000 := by
  cases mood <;> simp only [moodBits] <;> omega

theorem decodeTagged_error (h : Nat) (mood : Mood) : decodeTagged 5 (h * 8 + moodBits mood) = some (.error h mood) := by
  have hbits : moodBits mood < 8 := by cases mood <;> decide
  have hhandle : (h * 8 + moodBits mood) / 8 = h := by omega
  have hmood : (h * 8 + moodBits mood) % 8 = moodBits mood := by omega
  simp only [decodeTagged, hhandle, hmood]
  cases mood <;> rfl

section Places

variable {p : Place} (hp : (Value.ref p).Fits)
include hp

theorem placePayload?_eq_some : placePayload? p = some (placePayload p) := by
  cases hp with
  | stack _ hi => exact if_pos hi
  | _ => rfl

theorem placePayload_lt : placePayload p < 0x1000000000000 := by
  cases hp with
  | stack hid hi => simp only [placePayload]; omega
  | boxSlot _ hh | car _ hh | cdr _ hh =>
    have hh := Nat.lt_of_lt_of_le hh (show 0x10000000 ≤ 0x400000000000 by decide)
    simp only [placePayload]
    omega

theorem decodePlace_placePayload : decodePlace (placePayload p) = p := by
  -- the kind of place stands above forty-six bits of location
  have hsplit (k : Nat) {loc : Nat} (hloc : loc < 0x10000000) :
      (k * 0x400000000000 + loc) / 0x400000000000 = k ∧ (k * 0x400000000000 + loc) % 0x400000000000 = loc := by omega
  cases hp with
  | @stack id i hid hi =>
    have hkind : (id * 0x40000000 + i) / 0x400000000000 = 0 := by omega
    have hid' : (id * 0x40000000 + i) % 0x400000000000 / 0x40000000 = id := by omega
    have hi' : (id * 0x40000000 + i) % 0x400000000000 % 0x40000000 = i := by omega
    simp only [placePayload, decodePlace, hkind, hid', hi']
  | boxSlot _ hh =>
    obtain ⟨hkind, hloc⟩ := hsplit 1 hh
    rw [Nat.one_mul] at hkind hloc
    simp only [placePayload, decodePlace, hkind, hloc]
  | car _ hh =>
    obtain ⟨hkind, hloc⟩ := hsplit 2 hh
    simp only [placePayload, decodePlace, hkind, hloc]
  | cdr _ hh =>
    obtain ⟨hkind, hloc⟩ := hsplit 3 hh
    simp only [placePayload, decodePlace, hkind, hloc]

end Places

/-- whatever fits is made into a word without loss -/
theorem StandsFor.of_fits {v : Value} (hv : v.Fits) : encode? v = some (encode v) ∧ (encode v).StandsFor v := by
  have hwide {h : Nat} (hh : h < 0x10000000) : h < 0x1000000000000 := hh.trans (by decide)
  have hplace {p : Place} (hp : (Value.ref p).Fits) :
      encode? (.ref p) = some (encode (.ref p)) ∧ (encode (.ref p)).StandsFor (.ref p) := by
    have hlt := placePayload_lt hp
    refine ⟨?_, standsFor_tagged (by decide) hlt ?_ (by decide)⟩
    · simp only [encode?, placePayload?_eq_some hp, Option.bind_some]
      exact tagged?_eq_some hlt
    · rw [decode_tagged (by decide) hlt rfl, decodeTagged, decodePlace_placePayload hp]
  cases hv with
  | float x => exact ⟨rfl, standsFor_float x⟩
  | nil | t | unset => exact ⟨rfl, standsFor_immediate (by decide) rfl (by simp)⟩
  | int n =>
    have hn := n.toUInt32.toNat_lt
    refine ⟨rfl, standsFor_immediate (by omega) ?_ (by simp)⟩
    rw [show (1 * 0x100000000 + n.toUInt32.toNat) / 0x100000000 = 1 by omega,
      show (1 * 0x100000000 + n.toUInt32.toNat) % 0x100000000 = n.toUInt32.toNat by omega]
    simp [decodeImmediate]
  | uint n =>
    have hn := n.toNat_lt
    refine ⟨rfl, standsFor_immediate (by omega) ?_ (by simp)⟩
    rw [show (2 * 0x100000000 + n.toNat) / 0x100000000 = 2 by omega,
      show (2 * 0x100000000 + n.toNat) % 0x100000000 = n.toNat by omega]
    simp [decodeImmediate]
  | cons _ hh | symbol _ hh | scope _ hh | function _ hh | box _ hh =>
    refine ⟨tagged?_eq_some (hwide hh), standsFor_tagged (by decide) (hwide hh) ?_ (by decide)⟩
    exact decode_tagged (by decide) (hwide hh) rfl
  | @error h mood _ hh =>
    have hp := error_lt mood hh
    refine ⟨tagged?_eq_some hp, standsFor_tagged (by decide) hp ?_ (by decide)⟩
    exact (decode_tagged (by decide) hp rfl).trans (decodeTagged_error h mood)
  | stack hid hi => exact hplace (.stack hid hi)
  | boxSlot h₁ hh => exact hplace (.boxSlot h₁ hh)
  | car h₁ hh => exact hplace (.car h₁ hh)
  | cdr h₁ hh => exact hplace (.cdr h₁ hh)

/-- two values that fit share a word only if they are equal -/
theorem encode_inj {v v' : Value} (hv : v.Fits) (hv' : v'.Fits) : encode v = encode v' ↔ v = v' := by
  refine ⟨fun h => ?_, congrArg encode⟩
  have hdecode := (StandsFor.of_fits hv).2.decode
  rw [h, (StandsFor.of_fits hv').2.decode] at hdecode
  exact (Option.some.inj hdecode).symm

/-! ## Moods -/

theorem inMood_error {h : Nat} {mood : Mood} (mood' : Mood) (hh : h < 0x10000000) :
    (encode (.error h mood)).inMood mood' = encode (.error h mood') := by
  have hp := error_lt mood hh
  have hbits : moodBits mood < 8 := by cases mood <;> decide
  have herror : (tagged 5 (h * 8 + moodBits mood)).isError = true := hasTag_tagged (by decide) hp 5
  have hhandle : (h * 8 + moodBits mood) / 8 = h := by omega
  simp only [encode, inMood, herror, payload_tagged (show 5 < 16 by decide) hp, hhandle, if_true]

theorem inMood_of_not_error {w : Word} (mood : Mood) (hw : w.isError = false) : w.inMood mood = w := by
  unfold inMood
  rw [hw, if_neg Bool.false_ne_true]

/-! ## All bit patterns -/

/-- the word of the double with the given bits is made from them, before any double is -/
theorem encode_ofBits (bits : Word) : encode (.float (Float.ofBits bits)) = ofDoubleBits bits :=
  (ofDoubleBits_toBits _).trans (toBits_ofBits bits)

theorem standsFor_ofDoubleBits (bits : Word) : (ofDoubleBits bits).StandsFor (.float (Float.ofBits bits)) :=
  encode_ofBits bits ▸ standsFor_float (Float.ofBits bits)

/-- bits come back from their word one by one, unless they are no number's -/
theorem float?_ofDoubleBits (bits : Word) :
    (ofDoubleBits bits).float? = some (if bits.IsNaN then canonicalNaN else bits) := by
  rw [(standsFor_ofDoubleBits bits).float _ rfl, toBits_ofBits, ofDoubleBits_eq]

/-- no bits of a double have the word of a tagged value, or that of another double -/
theorem ofDoubleBits_eq_encode {bits : Word} {v : Value} (hv : v.Fits) :
    ofDoubleBits bits = encode v ↔ v = .float (Float.ofBits bits) := by
  rw [← encode_ofBits, encode_inj (.float _) hv]
  exact eq_comm

/-- The encoding is faithful. A value that fits has a word, of which all questions about the value can be asked, and shares
it with no other value that fits. A double may be given by any 64 bits: their word is that of the double and of no other value
that fits, gives the bits back unless they are no number's, and is shared by two patterns only if they are one or neither is a
number's; those that are not have one word. Turning an error quiet or signaling turns the one word into the other, and leaves the
words that are not errors. -/
theorem encode_faithful :
    (∀ v : Value, v.Fits → encode? v = some (encode v) ∧ (encode v).StandsFor v) ∧
    (∀ v v' : Value, v.Fits → v'.Fits → (encode v = encode v' ↔ v = v')) ∧
    (∀ bits : Word, (ofDoubleBits bits).StandsFor (.float (Float.ofBits bits)) ∧
      (ofDoubleBits bits).float? = some (if bits.IsNaN then canonicalNaN else bits) ∧
      encode (.float (Float.ofBits bits)) = ofDoubleBits bits) ∧
    (∀ bits bits' : Word, ofDoubleBits bits = ofDoubleBits bits' ↔ bits = bits' ∨ bits.IsNaN ∧ bits'.IsNaN) ∧
    (∀ (bits : Word) (v : Value), v.Fits → (ofDoubleBits bits = encode v ↔ v = .float (Float.ofBits bits))) ∧
    (∀ (h : Handle) (mood mood' : Mood), (Value.error h mood).Fits →
      (encode (.error h mood)).inMood mood' = encode (.error h mood') ∧
      ((encode (.error h mood)).inMood mood').handle = h) ∧
    (∀ (w : Word) (mood : Mood), w.isError = false → w.inMood mood = w) := by
  refine ⟨fun v hv => StandsFor.of_fits hv, fun v v' hv hv' => encode_inj hv hv',
    fun bits => ⟨standsFor_ofDoubleBits bits, float?_ofDoubleBits bits, encode_ofBits bits⟩,
    fun bits bits' => ofDoubleBits_inj, fun bits v hv => ofDoubleBits_eq_encode hv, fun h mood mood' hfits => ?_,
    fun w mood hw => inMood_of_not_error mood hw⟩
  cases hfits with
  | error _ h₁ hh =>
    have hword := @inMood_error h mood mood' hh
    refine ⟨hword, ?_⟩
    rw [hword]
    exact (StandsFor.of_fits (.error mood' h₁ hh)).2.handle h rfl

/-- the bits of a negative double that is no number, with a payload full of tag bits, beside an error of the last handle and the
reference to the last slot of the last stack -/
theorem encode_faithful_at_bounds :
    IsNaN 0xFFF5123456789ABC ∧ (ofDoubleBits 0xFFF5123456789ABC).float? = some canonicalNaN ∧
    (ofDoubleBits 0xFFF5123456789ABC).kind? = some .float ∧ ofDoubleBits 0xFFF5123456789ABC ≠ encode (.error 7 .signaling) ∧
    (encode (.error 0xFFFFFFF .signaling)).inMood .quiet = encode (.error 0xFFFFFFF .quiet) ∧
    (encode (.ref (.stack 0xFFFF 0x3FFFFFFF))).place? = some (.stack 0xFFFF 0x3FFFFFFF) ∧
    encode (.cons 1) ≠ encode (.symbol 1) ∧ canonicalNaN.inMood .quiet = canonicalNaN := by
  obtain ⟨hfits, hinj, hdouble, -, hapart, hmood, hother⟩ := encode_faithful
  have hnan : IsNaN 0xFFF5123456789ABC := by decide
  obtain ⟨hstands, hread, -⟩ := hdouble 0xFFF5123456789ABC
  refine ⟨hnan, ?_, hstands.kind, ?_, ?_, ?_, ?_, hother canonicalNaN .quiet (by decide)⟩
  · rw [hread, if_pos hnan]
  · rw [ne_eq, hapart _ _ (.error .signaling (by decide) (by decide))]
    simp
  · exact (hmood 0xFFFFFFF .signaling .quiet (.error .signaling (by decide) (by decide))).1
  · exact (hfits _ (.stack (by decide) (by decide))).2.place _ rfl
  · rw [ne_eq, hinj (.cons 1) (.symbol 1) (.cons (by decide) (by decide)) (.symbol (by decide) (by decide))]
    simp

end Word

end LispMachine
