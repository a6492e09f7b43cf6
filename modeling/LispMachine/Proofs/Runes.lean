/-
Reading bytes as runes.

At every place of a byte string there is at most one character whose encoding starts there, and `lead?` finds it. So the runes
of a byte string are the only way to split it into encoded characters and stray bytes such that no stray byte starts an
encoded character. A line end is a rune of its own wherever it stands: what comes after it does not change what comes before.
-/
import Mathlib
import LispMachine.Text.Rune

namespace LispMachine.Text.Rune

open String (utf8EncodeChar)

/-! ## Encoded characters -/

theorem encode_one {c : Char} (h : c.toNat < 0x80) : utf8EncodeChar c = [UInt8.ofNat c.toNat] := by
  have hv : c.val.toNat ≤ 0x7F := Nat.le_of_lt_succ h
  simp only [utf8EncodeChar, if_pos hv]
  rfl

theorem encode_two {c : Char} (hlow : 0x80 ≤ c.toNat) (h : c.toNat < 0x800) :
    utf8EncodeChar c = [UInt8.ofNat (c.toNat / 64 + 0xC0), UInt8.ofNat (c.toNat % 64 + 0x80)] := by
  have hv : ¬ c.val.toNat ≤ 0x7F := Nat.not_le_of_lt hlow
  have hv' : c.val.toNat ≤ 0x7FF := Nat.le_of_lt_succ h
  have hhead : c.val.toNat / 64 % 32 = c.toNat / 64 := by
    have : c.val.toNat = c.toNat := rfl
    omega
  simp only [utf8EncodeChar, if_neg hv, if_pos hv', hhead]
  rfl

theorem encode_three {c : Char} (hlow : 0x800 ≤ c.toNat) (h : c.toNat < 0x10000) :
    utf8EncodeChar c = [UInt8.ofNat (c.toNat / 4096 + 0xE0), UInt8.ofNat (c.toNat / 64 % 64 + 0x80),
      UInt8.ofNat (c.toNat % 64 + 0x80)] := by
  have heq : c.val.toNat = c.toNat := rfl
  have hv : ¬ c.val.toNat ≤ 0x7F := by omega
  have hv' : ¬ c.val.toNat ≤ 0x7FF := by omega
  have hv'' : c.val.toNat ≤ 0xFFFF := by omega
  have hhead : c.val.toNat / 4096 % 16 = c.toNat / 4096 := by omega
  simp only [utf8EncodeChar, if_neg hv, if_neg hv', if_pos hv'', hhead]
  rfl

theorem encode_four {c : Char} (hlow : 0x10000 ≤ c.toNat) :
    utf8EncodeChar c = [UInt8.ofNat (c.toNat / 262144 + 0xF0), UInt8.ofNat (c.toNat / 4096 % 64 + 0x80),
      UInt8.ofNat (c.toNat / 64 % 64 + 0x80), UInt8.ofNat (c.toNat % 64 + 0x80)] := by
  have heq : c.val.toNat = c.toNat := rfl
  have hmax : c.toNat < 0x110000 := by
    have hvalid := c.valid
    simp only [UInt32.isValidChar, Nat.isValidChar] at hvalid
    omega
  have hv : ¬ c.val.toNat ≤ 0x7F := by omega
  have hv' : ¬ c.val.toNat ≤ 0x7FF := by omega
  have hv'' : ¬ c.val.toNat ≤ 0xFFFF := by omega
  have hhead : c.val.toNat / 262144 % 8 = c.toNat / 262144 := by omega
  simp only [utf8EncodeChar, if_neg hv, if_neg hv', if_neg hv'', hhead]
  rfl

theorem toNat_ofNat {n : Nat} (h : n.isValidChar) : (Char.ofNat n).toNat = n := by
  simp [Char.ofNat, h, Char.toNat, Char.ofNatAux]

/-! ## The character at the start -/

theorem tail?_eq_some {b : UInt8} {low high x : Nat} :
    tail? b low high = some x ↔ low ≤ b.toNat ∧ b.toNat ≤ high ∧ b.toNat % 64 = x := by
  unfold tail?
  split <;> simp_all

theorem tail?_ofNat {low high x : Nat} (hx : x < 64) (hlow : low ≤ x + 0x80) (hhigh : x + 0x80 ≤ high) :
    tail? (UInt8.ofNat (x + 0x80)) low high = some x := by
  have hbyte : (UInt8.ofNat (x + 0x80)).toNat = x + 0x80 := by
    rw [UInt8.toNat_ofNat']
    omega
  rw [tail?_eq_some, hbyte]
  omega

/-- the encoding of a character is found where it starts -/
theorem lead?_encode (c : Char) (bs : List UInt8) :
    lead? (utf8EncodeChar c ++ bs) = some (c, (utf8EncodeChar c).length) := by
  have hvalid : c.toNat < 0xD800 ∨ 0xDFFF < c.toNat ∧ c.toNat < 0x110000 := by
    have hvalid := c.valid
    simp only [UInt32.isValidChar, Nat.isValidChar] at hvalid
    exact hvalid
  have hbyte {n : Nat} (hn : n < 256) : (UInt8.ofNat n).toNat = n := by
    rw [UInt8.toNat_ofNat']
    omega
  have hc : Char.ofNat c.toNat = c := Char.ofNat_toNat c
  by_cases h₁ : c.toNat < 0x80
  · rw [encode_one h₁]
    simp [lead?, hbyte (show c.toNat < 256 by omega), h₁, hc]
  by_cases h₂ : c.toNat < 0x800
  · rw [encode_two (by omega) h₂]
    have hhead := hbyte (show c.toNat / 64 + 0xC0 < 256 by omega)
    have hx : tail? (UInt8.ofNat (c.toNat % 64 + 0x80)) 0x80 0xBF = some (c.toNat % 64) :=
      tail?_ofNat (by omega) (by omega) (by omega)
    have hvalue : (c.toNat / 64 + 0xC0) % 32 * 64 + c.toNat % 64 = c.toNat := by omega
    simp only [lead?, List.cons_append, List.nil_append, hhead]
    rw [if_neg (by omega), if_pos (by omega), hx]
    simp [hvalue, hc]
  by_cases h₃ : c.toNat < 0x10000
  · rw [encode_three (by omega) h₃]
    have hhead := hbyte (show c.toNat / 4096 + 0xE0 < 256 by omega)
    have hx : tail? (UInt8.ofNat (c.toNat / 64 % 64 + 0x80)) (if c.toNat / 4096 + 0xE0 = 0xE0 then 0xA0 else 0x80)
        (if c.toNat / 4096 + 0xE0 = 0xED then 0x9F else 0xBF) = some (c.toNat / 64 % 64) :=
      tail?_ofNat (by omega) (by split <;> omega) (by split <;> omega)
    have hy : tail? (UInt8.ofNat (c.toNat % 64 + 0x80)) 0x80 0xBF = some (c.toNat % 64) :=
      tail?_ofNat (by omega) (by omega) (by omega)
    have hvalue : (c.toNat / 4096 + 0xE0) % 16 * 4096 + c.toNat / 64 % 64 * 64 + c.toNat % 64 = c.toNat := by omega
    simp only [lead?, List.cons_append, List.nil_append, hhead]
    rw [if_neg (by omega), if_neg (by omega), if_pos (by omega), hx, hy]
    simp [hvalue, hc]
  · rw [encode_four (by omega)]
    have hhead := hbyte (show c.toNat / 262144 + 0xF0 < 256 by omega)
    have hx : tail? (UInt8.ofNat (c.toNat / 4096 % 64 + 0x80)) (if c.toNat / 262144 + 0xF0 = 0xF0 then 0x90 else 0x80)
        (if c.toNat / 262144 + 0xF0 = 0xF4 then 0x8F else 0xBF) = some (c.toNat / 4096 % 64) :=
      tail?_ofNat (by omega) (by split <;> omega) (by split <;> omega)
    have hy : tail? (UInt8.ofNat (c.toNat / 64 % 64 + 0x80)) 0x80 0xBF = some (c.toNat / 64 % 64) :=
      tail?_ofNat (by omega) (by omega) (by omega)
    have hz : tail? (UInt8.ofNat (c.toNat % 64 + 0x80)) 0x80 0xBF = some (c.toNat % 64) :=
      tail?_ofNat (by omega) (by omega) (by omega)
    have hvalue : (c.toNat / 262144 + 0xF0) % 8 * 262144 + c.toNat / 4096 % 64 * 4096 + c.toNat / 64 % 64 * 64 +
        c.toNat % 64 = c.toNat := by omega
    simp only [lead?, List.cons_append, List.nil_append, hhead]
    rw [if_neg (by omega), if_neg (by omega), if_neg (by omega), if_pos (by omega), hx, hy, hz]
    simp [hvalue, hc]

/-- what is found is the encoding of a character -/
theorem encode_of_lead? {bs : List UInt8} {c : Char} {n : Nat} (h : lead? bs = some (c, n)) :
    n = (utf8EncodeChar c).length ∧ utf8EncodeChar c <+: bs := by
  have hbyte {b : UInt8} {k : Nat} (hk : k = b.toNat) : UInt8.ofNat k = b := by rw [hk, UInt8.ofNat_toNat]
  match bs with
  | [] => cases h
  | b :: rest =>
    have hb := b.toNat_lt
    simp only [lead?] at h
    split at h
    · rename_i hlow
      obtain ⟨rfl, rfl⟩ : Char.ofNat b.toNat = c ∧ 1 = n := by simpa using h
      have hc : (Char.ofNat b.toNat).toNat = b.toNat := toNat_ofNat (.inl (by omega))
      rw [encode_one (by rw [hc]; exact hlow), hc, UInt8.ofNat_toNat]
      exact ⟨rfl, rest, rfl⟩
    split at h
    · match rest with
      | [] => cases h
      | b₁ :: rest =>
        simp only [Option.bind_eq_bind, Option.bind_eq_some_iff, tail?_eq_some, Option.some.injEq, Prod.mk.injEq] at h
        obtain ⟨x, hx, rfl, rfl⟩ := h
        have hc : (Char.ofNat (b.toNat % 32 * 64 + x)).toNat = b.toNat % 32 * 64 + x := toNat_ofNat (.inl (by omega))
        rw [encode_two (by omega) (by omega), hc, hbyte (b := b) (by omega), hbyte (b := b₁) (by omega)]
        exact ⟨rfl, rest, rfl⟩
    split at h
    · match rest with
      | [] | [_] => cases h
      | b₁ :: b₂ :: rest =>
        simp only [Option.bind_eq_bind, Option.bind_eq_some_iff, tail?_eq_some, Option.some.injEq, Prod.mk.injEq] at h
        obtain ⟨x, hx, y, hy, rfl, rfl⟩ := h
        have htail : 0x80 ≤ b₁.toNat ∧ b₁.toNat ≤ 0xBF := by split at hx <;> split at hx <;> omega
        have hlow : 0x800 ≤ b.toNat % 16 * 4096 + x * 64 + y := by split at hx <;> split at hx <;> omega
        have hc : (Char.ofNat (b.toNat % 16 * 4096 + x * 64 + y)).toNat = b.toNat % 16 * 4096 + x * 64 + y := by
          refine toNat_ofNat ?_
          unfold Nat.isValidChar
          split at hx <;> split at hx <;> omega
        rw [encode_three (by omega) (by omega), hc, hbyte (b := b) (by omega), hbyte (b := b₁) (by omega),
          hbyte (b := b₂) (by omega)]
        exact ⟨rfl, rest, rfl⟩
    split at h
    · match rest with
      | [] | [_] | [_, _] => cases h
      | b₁ :: b₂ :: b₃ :: rest =>
        simp only [Option.bind_eq_bind, Option.bind_eq_some_iff, tail?_eq_some, Option.some.injEq, Prod.mk.injEq] at h
        obtain ⟨x, hx, y, hy, z, hz, rfl, rfl⟩ := h
        have htail : 0x80 ≤ b₁.toNat ∧ b₁.toNat ≤ 0xBF := by split at hx <;> split at hx <;> omega
        have hlow : 0x10000 ≤ b.toNat % 8 * 262144 + x * 4096 + y * 64 + z := by split at hx <;> split at hx <;> omega
        have hhigh : b.toNat % 8 * 262144 + x * 4096 + y * 64 + z < 0x110000 := by
          split at hx <;> split at hx <;> omega
        have hc : (Char.ofNat (b.toNat % 8 * 262144 + x * 4096 + y * 64 + z)).toNat =
            b.toNat % 8 * 262144 + x * 4096 + y * 64 + z := toNat_ofNat (.inr (by omega))
        rw [encode_four (by omega), hc, hbyte (b := b) (by omega), hbyte (b := b₁) (by omega), hbyte (b := b₂) (by omega),
          hbyte (b := b₃) (by omega)]
        exact ⟨rfl, rest, rfl⟩
    · cases h

theorem lead?_eq_some_iff {bs : List UInt8} {c : Char} {n : Nat} :
    lead? bs = some (c, n) ↔ n = (utf8EncodeChar c).length ∧ utf8EncodeChar c <+: bs := by
  refine ⟨encode_of_lead?, ?_⟩
  rintro ⟨rfl, rest, rfl⟩
  exact lead?_encode c rest

theorem lead?_eq_none_iff {bs : List UInt8} : lead? bs = none ↔ ∀ c, ¬ utf8EncodeChar c <+: bs := by
  refine ⟨fun h c hc => ?_, fun h => ?_⟩
  · rw [lead?_eq_some_iff.2 ⟨rfl, hc⟩] at h
    cases h
  · match hl : lead? bs with
    | none => rfl
    | some (c, n) => exact absurd (lead?_eq_some_iff.1 hl).2 (h c)

/-! ## The runes of a byte string -/

/-- `Decodes bytes rs`: the bytes are those of the runes, and at no stray byte an encoded character starts -/
inductive Decodes : List UInt8 → List Rune → Prop where
  | nil : Decodes [] []
  | char (c : Char) {bytes : List UInt8} {rs : List Rune} : Decodes bytes rs →
      Decodes (utf8EncodeChar c ++ bytes) (.char c :: rs)
  | stray {b : UInt8} {bytes : List UInt8} {rs : List Rune} : (∀ c, ¬ utf8EncodeChar c <+: b :: bytes) →
      Decodes bytes rs → Decodes (b :: bytes) (.stray b :: rs)

theorem decodeFrom_eq (n : Nat) (bytes : List UInt8) : decodeFrom n bytes = decode (bytes.drop n) := by
  induction bytes generalizing n with
  | nil => cases n <;> simp [decode, decodeFrom]
  | cons b bytes ih =>
    cases n with
    | zero => rfl
    | succ n => simpa [decodeFrom] using ih n

theorem decode_char (c : Char) (bytes : List UInt8) : decode (utf8EncodeChar c ++ bytes) = .char c :: decode bytes := by
  have hlead := lead?_encode c bytes
  cases henc : utf8EncodeChar c with
  | nil => simp at henc
  | cons b rest =>
    rw [henc, List.cons_append] at hlead
    rw [decode, List.cons_append, decodeFrom, hlead]
    simp [decodeFrom_eq]

theorem decode_stray {b : UInt8} {bytes : List UInt8} (h : ∀ c, ¬ utf8EncodeChar c <+: b :: bytes) :
    decode (b :: bytes) = .stray b :: decode bytes := by
  rw [decode, decodeFrom, lead?_eq_none_iff.2 h]
  rfl

theorem decodes_decode (bytes : List UInt8) : Decodes bytes (decode bytes) := by
  induction hn : bytes.length using Nat.strongRecOn generalizing bytes with
  | ind n ih =>
    match bytes with
    | [] => exact .nil
    | b :: bytes =>
      by_cases h : ∃ c, utf8EncodeChar c <+: b :: bytes
      · obtain ⟨c, rest, hc⟩ := h
        have hpos : 0 < (utf8EncodeChar c).length := by simp [c.utf8Size_pos]
        have hlen := congrArg List.length hc
        rw [List.length_append] at hlen
        rw [← hc, decode_char]
        exact .char c (ih _ (by omega) rest rfl)
      · rw [not_exists] at h
        rw [decode_stray h]
        exact .stray h (ih _ (hn ▸ Nat.lt_succ_self _) bytes rfl)

/-- The bytes have no other runes. -/
theorem decodes_iff {bytes : List UInt8} {rs : List Rune} : Decodes bytes rs ↔ decode bytes = rs := by
  refine ⟨fun h => ?_, fun h => h ▸ decodes_decode bytes⟩
  induction h with
  | nil => rfl
  | char c _ ih => rw [decode_char, ih]
  | stray hb _ ih => rw [decode_stray hb, ih]

/-- what spells the first runes spells them on its own -/
theorem Decodes.split {bytes : List UInt8} {rs rs' : List Rune} (h : Decodes bytes (rs ++ rs')) :
    ∃ front back, bytes = front ++ back ∧ Decodes front rs ∧ Decodes back rs' := by
  induction rs generalizing bytes with
  | nil => exact ⟨[], bytes, rfl, .nil, h⟩
  | cons r rs ih =>
    cases h with
    | char c h =>
      obtain ⟨front, back, rfl, hfront, hback⟩ := ih h
      exact ⟨utf8EncodeChar c ++ front, back, (List.append_assoc _ _ _).symm, .char c hfront, hback⟩
    | @stray b _ _ hb h =>
      obtain ⟨front, back, rfl, hfront, hback⟩ := ih h
      exact ⟨b :: front, back, rfl, .stray (fun c hc => hb c (hc.trans (List.prefix_append (b :: front) back))) hfront, hback⟩

theorem Decodes.length_eq {bytes : List UInt8} {rs : List Rune} (h : Decodes bytes rs) : bytes.length = (rs.map width).sum := by
  induction h with
  | nil => rfl
  | char c _ ih => simp [ih, width]
  | stray _ _ ih => simp [ih, width, Nat.add_comm]

theorem Decodes.length_le {bytes : List UInt8} {rs : List Rune} (h : Decodes bytes rs) : rs.length ≤ bytes.length := by
  rw [h.length_eq, ← List.length_map width]
  refine List.length_le_sum_of_one_le _ fun n hn => ?_
  obtain ⟨r, -, rfl⟩ := List.mem_map.1 hn
  exact r.width_pos

/-! ## Line ends -/

/-- the byte of a line end is part of no other character -/
theorem encode_of_line_mem {c : Char} (h : 10 ∈ utf8EncodeChar c) : utf8EncodeChar c = [10] := by
  have hhigh {n : Nat} (hlow : 0x80 ≤ n) (hn : n < 256) : (10 : UInt8) ≠ UInt8.ofNat n := by
    intro heq
    have hline : (10 : UInt8).toNat = 10 := rfl
    have hbyte := congrArg UInt8.toNat heq
    rw [UInt8.toNat_ofNat', hline] at hbyte
    omega
  have hmax : c.toNat < 0x110000 := by
    have hvalid := c.valid
    simp only [UInt32.isValidChar, Nat.isValidChar] at hvalid
    have heq : c.val.toNat = c.toNat := rfl
    omega
  by_cases h₁ : c.toNat < 0x80
  · rw [encode_one h₁] at h ⊢
    rw [List.mem_singleton.1 h]
  by_cases h₂ : c.toNat < 0x800
  · rw [encode_two (by omega) h₂] at h
    simp only [List.mem_cons, List.not_mem_nil, or_false] at h
    rcases h with h | h <;> exact absurd h (hhigh (by omega) (by omega))
  by_cases h₃ : c.toNat < 0x10000
  · rw [encode_three (by omega) h₃] at h
    simp only [List.mem_cons, List.not_mem_nil, or_false] at h
    rcases h with h | h | h <;> exact absurd h (hhigh (by omega) (by omega))
  · rw [encode_four (by omega)] at h
    simp only [List.mem_cons, List.not_mem_nil, or_false] at h
    rcases h with h | h | h | h <;> exact absurd h (hhigh (by omega) (by omega))

/-- the bytes of one rune: its width, and a line end if it is one -/
theorem Decodes.one {bytes : List UInt8} {r : Rune} (h : Decodes bytes [r]) :
    bytes.length = r.width ∧ bytes.count 10 = if r = .char '\n' then 1 else 0 := by
  have hline : utf8EncodeChar '\n' = [10] := by decide
  cases h with
  | char c h =>
    cases h
    rw [List.append_nil]
    refine ⟨by simp [width], ?_⟩
    split
    · rename_i hc
      cases hc
      rw [hline]
      rfl
    · rename_i hc
      refine List.count_eq_zero.2 fun hmem => hc ?_
      have hsame := lead?_encode c []
      rw [encode_of_line_mem hmem, ← hline, lead?_encode] at hsame
      cases hsame
      rfl
  | @stray b _ _ hb h =>
    cases h
    refine ⟨rfl, List.count_eq_zero.2 fun hmem => hb '\n' ?_⟩
    rw [hline, List.mem_singleton.1 hmem]

/-- bytes after a line end do not change what comes before it -/
theorem decode_line (bytes after : List UInt8) :
    decode (bytes ++ 10 :: after) = decode bytes ++ .char '\n' :: decode after := by
  have hline : utf8EncodeChar '\n' = [10] := by decide
  have hdecodes := decodes_decode bytes
  generalize decode bytes = rs at hdecodes ⊢
  induction hdecodes with
  | nil =>
    have h := decode_char '\n' after
    rw [hline] at h
    exact h
  | char c _ ih => rw [List.append_assoc, decode_char, ih, List.cons_append]
  | @stray b bytes rs hb _ ih =>
    rw [List.cons_append, decode_stray, ih, List.cons_append]
    intro c hc
    by_cases hlen : (utf8EncodeChar c).length ≤ (b :: bytes).length
    · exact hb c (List.prefix_of_prefix_length_le hc (List.prefix_append _ _) hlen)
    · -- the character would reach over the line end
      have hlonger : b :: bytes ++ [10] <+: utf8EncodeChar c :=
        List.prefix_of_prefix_length_le ⟨after, by simp⟩ hc (by simpa using Nat.lt_of_not_le hlen)
      have h10 := encode_of_line_mem (hlonger.subset (by simp))
      have := hlonger.length_le
      simp [h10] at this

end LispMachine.Text.Rune
