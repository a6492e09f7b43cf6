/-
Data items, written and read.

A head says which kind of item follows and holds one number; whoever reads the first byte knows how many others there are
(`Cbor.Head.read`). So an item can be read from the front of any text that begins with one of its forms, and what follows is left
as it was (`Forms.read`), as long as the item nests no deeper and is no longer than a reader accepts. A text that is one item is
read to its end, and the reader's fuel, which is the length of the text, is enough: with every level at least one byte is used up.
Of all forms of a head the one that is written is the shortest (`Cbor.Shortest.eq_writeHead`).
-/
import LispMachine.Stats.Item
import Mathlib.Tactic

namespace LispMachine

/-! ## Numbers in bytes -/

namespace Cbor

theorem ofBigEndian_append (bs : List UInt8) (b : UInt8) : ofBigEndian (bs ++ [b]) = ofBigEndian bs * 256 + b.toNat := by
  simp [ofBigEndian]

theorem ofBigEndian_lt (bs : List UInt8) : ofBigEndian bs < 256 ^ bs.length := by
  induction bs using List.reverseRecOn with
  | nil => exact Nat.one_pos
  | append_singleton bs b ih =>
    have hb := b.toNat_lt
    rw [ofBigEndian_append, List.length_append, List.length_singleton, pow_succ]
    omega

end Cbor

namespace Item

open Cbor (Head Shortest ofBigEndian maxElements maxLevels)

@[simp] theorem length_bigEndian (n v : Nat) : (bigEndian n v).length = n := by
  induction n generalizing v with
  | zero => rfl
  | succ n ih => simp [bigEndian, ih]

/-- the bytes of a number give it back, up to what does not fit into them -/
theorem ofBigEndian_bigEndian (n v : Nat) : ofBigEndian (bigEndian n v) = v % 256 ^ n := by
  induction n generalizing v with
  | zero => rw [pow_zero, Nat.mod_one]; rfl
  | succ n ih =>
    rw [bigEndian, Cbor.ofBigEndian_append, ih, pow_succ', Nat.mod_mul, UInt8.toNat_ofNat']
    ring

/-- there is one way to write a number in so many bytes -/
theorem bigEndian_ofBigEndian (bs : List UInt8) : bigEndian bs.length (ofBigEndian bs) = bs := by
  induction bs using List.reverseRecOn with
  | nil => rfl
  | append_singleton bs b ih =>
    have hb := b.toNat_lt
    have hhigh : (ofBigEndian bs * 256 + b.toNat) / 256 = ofBigEndian bs := by omega
    have hlow : UInt8.ofNat (ofBigEndian bs * 256 + b.toNat) = b := by
      rw [← UInt8.toNat_inj, UInt8.toNat_ofNat']
      omega
    rw [List.length_append, List.length_singleton, bigEndian, Cbor.ofBigEndian_append, hhigh, hlow, ih]

theorem takeBytes_append (bs rest : List UInt8) : takeBytes bs.length (bs ++ rest) = some (bs, rest) := by
  simp [takeBytes]

end Item

/-! ## Heads -/

namespace Cbor

variable {major arg : Nat} {bs : List UInt8}

/-- whoever reads the first byte of a head knows the kind of the item, and finds the argument in it or behind it -/
theorem Head.read (h : Head major arg bs) (hmajor : major < 8) :
    ∃ b tail, bs = b :: tail ∧ b.toNat / 32 = major ∧ b.toNat % 32 ≠ 31 ∧
      ∀ rest, Item.readArg (b.toNat % 32) (tail ++ rest) = some (arg, rest) := by
  have hfirst {info : Nat} (hinfo : info < 28) : (UInt8.ofNat (major * 32 + info)).toNat = major * 32 + info := by
    rw [UInt8.toNat_ofNat']
    omega
  cases h with
  | within harg =>
    refine ⟨_, _, rfl, ?_, ?_, fun rest => ?_⟩
    · rw [hfirst (by omega)]
      omega
    · rw [hfirst (by omega)]
      omega
    · have hinfo : (UInt8.ofNat (major * 32 + arg)).toNat % 32 = arg := by
        rw [hfirst (by omega)]
        omega
      rw [hinfo]
      simp [Item.readArg, Item.argSize?, harg, Item.takeBytes]
  | @behind width tail hwidth hlength harg =>
    rw [Nat.one_shiftLeft] at hlength
    have hinfo : (UInt8.ofNat (major * 32 + (24 + width))).toNat % 32 = 24 + width := by
      rw [hfirst (by omega)]
      omega
    have hsize : Item.argSize? (24 + width) = some (2 ^ width) := by
      obtain rfl | rfl | rfl | rfl : width = 0 ∨ width = 1 ∨ width = 2 ∨ width = 3 := by omega
      all_goals rfl
    refine ⟨_, tail, rfl, ?_, by omega, fun rest => ?_⟩
    · rw [hfirst (by omega)]
      omega
    · have htake := Item.takeBytes_append tail rest
      rw [hlength] at htake
      simp only [hinfo, Item.readArg, hsize, htake, Option.bind_eq_bind, Option.bind_some, Option.pure_def, harg,
        if_neg (Nat.two_pow_pos width).ne']

/-- a number that fits into the bytes of some width has a head with these -/
theorem head_behind {width : Nat} (hwidth : width < 4) (harg : arg < 256 ^ 2 ^ width) :
    Head major arg (UInt8.ofNat (major * 32 + (24 + width)) :: Item.bigEndian (2 ^ width) arg) :=
  .behind hwidth ((Item.length_bigEndian ..).trans (Nat.one_shiftLeft width).symm)
    ((Item.ofBigEndian_bigEndian ..).trans (Nat.mod_eq_of_lt harg))

/-- no head has an argument as large as this -/
def argLimit : Nat := 0x10000000000000000

/-- an argument below the limit has a shortest head -/
theorem exists_shortest (harg : arg < argLimit) : ∃ bs, Shortest major arg bs := by
  have hlong : ∃ n bs, Head major arg bs ∧ bs.length = n := ⟨_, _, head_behind (show 3 < 4 by decide) harg, rfl⟩
  classical
  obtain ⟨bs, hbs, hlength⟩ := Nat.find_spec hlong
  exact ⟨bs, hbs, fun other hother => hlength ▸ Nat.find_min' hlong ⟨other, hother, rfl⟩⟩

/-- the head that is written is the only one that is as short as can be -/
theorem Shortest.eq_writeHead (h : Shortest major arg bs) : bs = Item.writeHead major arg := by
  obtain ⟨hhead, hshort⟩ := h
  unfold Item.writeHead
  dsimp only
  cases hhead with
  | within harg => rw [if_pos harg]
  | @behind width tail hwidth hlength harg =>
    rw [Nat.one_shiftLeft] at hlength
    have hlt : arg < 256 ^ 2 ^ width := by
      have := ofBigEndian_lt tail
      rwa [harg, hlength] at this
    have htail : Item.bigEndian (2 ^ width) arg = tail := by rw [← hlength, ← harg, Item.bigEndian_ofBigEndian]
    -- a shorter head would have been taken
    have hlarge : ¬ arg < 24 := fun hsmall => by
      have := hshort _ (.within hsmall)
      simp only [List.length_cons, List.length_nil, hlength] at this
      have := Nat.two_pow_pos width
      omega
    have hwide {less size : Nat} (hless : less < width) (hsize : 256 ^ 2 ^ less = size) : ¬ arg < size := fun hfits => by
      have hle := hshort _ (head_behind (by omega) (hsize ▸ hfits))
      simp only [List.length_cons, Item.length_bigEndian, hlength] at hle
      have := Nat.pow_lt_pow_right (a := 2) (by decide) hless
      omega
    have hone (hw : 0 < width) : ¬ arg < 256 := hwide hw rfl
    have htwo (hw : 1 < width) : ¬ arg < 65536 := hwide hw rfl
    have hfour (hw : 2 < width) : ¬ arg < 0x100000000 := hwide hw rfl
    rw [if_neg hlarge, ← htail]
    obtain rfl | rfl | rfl | rfl : width = 0 ∨ width = 1 ∨ width = 2 ∨ width = 3 := by omega
    · exact (if_pos hlt).symm
    · rw [if_neg (hone (by decide))]
      exact (if_pos hlt).symm
    · rw [if_neg (hone (by decide)), if_neg (htwo (by decide))]
      exact (if_pos hlt).symm
    · rw [if_neg (hone (by decide)), if_neg (htwo (by decide)), if_neg (hfour (by decide))]
      rfl

end Cbor

/-! ## Items -/

namespace Item

open Cbor (Head maxElements maxLevels)

/-- bytes that an item can be read from with so many levels of arrays and maps -/
inductive Forms : Nat → List UInt8 → Item → Prop where
  | uint {levels n : Nat} {bs : List UInt8} : Head 0 n bs → Forms levels bs (.uint n)
  | negative {levels n : Nat} {bs : List UInt8} : Head 1 n bs → Forms levels bs (.negative n)
  | text {levels : Nat} {head chunk : List UInt8} : Head 3 chunk.length head → Forms levels (head ++ chunk) (.text [chunk])
  | array {levels : Nat} {items : List (List UInt8 × Item)} {head : List UInt8} : items.length ≤ maxElements →
      Head 4 items.length head → (∀ i ∈ items, Forms levels i.1 i.2) →
      Forms (levels + 1) (head ++ (items.map Prod.fst).flatten) (.array (items.map Prod.snd))
  | map {levels n : Nat} {entries : List (List UInt8 × Item)} {head : List UInt8} : entries.length = 2 * n →
      n ≤ maxElements → Head 5 n head → (∀ i ∈ entries, Forms levels i.1 i.2) →
      Forms (levels + 1) (head ++ (entries.map Prod.fst).flatten) (.map (entries.map Prod.snd))
  | null {levels : Nat} : Forms levels Cbor.null null

/-- items are read one after the other -/
theorem readMany_flatten {one : List UInt8 → Option (Item × List UInt8)} {items : List (List UInt8 × Item)} {fuel : Nat}
    (hone : ∀ i ∈ items, ∀ rest, (i.1 ++ rest).length < fuel → one (i.1 ++ rest) = some (i.2, rest))
    (rest : List UInt8) (hfuel : ((items.map Prod.fst).flatten ++ rest).length < fuel) :
    readMany one items.length ((items.map Prod.fst).flatten ++ rest) = some (items.map Prod.snd, rest) := by
  induction items with
  | nil => rfl
  | cons i items ih =>
    rw [List.map_cons, List.flatten_cons, List.append_assoc] at hfuel ⊢
    have hfirst := hone i List.mem_cons_self ((items.map Prod.fst).flatten ++ rest) hfuel
    have hrest := ih (fun j hj => hone j (List.mem_cons_of_mem i hj)) (by rw [List.length_append] at hfuel; omega)
    rw [List.length_cons, readMany, hfirst]
    simp only [Option.bind_eq_bind, Option.bind_some, hrest]
    rfl

/-- the items of an array or a map are read with one level less, and with what the head has left of the fuel -/
theorem readMany_within {items : List (List UInt8 × Item)} {k levels fuel : Nat}
    (hitems : ∀ i ∈ items, ∀ {levels : Nat}, k ≤ levels → ∀ (rest : List UInt8) (fuel : Nat),
      (i.1 ++ rest).length < fuel + 1 → readWithin (fuel + 1) levels (i.1 ++ rest) = some (i.2, rest))
    (hlevels : k + 1 ≤ levels) (rest : List UInt8) (hfuel : ((items.map Prod.fst).flatten ++ rest).length < fuel) :
    readMany (readWithin fuel (levels - 1)) items.length ((items.map Prod.fst).flatten ++ rest) =
      some (items.map Prod.snd, rest) := by
  refine readMany_flatten (fun i hi rest hlt => ?_) rest hfuel
  obtain ⟨fuel, rfl⟩ : ∃ n, fuel = n + 1 := ⟨fuel - 1, by omega⟩
  exact hitems i hi (by omega) rest fuel hlt

theorem lt_of_append_lt {b : UInt8} {bs rest : List UInt8} {fuel : Nat} (h : (b :: (bs ++ rest)).length < fuel + 1) :
    rest.length < fuel := by
  rw [List.length_cons, List.length_append] at h
  omega

/-- what is read from the front of a text that begins with a form of an item is the item, and what follows is left -/
theorem Forms.read {bs : List UInt8} {item : Item} {k : Nat} (h : Forms k bs item) {levels fuel : Nat} (hlevels : k ≤ levels)
    (rest : List UInt8) (hfuel : (bs ++ rest).length < fuel) : readWithin fuel levels (bs ++ rest) = some (item, rest) := by
  obtain ⟨fuel, rfl⟩ : ∃ n, fuel = n + 1 := ⟨fuel - 1, by omega⟩
  induction h generalizing levels fuel rest with
  | uint hhead =>
    obtain ⟨b, tail, rfl, hmajor, hinfo, hread⟩ := hhead.read (by decide)
    rw [List.cons_append, readWithin]
    simp only [if_neg hinfo, hread, hmajor, Option.bind_eq_bind, Option.bind_some]
  | negative hhead =>
    obtain ⟨b, tail, rfl, hmajor, hinfo, hread⟩ := hhead.read (by decide)
    rw [List.cons_append, readWithin]
    simp only [if_neg hinfo, hread, hmajor, Option.bind_eq_bind, Option.bind_some]
  | text hhead =>
    obtain ⟨b, tail, rfl, hmajor, hinfo, hread⟩ := hhead.read (by decide)
    rw [List.cons_append, List.cons_append, List.append_assoc, readWithin]
    simp only [if_neg hinfo, hread, hmajor, Option.bind_eq_bind, Option.bind_some, takeBytes_append, Option.map_some]
  | @array k items head hlength hhead _ ih =>
    obtain ⟨b, tail, rfl, hmajor, hinfo, hread⟩ := hhead.read (by decide)
    rw [List.cons_append, List.cons_append, List.append_assoc] at hfuel ⊢
    have hmany := readMany_within ih hlevels rest (lt_of_append_lt hfuel)
    rw [readWithin]
    simp only [if_neg hinfo, hread, hmajor, Option.bind_eq_bind, Option.bind_some, hmany, Option.map_some,
      if_neg (show ¬ (levels = 0 ∨ maxElements < items.length) by omega)]
  | @map k n entries head hlength hn hhead _ ih =>
    obtain ⟨b, tail, rfl, hmajor, hinfo, hread⟩ := hhead.read (by decide)
    rw [List.cons_append, List.cons_append, List.append_assoc] at hfuel ⊢
    have hmany := readMany_within ih hlevels rest (lt_of_append_lt hfuel)
    rw [hlength] at hmany
    rw [readWithin]
    simp only [if_neg hinfo, hread, hmajor, Option.bind_eq_bind, Option.bind_some, hmany, Option.map_some,
      if_neg (show ¬ (levels = 0 ∨ maxElements < n) by omega)]
  | null =>
    have hhead : Head 7 22 Cbor.null := .within (by decide)
    obtain ⟨b, tail, heq, hmajor, hinfo, hread⟩ := hhead.read (by decide)
    have hfirst : b.toNat % 32 = 22 := by
      obtain ⟨rfl, rfl⟩ := List.cons.inj heq
      rfl
    rw [heq, List.cons_append, readWithin]
    simp only [if_neg hinfo, hread, hmajor, Option.bind_eq_bind, Option.bind_some]
    rw [hfirst]
    rfl

/-- a text that is a form of an item is read as that item -/
theorem Forms.read?_eq {bs : List UInt8} {item : Item} (h : Forms maxLevels bs item) : read? bs = some item := by
  have hread := h.read (le_refl _) [] (Nat.lt_succ_self _)
  simp only [List.append_nil] at hread
  simp only [read?, hread]

end Item

end LispMachine
