import Mathlib.Data.List.Induction
import Mathlib.Data.Nat.Bitwise
import Mathlib.Data.Nat.ModEq
import MessageCatalog.Mo.HashTable

set_option autoImplicit false

/-! # The string hash in wider words

Files are also written by programs whose words have 64 bits, and their hashes have to be those of
words of 32 bits. `wideHash` is the loop of the hash on an accumulator without any limit, `hashIn`
the same loop in words of some width. In the narrow loop a carry leaves the word. In a wide one it
stays above bit 31, where it makes no difference: the fold only reads bits 28 to 31 and only changes
bits below 32 (`foldTop_mod`). So a narrow accumulator is always a wide one that is cut to its width
(`ofNat_wideStep`).

That bits 28 to 31 are cleared makes room for the next shift (`foldTop_lt`). Only the addition may
wrap, and the accumulators are the same for as long as it does not (`wideHash_lt_iff`).
-/

namespace MessageCatalog.Mo

variable {bits sum : Nat} {front key : Bytes} {b : UInt8}

/-! ## The loop in other words -/

/-- Folds bits 28 to 31 of a sum into bits 4 to 7 and clears them. -/
def foldTop (sum : Nat) : Nat :=
  let top := sum &&& 0xf0000000
  if top = 0 then sum else (sum ^^^ (top >>> 24)) ^^^ top

/-- One step of the hash on an accumulator that keeps every carry. -/
def wideStep (h : Nat) (b : UInt8) : Nat := foldTop ((h <<< 4) + b.toNat)

/-- The hash of a key with an accumulator of unbounded width. -/
def wideHash (key : Bytes) : Nat := key.foldl wideStep 0

/-- One step of the hash in words of some width. -/
def stepIn (bits : Nat) (h : BitVec bits) (b : UInt8) : BitVec bits :=
  let sum := (h <<< 4) + BitVec.ofNat bits b.toNat
  let top := sum &&& BitVec.ofNat bits 0xf0000000
  if top = 0 then sum else (sum ^^^ (top >>> 24)) ^^^ top

/-- The hash of a key in words of some width. -/
def hashIn (bits : Nat) (key : Bytes) : BitVec bits := key.foldl (stepIn bits) 0

theorem hash_concat (front : Bytes) (b : UInt8) :
    hash (front ++ [b]) = hashStep (hash front) b := by
  simp [hash]

theorem wideHash_concat (front : Bytes) (b : UInt8) :
    wideHash (front ++ [b]) = wideStep (wideHash front) b := by
  simp [wideHash]

theorem hashIn_concat (bits : Nat) (front : Bytes) (b : UInt8) :
    hashIn bits (front ++ [b]) = stepIn bits (hashIn bits front) b := by
  simp [hashIn]

/-! ## The fold -/

/-- The test for zero makes no difference. -/
theorem foldTop_eq (sum : Nat) :
    foldTop sum = (sum ^^^ ((sum &&& 0xf0000000) >>> 24)) ^^^ (sum &&& 0xf0000000) := by
  unfold foldTop
  by_cases h : sum &&& 0xf0000000 = 0
  · simp [h]
  · simp [h]

theorem top_lt (sum : Nat) : sum &&& 0xf0000000 < 2 ^ 32 :=
  Nat.and_lt_two_pow sum (by decide)

theorem top_shiftRight_lt (sum : Nat) : (sum &&& 0xf0000000) >>> 24 < 2 ^ 8 := by
  have h := top_lt sum
  rw [Nat.shiftRight_eq_div_pow]
  omega

/-- The fold reads nothing above bit 31. -/
theorem top_mod (hbits : 32 ≤ bits) (sum : Nat) :
    sum % 2 ^ bits &&& 0xf0000000 = sum &&& 0xf0000000 := by
  have hpow : 2 ^ 32 ≤ 2 ^ bits := Nat.pow_le_pow_right (by decide) hbits
  have hmask : 0xf0000000 % 2 ^ bits = 0xf0000000 := Nat.mod_eq_of_lt (by omega)
  have htop := top_lt sum
  calc sum % 2 ^ bits &&& 0xf0000000
      = sum % 2 ^ bits &&& 0xf0000000 % 2 ^ bits := by rw [hmask]
    _ = (sum &&& 0xf0000000) % 2 ^ bits := (Nat.and_mod_two_pow ..).symm
    _ = sum &&& 0xf0000000 := Nat.mod_eq_of_lt (by omega)

/-- In words of 32 bits or more it does not matter whether a sum is cut before the fold or after
it. -/
theorem foldTop_mod (hbits : 32 ≤ bits) (sum : Nat) :
    foldTop sum % 2 ^ bits = foldTop (sum % 2 ^ bits) := by
  have hpow : 2 ^ 32 ≤ 2 ^ bits := Nat.pow_le_pow_right (by decide) hbits
  have htop : (sum &&& 0xf0000000) % 2 ^ bits = sum &&& 0xf0000000 :=
    Nat.mod_eq_of_lt ((top_lt sum).trans_le hpow)
  have hshift : (sum &&& 0xf0000000) >>> 24 % 2 ^ bits = (sum &&& 0xf0000000) >>> 24 := by
    have hlt := top_shiftRight_lt sum
    exact Nat.mod_eq_of_lt (by omega)
  rw [foldTop_eq, foldTop_eq, top_mod hbits, Nat.xor_mod_two_pow, Nat.xor_mod_two_pow, htop, hshift]

/-- What was carried out of the lowest 32 bits stays as it is. -/
theorem foldTop_div (sum : Nat) : foldTop sum / 2 ^ 32 = sum / 2 ^ 32 := by
  have htop : (sum &&& 0xf0000000) / 2 ^ 32 = 0 := Nat.div_eq_of_lt (top_lt sum)
  have hshift : (sum &&& 0xf0000000) >>> 24 / 2 ^ 32 = 0 := by
    have hlt := top_shiftRight_lt sum
    exact Nat.div_eq_of_lt (by omega)
  rw [foldTop_eq, Nat.xor_div_two_pow, Nat.xor_div_two_pow, htop, hshift, Nat.xor_zero,
    Nat.xor_zero]

theorem foldTop_lt_iff : foldTop sum < 2 ^ 32 ↔ sum < 2 ^ 32 := by
  have hdiv := foldTop_div sum
  omega

/-- What is left of a word fits into 28 bits. -/
theorem foldTop_lt (h : sum < 2 ^ 32) : foldTop sum < 2 ^ 28 := by
  have hclear : (sum ^^^ (sum &&& 0xf0000000)) / 2 ^ 28 = 0 := by
    have hmask : 0xf0000000 / 2 ^ 28 = 2 ^ 4 - 1 := by decide
    have htop : sum / 2 ^ 28 < 2 ^ 4 := by omega
    rw [Nat.xor_div_two_pow, Nat.and_div_two_pow, hmask,
      Nat.and_two_pow_sub_one_of_lt_two_pow htop, Nat.xor_self]
  have hshift := top_shiftRight_lt sum
  rw [foldTop_eq, Nat.xor_right_comm]
  exact Nat.xor_lt_two_pow (by omega) (by omega)

/-! ## One step -/

/-- A step in words of 32 bits or more: the sum is cut, and then folded. -/
theorem toNat_stepIn (hbits : 32 ≤ bits) (h : BitVec bits) (b : UInt8) :
    (stepIn bits h b).toNat = foldTop ((h.toNat <<< 4 + b.toNat) % 2 ^ bits) := by
  have hpow : 2 ^ 32 ≤ 2 ^ bits := Nat.pow_le_pow_right (by decide) hbits
  have hmask : 0xf0000000 % 2 ^ bits = 0xf0000000 := Nat.mod_eq_of_lt (by omega)
  have hstep : stepIn bits h b =
      let sum := (h <<< 4) + BitVec.ofNat bits b.toNat
      let top := sum &&& BitVec.ofNat bits 0xf0000000
      (sum ^^^ (top >>> 24)) ^^^ top := by
    unfold stepIn
    dsimp only
    split
    case isTrue hzero => simp [hzero]
    case isFalse => rfl
  rw [hstep, foldTop_eq]
  simp only [BitVec.toNat_xor, BitVec.toNat_ushiftRight, BitVec.toNat_and, BitVec.toNat_add,
    BitVec.toNat_shiftLeft, BitVec.toNat_ofNat, hmask, ← Nat.add_mod]

theorem toNat_hashStep (h : UInt32) (b : UInt8) :
    (hashStep h b).toNat = foldTop ((h.toNat <<< 4 + b.toNat) % 2 ^ 32) := by
  have hstep : hashStep h b =
      let sum := (h <<< 4) + b.toUInt32
      let top := sum &&& 0xf0000000
      (sum ^^^ (top >>> 24)) ^^^ top := by
    unfold hashStep
    dsimp only
    split
    case isTrue hzero => simp [hzero]
    case isFalse => rfl
  rw [hstep, foldTop_eq]
  simp

/-- **Narrow and wide.** Cutting an accumulator to the width of a word and making a step in words
comes to the same as making the step first. -/
theorem ofNat_wideStep (hbits : 32 ≤ bits) (h : Nat) (b : UInt8) :
    BitVec.ofNat bits (wideStep h b) = stepIn bits (BitVec.ofNat bits h) b := by
  have hsum : h <<< 4 + b.toNat ≡ (h % 2 ^ bits) <<< 4 + b.toNat [MOD 2 ^ bits] := by
    rw [Nat.shiftLeft_eq, Nat.shiftLeft_eq]
    exact ((Nat.mod_modEq h (2 ^ bits)).symm.mul_right _).add_right _
  apply BitVec.eq_of_toNat_eq
  calc (BitVec.ofNat bits (wideStep h b)).toNat
      = foldTop (h <<< 4 + b.toNat) % 2 ^ bits := BitVec.toNat_ofNat ..
    _ = foldTop ((h <<< 4 + b.toNat) % 2 ^ bits) := foldTop_mod hbits _
    _ = foldTop (((h % 2 ^ bits) <<< 4 + b.toNat) % 2 ^ bits) := by rw [hsum]
    _ = (stepIn bits (BitVec.ofNat bits h) b).toNat := by
        rw [toNat_stepIn hbits, BitVec.toNat_ofNat]

/-! ## Whole keys -/

theorem ofNat_wideHash (hbits : 32 ≤ bits) (key : Bytes) :
    BitVec.ofNat bits (wideHash key) = hashIn bits key := by
  induction key using List.reverseRecOn with
  | nil => rfl
  | append_singleton front b ih => rw [wideHash_concat, hashIn_concat, ofNat_wideStep hbits, ih]

theorem toNat_hash_eq (key : Bytes) : (hash key).toNat = (hashIn 32 key).toNat := by
  induction key using List.reverseRecOn with
  | nil => rfl
  | append_singleton front b ih =>
      rw [hash_concat, hashIn_concat, toNat_hashStep, toNat_stepIn (Nat.le_refl 32), ih]

theorem toNat_hash (key : Bytes) : (hash key).toNat = wideHash key % 2 ^ 32 := by
  rw [toNat_hash_eq, ← ofNat_wideHash (Nat.le_refl 32), BitVec.toNat_ofNat]

theorem toNat_hash_lt (key : Bytes) : (hash key).toNat < 2 ^ 28 := by
  induction key using List.reverseRecOn with
  | nil => decide
  | append_singleton front b _ =>
      rw [hash_concat, toNat_hashStep]
      exact foldTop_lt (Nat.mod_lt _ (by decide))

/-- No sum on the way to the hash of a key is too large for a word. -/
def NeverCarries (key : Bytes) : Prop :=
  ∀ front b, front ++ [b] <+: key → 2 ^ 4 * (hash front).toNat + b.toNat < 2 ^ 32

theorem neverCarries_nil : NeverCarries [] := by
  intro front b h
  simp at h

theorem neverCarries_concat_iff : NeverCarries (front ++ [b]) ↔
    NeverCarries front ∧ 2 ^ 4 * (hash front).toNat + b.toNat < 2 ^ 32 := by
  constructor
  · intro h
    exact ⟨fun before c hc => h before c (hc.trans (List.prefix_append _ _)),
      h front b List.prefix_rfl⟩
  · rintro ⟨hfront, hlast⟩ before c hc
    rcases List.prefix_concat_iff.1 hc with heq | hc
    · obtain ⟨rfl, rfl⟩ := List.append_singleton_inj.1 heq
      exact hlast
    · exact hfront before c hc

/-- An accumulator that ever carried out of 32 bits never comes back below. -/
theorem wideHash_lt_iff (key : Bytes) : wideHash key < 2 ^ 32 ↔ NeverCarries key := by
  induction key using List.reverseRecOn with
  | nil => exact ⟨fun _ => neverCarries_nil, fun _ => by decide⟩
  | append_singleton front b ih =>
      have hhash := toNat_hash front
      rw [wideHash_concat, wideStep, foldTop_lt_iff, neverCarries_concat_iff, ← ih,
        Nat.shiftLeft_eq, hhash]
      constructor
      · intro h
        have hfront : wideHash front < 2 ^ 32 := by omega
        rw [Nat.mod_eq_of_lt hfront]
        exact ⟨hfront, by omega⟩
      · rintro ⟨hfront, hlast⟩
        rw [Nat.mod_eq_of_lt hfront] at hlast
        omega

/-- A hash that is the same in 32-bit words as in wider ones. -/
structure IsBitExact (key : Bytes) : Prop where
  /-- It is what the lowest 32 bits of the accumulator are that keeps every carry ... -/
  low : (hash key).toNat = wideHash key % 2 ^ 32
  /-- ... and those of an accumulator in words of 32 bits or more. -/
  words : ∀ extra, (hashIn (32 + extra) key).setWidth 32 = (hash key).toBitVec
  /-- After every byte the four topmost bits are clear ... -/
  narrow : ∀ count, (hash (key.take count)).toNat < 2 ^ 28
  /-- ... so that the next shift loses nothing. -/
  shift : ∀ count, (hash (key.take count) <<< 4).toNat = 2 ^ 4 * (hash (key.take count)).toNat
  /-- Only in an addition may a bit be lost. -/
  carry : (hash key).toNat = wideHash key ↔ NeverCarries key

/-- **The hash is exact.** Whatever the key is and however long, words of 32 bits are enough for its
hash. -/
theorem isBitExact (key : Bytes) : IsBitExact key := by
  have hlow := toNat_hash key
  constructor
  case low => exact hlow
  case words =>
    intro extra
    have hdvd : 2 ^ 32 ∣ 2 ^ (32 + extra) := Nat.pow_dvd_pow 2 (Nat.le_add_right 32 extra)
    apply BitVec.eq_of_toNat_eq
    rw [BitVec.toNat_setWidth, ← ofNat_wideHash (Nat.le_add_right 32 extra), BitVec.toNat_ofNat,
      Nat.mod_mod_of_dvd _ hdvd, ← hlow]
    rfl
  case narrow => exact fun count => toNat_hash_lt (key.take count)
  case shift =>
    intro count
    have hlt := toNat_hash_lt (key.take count)
    rw [UInt32.toNat_shiftLeft, Nat.shiftLeft_eq]
    show _ * 2 ^ 4 % 2 ^ 32 = _
    omega
  case carry =>
    rw [← wideHash_lt_iff, hlow]
    exact ⟨fun h => h ▸ Nat.mod_lt _ (by decide), Nat.mod_eq_of_lt⟩

/-- The sum for the last byte of this key is above `2 ^ 32`, and the carry is kept by the unbounded
accumulator only. -/
example : let key := List.replicate 7 15 ++ [255]
    wideHash key = 0x1000000ef ∧ hashIn 64 key = 0x1000000ef ∧ hash key = 0xef := by decide

end MessageCatalog.Mo
