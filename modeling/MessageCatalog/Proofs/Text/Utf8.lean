import MessageCatalog.Text.Utf8

set_option autoImplicit false

/-! # Encoding and decoding

`Utf8.decode` reads back what `Utf8.encode` writes, character by character (`decode_encodeChar`),
so a text comes out of its bytes as it went in (`lossy_encode`). A byte below 0x80 stands in an
encoded text only for the character with that code (`mem_encode_iff`), so that a text without a
NUL, say, is encoded without a NUL.
-/

namespace MessageCatalog.Utf8

/-! ## Bytes by their numbers -/

theorem toNat_ofNat_of_lt {n : Nat} (h : n < 256) : (UInt8.ofNat n).toNat = n := by
  rw [UInt8.toNat_ofNat']
  exact Nat.mod_eq_of_lt h

theorem isContinuation_iff (b : UInt8) :
    isContinuation b = true ↔ 0x80 ≤ b.toNat ∧ b.toNat ≤ 0xbf := by
  simp [isContinuation, UInt8.le_iff_toNat_le]

/-- What a continuation byte carries comes out of it again. -/
theorem payload_ofNat (n : Nat) : payload (UInt8.ofNat (0x80 + n % 64)) = n % 64 := by
  rw [payload, toNat_ofNat_of_lt (by omega)]
  omega

theorem isContinuation_ofNat (n : Nat) : isContinuation (UInt8.ofNat (0x80 + n % 64)) = true := by
  rw [isContinuation_iff, toNat_ofNat_of_lt (by omega)]
  omega

theorem width?_eq (b : UInt8) :
    width? b =
      if b.toNat < 0x80 then some .one
      else if b.toNat < 0xc2 then none
      else if b.toNat < 0xe0 then some .two
      else if b.toNat < 0xf0 then some .three
      else if b.toNat < 0xf5 then some .four
      else none := by
  simp only [width?, UInt8.lt_iff_toNat_lt]
  rfl

theorem isSecond_iff (first second : UInt8) :
    isSecond first second = true ↔ (0x80 ≤ second.toNat ∧ second.toNat ≤ 0xbf) ∧
      (first.toNat = 0xe0 → 0xa0 ≤ second.toNat) ∧ (first.toNat = 0xed → second.toNat < 0xa0) ∧
      (first.toNat = 0xf0 → 0x90 ≤ second.toNat) ∧
      (first.toNat = 0xf4 → second.toNat < 0x90) := by
  simp only [isSecond, Bool.and_eq_true, isContinuation_iff, ← UInt8.toNat_inj]
  refine and_congr_right fun _ => ?_
  repeat' split
  all_goals simp_all [UInt8.le_iff_toNat_le, UInt8.lt_iff_toNat_lt]

/-! ## One character -/

theorem encodeChar_of_lt {c : Char} (h : c.toNat < 0x80) : encodeChar c = [UInt8.ofNat c.toNat] :=
  if_pos h

/-- The code points of characters: there are none among the surrogates. -/
theorem toNat_valid (c : Char) : c.toNat < 0xd800 ∨ 0xdfff < c.toNat ∧ c.toNat < 0x110000 :=
  c.valid

/-- A code point below the surrogates, or above them, is that of a character. -/
theorem toNat_ofNat_of_valid {n : Nat} (h : n < 0xd800 ∨ 0xdfff < n ∧ n < 0x110000) :
    (Char.ofNat n).toNat = n := by
  rw [Char.ofNat, dif_pos h]
  rfl

/-- The code points of single bytes tell the bytes apart. -/
theorem ofNat_toNat_inj {b d : UInt8} : Char.ofNat b.toNat = Char.ofNat d.toNat ↔ b = d := by
  have hcode : ∀ b : UInt8, (Char.ofNat b.toNat).toNat = b.toNat := by
    intro b
    have hb := b.toNat_lt
    exact toNat_ofNat_of_valid (by omega)
  rw [← Char.toNat_inj, hcode, hcode, UInt8.toNat_inj]

/-- A byte below 0x80 is a character for itself, whatever follows it. -/
theorem decode_cons_of_lt {b : UInt8} (h : b < 0x80) (rest : Bytes) :
    decode (b :: rest) = some (Char.ofNat b.toNat) :: decode rest := by
  have hwidth : width? b = some .one := if_pos h
  rw [decode.eq_def]
  simp only [hwidth]

theorem decode_one {c : Char} (h : c.toNat < 0x80) (rest : Bytes) :
    decode (UInt8.ofNat c.toNat :: rest) = some c :: decode rest := by
  have hb : (UInt8.ofNat c.toNat).toNat = c.toNat := toNat_ofNat_of_lt (by omega)
  have hlt : UInt8.ofNat c.toNat < 0x80 := UInt8.lt_iff_toNat_lt.2 (hb.symm ▸ h)
  rw [decode_cons_of_lt hlt, hb, Char.ofNat_toNat]

theorem decode_two {c : Char} (h : 0x80 ≤ c.toNat) (h' : c.toNat < 0x800) (rest : Bytes) :
    decode (UInt8.ofNat (0xc0 + c.toNat / 64) :: UInt8.ofNat (0x80 + c.toNat % 64) :: rest) =
      some c :: decode rest := by
  have hb : (UInt8.ofNat (0xc0 + c.toNat / 64)).toNat = 0xc0 + c.toNat / 64 :=
    toNat_ofNat_of_lt (by omega)
  have hwidth : width? (UInt8.ofNat (0xc0 + c.toNat / 64)) = some .two := by
    rw [width?_eq, hb, if_neg (by omega), if_neg (by omega), if_pos (by omega)]
  have hchar :
      char2 (UInt8.ofNat (0xc0 + c.toNat / 64)) (UInt8.ofNat (0x80 + c.toNat % 64)) = c := by
    have hcode : (0xc0 + c.toNat / 64) % 32 * 64 + c.toNat % 64 = c.toNat := by omega
    rw [char2, hb, payload_ofNat, hcode, Char.ofNat_toNat]
  rw [decode.eq_def]
  simp only [hwidth, isContinuation_ofNat, if_true, hchar]

theorem decode_three {c : Char} (h : 0x800 ≤ c.toNat) (h' : c.toNat < 0x10000) (rest : Bytes) :
    decode (UInt8.ofNat (0xe0 + c.toNat / 4096) :: UInt8.ofNat (0x80 + c.toNat / 64 % 64) ::
      UInt8.ofNat (0x80 + c.toNat % 64) :: rest) = some c :: decode rest := by
  have hb : (UInt8.ofNat (0xe0 + c.toNat / 4096)).toNat = 0xe0 + c.toNat / 4096 :=
    toNat_ofNat_of_lt (by omega)
  have hb' : (UInt8.ofNat (0x80 + c.toNat / 64 % 64)).toNat = 0x80 + c.toNat / 64 % 64 :=
    toNat_ofNat_of_lt (by omega)
  have hwidth : width? (UInt8.ofNat (0xe0 + c.toNat / 4096)) = some .three := by
    rw [width?_eq, hb, if_neg (by omega), if_neg (by omega), if_neg (by omega), if_pos (by omega)]
  have hvalid := toNat_valid c
  have hsecond : isSecond (UInt8.ofNat (0xe0 + c.toNat / 4096))
      (UInt8.ofNat (0x80 + c.toNat / 64 % 64)) = true := by
    rw [isSecond_iff, hb, hb']
    omega
  have hchar : char3 (UInt8.ofNat (0xe0 + c.toNat / 4096)) (UInt8.ofNat (0x80 + c.toNat / 64 % 64))
      (UInt8.ofNat (0x80 + c.toNat % 64)) = c := by
    have hcode : ((0xe0 + c.toNat / 4096) % 16 * 64 + c.toNat / 64 % 64) * 64 + c.toNat % 64 =
        c.toNat := by omega
    rw [char3, hb, payload_ofNat, payload_ofNat, hcode, Char.ofNat_toNat]
  rw [decode.eq_def]
  simp only [hwidth, hsecond, isContinuation_ofNat, if_true, hchar]

theorem decode_four {c : Char} (h : 0x10000 ≤ c.toNat) (rest : Bytes) :
    decode (UInt8.ofNat (0xf0 + c.toNat / 262144) :: UInt8.ofNat (0x80 + c.toNat / 4096 % 64) ::
      UInt8.ofNat (0x80 + c.toNat / 64 % 64) :: UInt8.ofNat (0x80 + c.toNat % 64) :: rest) =
      some c :: decode rest := by
  have hvalid := toNat_valid c
  have hb : (UInt8.ofNat (0xf0 + c.toNat / 262144)).toNat = 0xf0 + c.toNat / 262144 :=
    toNat_ofNat_of_lt (by omega)
  have hb' : (UInt8.ofNat (0x80 + c.toNat / 4096 % 64)).toNat = 0x80 + c.toNat / 4096 % 64 :=
    toNat_ofNat_of_lt (by omega)
  have hwidth : width? (UInt8.ofNat (0xf0 + c.toNat / 262144)) = some .four := by
    rw [width?_eq, hb, if_neg (by omega), if_neg (by omega), if_neg (by omega), if_neg (by omega),
      if_pos (by omega)]
  have hsecond : isSecond (UInt8.ofNat (0xf0 + c.toNat / 262144))
      (UInt8.ofNat (0x80 + c.toNat / 4096 % 64)) = true := by
    rw [isSecond_iff, hb, hb']
    omega
  have hchar : char4 (UInt8.ofNat (0xf0 + c.toNat / 262144))
      (UInt8.ofNat (0x80 + c.toNat / 4096 % 64)) (UInt8.ofNat (0x80 + c.toNat / 64 % 64))
      (UInt8.ofNat (0x80 + c.toNat % 64)) = c := by
    have hcode : (((0xf0 + c.toNat / 262144) % 8 * 64 + c.toNat / 4096 % 64) * 64 +
        c.toNat / 64 % 64) * 64 + c.toNat % 64 = c.toNat := by omega
    rw [char4, hb, payload_ofNat, payload_ofNat, payload_ofNat, hcode, Char.ofNat_toNat]
  rw [decode.eq_def]
  simp only [hwidth, hsecond, isContinuation_ofNat, if_true, hchar]

/-- A character that was written is read back, whatever follows it. -/
theorem decode_encodeChar (c : Char) (rest : Bytes) :
    decode (encodeChar c ++ rest) = some c :: decode rest := by
  unfold encodeChar
  dsimp only
  split
  · exact decode_one ‹_› rest
  · split
    · exact decode_two (by omega) ‹_› rest
    · split
      · exact decode_three (by omega) ‹_› rest
      · exact decode_four (by omega) rest

/-- In the bytes of a character a byte below 0x80 is all there is. -/
theorem eq_of_mem_encodeChar {c : Char} {b : UInt8} (hb : b ∈ encodeChar c) (hlt : b < 0x80) :
    c.toNat = b.toNat := by
  have hlt' : b.toNat < 0x80 := UInt8.lt_iff_toNat_lt.1 hlt
  have hhigh : ∀ n, 0x80 ≤ n → n < 256 → b ≠ UInt8.ofNat n := by
    rintro n hn hn' rfl
    rw [toNat_ofNat_of_lt hn'] at hlt'
    omega
  have hvalid := toNat_valid c
  unfold encodeChar at hb
  dsimp only at hb
  split at hb
  · rw [List.mem_singleton] at hb
    rw [hb, toNat_ofNat_of_lt (by omega)]
  · exfalso
    repeat' split at hb
    all_goals
      simp only [List.mem_cons, List.not_mem_nil, or_false] at hb
      grind

/-! ## Texts -/

theorem decode_encode (text : String) : decode (encode text) = text.toList.map some := by
  have hall : ∀ chars : List Char, decode (chars.flatMap encodeChar) = chars.map some := by
    intro chars
    induction chars with
    | nil => rw [List.flatMap_nil, decode, List.map_nil]
    | cons c rest ih => rw [List.flatMap_cons, decode_encodeChar, ih, List.map_cons]
  exact hall text.toList

/-- What a text was written as is read as that text. -/
theorem lossy_encode (text : String) : lossy (encode text) = text := by
  rw [lossy, decode_encode, List.map_map]
  have hid : ((fun c : Option Char => c.getD '\uFFFD') ∘ some) = id := rfl
  rw [hid, List.map_id, String.ofList_toList]

theorem encode_injective {s t : String} (h : encode s = encode t) : s = t := by
  rw [← lossy_encode s, h, lossy_encode]

theorem encode_eq_nil_iff {text : String} : encode text = [] ↔ text = "" :=
  ⟨fun h => encode_injective (t := "") h, fun h => h ▸ rfl⟩

theorem decode_ne_nil {b : Bytes} (h : b ≠ []) : decode b ≠ [] := by
  obtain ⟨b₀, rest, rfl⟩ := List.exists_cons_of_ne_nil h
  rw [decode.eq_def]
  dsimp only
  repeat' split
  all_goals exact List.cons_ne_nil _ _

/-- Bytes below 0x80 are decoded one by one, and what follows them is decoded on its own. -/
theorem toList_lossy_append {front : Bytes} (h : ∀ b ∈ front, b < 0x80) (rest : Bytes) :
    (lossy (front ++ rest)).toList =
      front.map (fun b => Char.ofNat b.toNat) ++ (lossy rest).toList := by
  simp only [lossy, String.toList_ofList]
  induction front with
  | nil => rfl
  | cons b front ih =>
      rw [List.forall_mem_cons] at h
      rw [List.cons_append, decode_cons_of_lt h.1, List.map_cons, ih h.2]
      rfl

/-- A byte below 0x80 stands for the character with that code, and for no part of another. -/
theorem mem_encode_iff {text : String} {b : UInt8} (hlt : b < 0x80) :
    b ∈ encode text ↔ Char.ofNat b.toNat ∈ text.toList := by
  have hlt' : b.toNat < 0x80 := UInt8.lt_iff_toNat_lt.1 hlt
  constructor
  · intro h
    obtain ⟨c, hc, hb⟩ := List.mem_flatMap.1 h
    rwa [← eq_of_mem_encodeChar hb hlt, Char.ofNat_toNat]
  · intro h
    have hcode : (Char.ofNat b.toNat).toNat = b.toNat := toNat_ofNat_of_valid (by omega)
    refine List.mem_flatMap.2 ⟨_, h, ?_⟩
    rw [encodeChar_of_lt (by rw [hcode]; exact hlt'), hcode, UInt8.ofNat_toNat]
    exact List.mem_singleton_self b

theorem zero_not_mem_encode {text : String} (h : '\x00' ∉ text.toList) : 0 ∉ encode text := by
  rwa [mem_encode_iff (by decide)]

end MessageCatalog.Utf8
