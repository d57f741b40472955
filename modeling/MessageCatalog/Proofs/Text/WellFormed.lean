import MessageCatalog.Proofs.Text.Utf8

set_option autoImplicit false

/-! # Well-formed byte strings

`Utf8.text?` accepts the bytes of texts and nothing else (`text?_eq_some_iff`). That it accepts them
follows from `decode_encode`. For the other direction every character that `decode` makes of some
bytes is written as these bytes again (`encodeChar_char2` and its likes), so nothing that is not in
its only form passes.
-/

namespace MessageCatalog.Utf8

variable {b₀ b₁ b₂ b₃ : UInt8}

/-! ## Bytes that make a character -/

theorem ofNat_eq {n : Nat} {b : UInt8} (h : n = b.toNat) : UInt8.ofNat n = b := by
  rw [h, UInt8.ofNat_toNat]

/-- The first bytes of the sequences of a width. -/
theorem bounds_of_width? {w : Width} (h : width? b₀ = some w) :
    match w with
    | .one => b₀.toNat < 0x80
    | .two => 0xc2 ≤ b₀.toNat ∧ b₀.toNat < 0xe0
    | .three => 0xe0 ≤ b₀.toNat ∧ b₀.toNat < 0xf0
    | .four => 0xf0 ≤ b₀.toNat ∧ b₀.toNat < 0xf5 := by
  rw [width?_eq] at h
  repeat' split at h
  all_goals cases h
  all_goals
    dsimp only
    omega

theorem encodeChar_ofNat (h : width? b₀ = some .one) :
    encodeChar (Char.ofNat b₀.toNat) = [b₀] := by
  have hb := bounds_of_width? h
  have hcode : (Char.ofNat b₀.toNat).toNat = b₀.toNat := toNat_ofNat_of_valid (by omega)
  rw [encodeChar_of_lt (by omega), hcode, UInt8.ofNat_toNat]

theorem encodeChar_char2 (h : width? b₀ = some .two) (h₁ : isContinuation b₁ = true) :
    encodeChar (char2 b₀ b₁) = [b₀, b₁] := by
  have hb := bounds_of_width? h
  rw [isContinuation_iff] at h₁
  have hcode : (char2 b₀ b₁).toNat = b₀.toNat % 32 * 64 + b₁.toNat % 64 :=
    toNat_ofNat_of_valid (by simp only [payload]; omega)
  unfold encodeChar
  rw [hcode]
  dsimp only
  rw [if_neg (by omega), if_pos (by omega), ofNat_eq (b := b₀) (by omega),
    ofNat_eq (b := b₁) (by omega)]

theorem encodeChar_char3 (h : width? b₀ = some .three) (h₁ : isSecond b₀ b₁ = true)
    (h₂ : isContinuation b₂ = true) : encodeChar (char3 b₀ b₁ b₂) = [b₀, b₁, b₂] := by
  have hb := bounds_of_width? h
  obtain ⟨h₁, hshort, hsurrogate, -, -⟩ := (isSecond_iff _ _).1 h₁
  rw [isContinuation_iff] at h₂
  have hcode : (char3 b₀ b₁ b₂).toNat =
      (b₀.toNat % 16 * 64 + b₁.toNat % 64) * 64 + b₂.toNat % 64 :=
    toNat_ofNat_of_valid (by simp only [payload]; omega)
  unfold encodeChar
  rw [hcode]
  dsimp only
  rw [if_neg (by omega), if_neg (by omega), if_pos (by omega), ofNat_eq (b := b₀) (by omega),
    ofNat_eq (b := b₁) (by omega), ofNat_eq (b := b₂) (by omega)]

theorem encodeChar_char4 (h : width? b₀ = some .four) (h₁ : isSecond b₀ b₁ = true)
    (h₂ : isContinuation b₂ = true) (h₃ : isContinuation b₃ = true) :
    encodeChar (char4 b₀ b₁ b₂ b₃) = [b₀, b₁, b₂, b₃] := by
  have hb := bounds_of_width? h
  obtain ⟨h₁, -, -, hshort, hlast⟩ := (isSecond_iff _ _).1 h₁
  rw [isContinuation_iff] at h₂ h₃
  have hcode : (char4 b₀ b₁ b₂ b₃).toNat =
      ((b₀.toNat % 8 * 64 + b₁.toNat % 64) * 64 + b₂.toNat % 64) * 64 + b₃.toNat % 64 :=
    toNat_ofNat_of_valid (by simp only [payload]; omega)
  unfold encodeChar
  rw [hcode]
  dsimp only
  rw [if_neg (by omega), if_neg (by omega), if_neg (by omega), ofNat_eq (b := b₀) (by omega),
    ofNat_eq (b := b₁) (by omega), ofNat_eq (b := b₂) (by omega), ofNat_eq (b := b₃) (by omega)]

/-! ## Whole texts -/

variable {units : List (Option Char)} {chars : List Char} {c : Char}

/-- An ill-formed sequence is no character. -/
theorem none_cons_ne : none :: units ≠ chars.map some := by
  intro h
  cases chars <;> cases h

theorem some_cons_eq (h : some c :: units = chars.map some) :
    ∃ rest, chars = c :: rest ∧ units = rest.map some := by
  obtain ⟨d, rest, rfl, hd, hrest⟩ := List.map_eq_cons_iff.1 h.symm
  exact ⟨rest, congrArg (· :: rest) (Option.some.inj hd), hrest.symm⟩

/-- Bytes in which nothing is ill-formed are the bytes of their characters. -/
theorem flatMap_encodeChar_of_decode {b : Bytes} (h : decode b = chars.map some) :
    chars.flatMap encodeChar = b := by
  -- In every branch but these five the first unit is `none`.
  fun_induction decode b generalizing chars with
  | case1 => rw [List.map_eq_nil_iff.1 h.symm, List.flatMap_nil]
  | case3 b₀ rest hwidth ih =>
      obtain ⟨chars, rfl, hrest⟩ := some_cons_eq h
      rw [List.flatMap_cons, encodeChar_ofNat hwidth, ih hrest, List.singleton_append]
  | case5 b₀ hwidth b₁ rest h₁ ih =>
      obtain ⟨chars, rfl, hrest⟩ := some_cons_eq h
      rw [List.flatMap_cons, encodeChar_char2 hwidth h₁, ih hrest]
      rfl
  | case9 b₀ hwidth b₁ h₁ b₂ rest h₂ ih =>
      obtain ⟨chars, rfl, hrest⟩ := some_cons_eq h
      rw [List.flatMap_cons, encodeChar_char3 hwidth h₁ h₂, ih hrest]
      rfl
  | case15 b₀ hwidth b₁ h₁ b₂ h₂ b₃ rest h₃ ih =>
      obtain ⟨chars, rfl, hrest⟩ := some_cons_eq h
      rw [List.flatMap_cons, encodeChar_char4 hwidth h₁ h₂ h₃, ih hrest]
      rfl
  | _ => exact absurd h none_cons_ne

theorem allSome_eq_some_iff : allSome units = some chars ↔ units = chars.map some := by
  induction units generalizing chars with
  | nil =>
      rw [allSome, Option.some.injEq, eq_comm, eq_comm (a := []), List.map_eq_nil_iff]
  | cons unit units ih =>
      cases unit with
      | none => exact ⟨fun h => (nomatch h), fun h => absurd h none_cons_ne⟩
      | some c =>
          rw [allSome, Option.map_eq_some_iff]
          constructor
          · rintro ⟨rest, hrest, rfl⟩
            rw [ih.1 hrest, List.map_cons]
          · intro h
            obtain ⟨rest, rfl, hrest⟩ := some_cons_eq h
            exact ⟨rest, ih.2 hrest, rfl⟩

/-- **Accepted are exactly the bytes of texts.** -/
theorem text?_eq_some_iff {b : Bytes} {text : String} : text? b = some text ↔ encode text = b := by
  rw [text?, Option.map_eq_some_iff]
  constructor
  · rintro ⟨chars, hchars, rfl⟩
    rw [encode, String.toList_ofList]
    exact flatMap_encodeChar_of_decode (allSome_eq_some_iff.1 hchars)
  · rintro rfl
    exact ⟨text.toList, allSome_eq_some_iff.2 (decode_encode text), String.ofList_toList⟩

end MessageCatalog.Utf8
