import MessageCatalog.Bytes
import MessageCatalog.Decimal
import MessageCatalog.Proofs.Text.Utf8

set_option autoImplicit false

/-! # Printed numbers

`toString` writes a number with its decimal digits. They are digits for whoever reads them, as
characters or as bytes, and `Decimal.value` gives the number back.
-/

namespace MessageCatalog.Decimal

/-- The characters that a number is printed with. -/
abbrev numeral (n : Nat) : List Char := Nat.toDigits 10 n

theorem toList_toString (n : Nat) : (toString n).toList = numeral n := by
  rw [Nat.toString_eq_ofList_toDigits, String.toList_ofList]

theorem isDigit_of_mem_numeral {n : Nat} {c : Char} (h : c ∈ numeral n) : c.isDigit = true :=
  Nat.isDigit_of_mem_toDigits (by decide) (by decide) h

theorem value_numeral (n : Nat) : value ((numeral n).map fun c => c.toNat - 48) = n := by
  have h := Nat.ofDigitChars_ten_toDigits (n := n)
  rwa [Nat.ofDigitChars_eq_foldl, ← List.foldl_map (f := fun c : Char => c.toNat - '0'.toNat)
    (g := fun sofar d => 10 * sofar + d)] at h

/-! ## In bytes -/

theorem toNat_of_isDigit {c : Char} (h : c.isDigit = true) : 48 ≤ c.toNat ∧ c.toNat ≤ 57 := by
  simpa [Char.isDigit, UInt32.le_iff_toNat_le] using h

/-- The bytes that a number is printed with. -/
def bytes (n : Nat) : Bytes := Utf8.encode (toString n)

theorem bytes_eq (n : Nat) : bytes n = (numeral n).map fun c => UInt8.ofNat c.toNat := by
  have hall : ∀ chars : List Char, (∀ c ∈ chars, c.isDigit = true) →
      chars.flatMap Utf8.encodeChar = chars.map fun c => UInt8.ofNat c.toNat := by
    intro chars h
    induction chars with
    | nil => rfl
    | cons c rest ih =>
      have hc := toNat_of_isDigit (h c List.mem_cons_self)
      rw [List.flatMap_cons, Utf8.encodeChar_of_lt (by omega),
        ih fun d hd => h d (List.mem_cons_of_mem c hd)]
      rfl
  rw [bytes, Utf8.encode, toList_toString]
  exact hall _ fun _ => isDigit_of_mem_numeral

theorem bytes_ne_nil (n : Nat) : bytes n ≠ [] := by
  rw [bytes_eq]
  exact fun h => Nat.toDigits_ne_nil (List.map_eq_nil_iff.1 h)

theorem isDigit_of_mem_bytes {n : Nat} {b : UInt8} (h : b ∈ bytes n) : Bytes.isDigit b = true := by
  rw [bytes_eq] at h
  obtain ⟨c, hc, rfl⟩ := List.mem_map.1 h
  have hcode := toNat_of_isDigit (isDigit_of_mem_numeral hc)
  simp only [Bytes.isDigit, Bool.and_eq_true, decide_eq_true_eq, UInt8.le_iff_toNat_le,
    Utf8.toNat_ofNat_of_lt (show c.toNat < 256 by omega)]
  exact hcode

/-- The digits of a printed number denote the number. -/
theorem value_digits_bytes (n : Nat) : value (Bytes.digits (bytes n)) = n := by
  have hdigits : Bytes.digits (bytes n) = (numeral n).map fun c => c.toNat - 48 := by
    rw [bytes_eq, Bytes.digits, List.map_map]
    refine List.map_congr_left fun c hc => ?_
    have hcode := toNat_of_isDigit (isDigit_of_mem_numeral hc)
    show (UInt8.ofNat c.toNat).toNat - 48 = _
    rw [Utf8.toNat_ofNat_of_lt (by omega)]
  rw [hdigits, value_numeral]

end MessageCatalog.Decimal
