set_option autoImplicit false

/-! # Byte strings

Catalogs are files of bytes and their keys are arbitrary byte strings, so everything that touches
a catalog works on `Bytes`. This file holds the few operations on byte strings that the rest of
the library is written with: cutting at NUL, searching, and trimming. A NUL ends a key the way it
ends a string in C.
-/

namespace MessageCatalog

/-- A byte string. -/
abbrev Bytes := List UInt8

namespace Bytes

/-- The part before the first NUL, or the whole string if it holds none. -/
def beforeNul (b : Bytes) : Bytes := b.takeWhile (· != 0)

/-- The first place where `needle` starts in a string. The empty needle starts at once. -/
def indexOf? (needle : Bytes) : Bytes → Option Nat
  | [] => if needle.isEmpty then some 0 else none
  | b :: rest =>
      if needle.isPrefixOf (b :: rest) then some 0
      else (indexOf? needle rest).map (· + 1)

/-- What follows the first occurrence of `needle`. -/
def after? (needle b : Bytes) : Option Bytes :=
  (indexOf? needle b).map fun i => b.drop (i + needle.length)

/-- What is left of a string that starts with `start`. -/
def stripStart? (start b : Bytes) : Option Bytes :=
  if start.isPrefixOf b then some (b.drop start.length) else none

/-- ASCII white space: space, tab, line feed, form feed and carriage return. The vertical tab is
not among them. -/
def isSpace (b : UInt8) : Bool := b == 32 || b == 9 || b == 10 || b == 12 || b == 13

/-- The string without white space at either end. -/
def trim (b : Bytes) : Bytes := ((b.dropWhile isSpace).reverse.dropWhile isSpace).reverse

/-- An ASCII digit. -/
def isDigit (b : UInt8) : Bool := 48 ≤ b && b ≤ 57

/-- The digits that a string of ASCII digits stands for. -/
def digits (b : Bytes) : List Nat := b.map fun d => d.toNat - 48

/-! ## Cutting at NUL -/

/-- No NUL is left before the first one. -/
theorem not_mem_beforeNul (b : Bytes) : 0 ∉ beforeNul b := by
  intro h
  have := List.all_takeWhile (p := (· != (0 : UInt8))) (l := b)
  simpa using List.all_eq_true.1 this 0 h

/-- A string is cut where its first NUL stands. -/
theorem beforeNul_append_nul {b : Bytes} (h : 0 ∉ b) (rest : Bytes) :
    beforeNul (b ++ 0 :: rest) = b := by
  have hb : ∀ c ∈ b, (c != 0) = true := fun c hc => by simpa using fun e : c = 0 => h (e ▸ hc)
  rw [beforeNul, List.takeWhile_append_of_pos hb]
  simp

/-- A string without a NUL is not cut. -/
theorem beforeNul_of_not_mem {b : Bytes} (h : 0 ∉ b) : beforeNul b = b := by
  have hb : ∀ c ∈ b, (c != 0) = true := fun c hc => by simpa using fun e : c = 0 => h (e ▸ hc)
  have := @List.takeWhile_append_of_pos UInt8 (· != 0) b [] hb
  simpa [beforeNul] using this

end Bytes

end MessageCatalog
