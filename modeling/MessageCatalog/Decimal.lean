set_option autoImplicit false

/-! # Decimal numbers

A number in a text is a string of digits of any length, but whoever reads it has a limit above
which all numbers are alike: too large, or clamped. `valueUpTo` stops counting at the limit, so
reading a number takes no longer than its digits are many. By `valueUpTo_eq` it is the value or
the limit, whichever is smaller.
-/

namespace MessageCatalog.Decimal

/-- The number with the given digits, the highest first. -/
def value (digits : List Nat) : Nat := digits.foldl (fun n d => 10 * n + d) 0

/-- The number with the given digits, or the limit if that is smaller. -/
def valueUpTo (limit : Nat) (digits : List Nat) : Nat :=
  digits.foldl (fun n d => min limit (10 * n + d)) 0

theorem foldl_min (limit n : Nat) (digits : List Nat) :
    digits.foldl (fun n d => min limit (10 * n + d)) (min limit n) =
      min limit (digits.foldl (fun n d => 10 * n + d) n) := by
  induction digits generalizing n with
  | nil => rfl
  | cons d rest ih =>
    have : min limit (10 * min limit n + d) = min limit (10 * n + d) := by omega
    rw [List.foldl_cons, List.foldl_cons, this, ih]

/-- Counting only up to the limit gives the value, cut at the limit. -/
theorem valueUpTo_eq (limit : Nat) (digits : List Nat) :
    valueUpTo limit digits = min limit (value digits) := by
  have := foldl_min limit 0 digits
  rwa [Nat.min_zero] at this

end MessageCatalog.Decimal
