import MessageCatalog.Log

set_option autoImplicit false

/-! # Overflow

Sizes are words of 64 bits. A sum of sizes that no word can hold ends the program: nobody gets a
result, not even a failure that could be dealt with. `Checked α` is a logged result that may be
missing for this reason. What was remarked before the end has been remarked.
-/

namespace MessageCatalog

/-- Why a program ends without a result. -/
inductive Overflow
  | addition
  deriving Repr, DecidableEq

/-- The wording of the end. -/
def Overflow.message : Overflow → String
  | addition => "attempt to add with overflow"

/-- A logged result, if no overflow ends the program on the way to it. -/
abbrev Checked := ExceptT Overflow Logged

namespace Checked

variable {α β : Type} {x : Checked α} {a : α} {overflow : Overflow}

/-- What comes after a result goes on with it. -/
theorem value_bind_of_ok (h : x.value = .ok a) (f : α → Checked β) :
    (x >>= f).value = (f a).value := by
  show (ExceptT.bindCont f x.value).value = _
  rw [h]
  rfl

/-- Nothing comes after the end. -/
theorem value_bind_of_error (h : x.value = .error overflow) (f : α → Checked β) :
    (x >>= f).value = .error overflow := by
  show (ExceptT.bindCont f x.value).value = _
  rw [h]
  rfl

/-- A sequence that has a result is made of steps that have theirs. -/
theorem exists_of_value_bind {b : β} {f : α → Checked β} (h : (x >>= f).value = .ok b) :
    ∃ a, x.value = .ok a ∧ (f a).value = .ok b := by
  cases hx : x.value with
  | ok a =>
      rw [value_bind_of_ok hx] at h
      exact ⟨a, rfl, h⟩
  | error overflow =>
      rw [value_bind_of_error hx] at h
      cases h

end Checked

/-- The sum of two sizes. -/
def addSizes (size size' : Nat) : Checked Nat :=
  if size + size' < UInt64.size then pure (size + size') else throw .addition

theorem value_addSizes_of_lt {size size' : Nat} (h : size + size' < UInt64.size) :
    (addSizes size size').value = .ok (size + size') := by
  rw [addSizes, if_pos h]
  rfl

theorem value_addSizes_of_le {size size' : Nat} (h : UInt64.size ≤ size + size') :
    (addSizes size size').value = .error .addition := by
  rw [addSizes, if_neg (Nat.not_lt.2 h)]
  rfl

end MessageCatalog
