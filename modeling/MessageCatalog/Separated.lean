set_option autoImplicit false

/-! # Lists cut into pieces at a separator

Texts that are stored side by side, such as the plural forms of a message, have a separator
between them. `split` and `join` are the two halves of that convention, and `split_join` says that
the first undoes the second as long as no piece holds the separator itself.
-/

namespace MessageCatalog.Separated

variable {α : Type} [DecidableEq α]

/-- The pieces between the occurrences of `sep`; a list without `sep` is one piece. -/
def split (sep : α) : List α → List (List α)
  | [] => [[]]
  | a :: rest =>
      if a = sep then [] :: split sep rest
      else match split sep rest with
        | [] => [[a]]
        | piece :: pieces => (a :: piece) :: pieces

omit [DecidableEq α] in
/-- The pieces one after another with `sep` between neighbours. -/
def join (sep : α) : List (List α) → List α
  | [] => []
  | [piece] => piece
  | piece :: pieces => piece ++ sep :: join sep pieces

theorem split_ne_nil (sep : α) (b : List α) : split sep b ≠ [] := by
  induction b with
  | nil => simp [split]
  | cons c rest ih =>
    simp only [split]
    split
    · simp
    · split <;> simp

/-- A list that does not hold the separator is its own only piece. -/
theorem split_of_not_mem {sep : α} {b : List α} (h : sep ∉ b) : split sep b = [b] := by
  induction b with
  | nil => rfl
  | cons c rest ih =>
    have hc : c ≠ sep := fun e => h (e ▸ List.mem_cons_self)
    have hr : sep ∉ rest := fun m => h (List.mem_cons_of_mem c m)
    simp [split, hc, ih hr]

/-- The first piece ends at the first separator. -/
theorem split_append_sep {sep : α} {b : List α} (h : sep ∉ b) (rest : List α) :
    split sep (b ++ sep :: rest) = b :: split sep rest := by
  induction b with
  | nil => simp [split]
  | cons c tail ih =>
    have hc : c ≠ sep := fun e => h (e ▸ List.mem_cons_self)
    have ht : sep ∉ tail := fun m => h (List.mem_cons_of_mem c m)
    simp [split, hc, ih ht]

/-- Splitting gives back the pieces that were joined, if none of them holds the separator. -/
theorem split_join {sep : α} {pieces : List (List α)} (hne : pieces ≠ [])
    (h : ∀ piece ∈ pieces, sep ∉ piece) : split sep (join sep pieces) = pieces := by
  induction pieces with
  | nil => exact absurd rfl hne
  | cons piece rest ih =>
    cases rest with
    | nil => simpa [join] using split_of_not_mem (h piece List.mem_cons_self)
    | cons next more =>
      rw [join, split_append_sep (h piece List.mem_cons_self),
        ih (by simp) fun p hp => h p (List.mem_cons_of_mem piece hp)]
      simp

end MessageCatalog.Separated
