import MessageCatalog.Plural.Rule
import MessageCatalog.Separated

set_option autoImplicit false

/-! # Forms side by side

The forms of a plural message are stored as one string with a NUL between neighbours. `formAt` walks
from NUL to NUL instead of splitting the string, and comes to the same piece (`formAt_eq`). So a
form that was joined with others is picked again by its index (`pick_join`), and a plural rule
selects the form with the index that it computes (`select_join`).
-/

namespace MessageCatalog

/-! ## Pieces -/

namespace Separated

variable {α : Type} [DecidableEq α] {sep : α}

theorem not_mem_of_mem_split {b piece : List α} (h : piece ∈ split sep b) : sep ∉ piece := by
  induction b generalizing piece with
  | nil =>
      rw [split, List.mem_singleton] at h
      rw [h]
      exact List.not_mem_nil
  | cons c rest ih =>
      obtain ⟨first, more, hsplit⟩ := List.exists_cons_of_ne_nil (split_ne_nil sep rest)
      rw [split, hsplit] at h
      rw [hsplit] at ih
      by_cases hc : c = sep
      · rw [if_pos hc] at h
        rcases List.mem_cons.1 h with rfl | h
        · exact List.not_mem_nil
        · exact ih h
      · rw [if_neg hc] at h
        rcases List.mem_cons.1 h with rfl | h
        · exact fun hmem => (List.mem_cons.1 hmem).elim (fun h => hc h.symm)
            (ih List.mem_cons_self)
        · exact ih (List.mem_cons_of_mem first h)

/-- Nothing is lost: the pieces joined again are the list that was split. -/
theorem join_split (sep : α) (b : List α) : join sep (split sep b) = b := by
  induction b with
  | nil => rfl
  | cons c rest ih =>
      obtain ⟨first, more, hsplit⟩ := List.exists_cons_of_ne_nil (split_ne_nil sep rest)
      rw [hsplit] at ih
      rw [split, hsplit]
      by_cases hc : c = sep
      · rw [if_pos hc, hc]
        exact congrArg (List.cons sep) ih
      · rw [if_neg hc, ← ih]
        cases more <;> rfl

/-- The pieces of a list are the only ones without the separator that join to it. -/
theorem split_eq_iff {b : List α} {pieces : List (List α)} :
    split sep b = pieces ↔
      pieces ≠ [] ∧ (∀ piece ∈ pieces, sep ∉ piece) ∧ join sep pieces = b := by
  constructor
  · rintro rfl
    exact ⟨split_ne_nil sep b, fun _ => not_mem_of_mem_split, join_split sep b⟩
  · rintro ⟨hne, hfree, rfl⟩
    exact split_join hne hfree

end Separated

namespace Plural

/-! ## Forms -/

/-- Splitting goes on behind the first NUL. -/
theorem split_zero_eq (forms : Bytes) :
    Separated.split 0 forms = Bytes.beforeNul forms ::
      match forms.dropWhile (· != 0) with
      | [] => []
      | _ :: rest => Separated.split 0 rest := by
  induction forms with
  | nil => rfl
  | cons b rest ih =>
      by_cases hb : b = 0
      · subst hb
        rfl
      · have hne : (b != 0) = true := bne_iff_ne.2 hb
        have htake : Bytes.beforeNul (b :: rest) = b :: Bytes.beforeNul rest :=
          List.takeWhile_cons_of_pos hne
        have hdrop : (b :: rest).dropWhile (· != 0) = rest.dropWhile (· != 0) :=
          List.dropWhile_cons_of_pos hne
        rw [htake, hdrop, Separated.split, if_neg hb, ih]

/-- **A form is a piece.** The form number `index` is the piece number `index` between the NULs,
and empty if there are not that many. -/
theorem formAt_eq (index : Nat) (forms : Bytes) :
    formAt index forms = ((Separated.split 0 forms)[index]?).getD [] := by
  induction index generalizing forms with
  | zero => rw [split_zero_eq]; rfl
  | succ index ih =>
      rw [split_zero_eq, formAt, List.getElem?_cons_succ]
      cases forms.dropWhile (· != 0) with
      | nil => rfl
      | cons _ rest => exact ih rest

/-- Joined forms are picked by their index, and nothing is picked beyond the last of them. -/
theorem pick_join {forms : List Bytes} (hne : forms ≠ []) (hfree : ∀ form ∈ forms, 0 ∉ form)
    (index : Int32) :
    pick (Separated.join 0 forms) index = (forms[index.toInt.toNat]?).getD [] := by
  rw [pick, formAt_eq, Separated.split_join hne hfree]

/-- **Selecting a form is indexing.** Any span of bytes falls into pieces at its NULs in exactly one
way, and an index selects the piece with this number, where a negative index counts as zero; it
selects nothing if there are not that many pieces. So of forms that were joined, whether they are
empty or not, a rule selects the one whose index it computes. -/
theorem select_join :
    (∀ (span : Bytes) (pieces : List Bytes), Separated.split 0 span = pieces ↔
      pieces ≠ [] ∧ (∀ piece ∈ pieces, 0 ∉ piece) ∧ Separated.join 0 pieces = span) ∧
    (∀ (span : Bytes) (index : Int32),
      pick span index = ((Separated.split 0 span)[(max 0 index.toInt).toNat]?).getD []) ∧
    ∀ forms : List Bytes, forms ≠ [] → (∀ form ∈ forms, 0 ∉ form) →
      ∀ (rule : Rule) (n : Int32) (i : Nat) (hi : i < forms.length), (rule.index n).toInt = i →
        rule.select n (Separated.join 0 forms) = forms[i] := by
  refine ⟨fun _ _ => Separated.split_eq_iff, fun span index => ?_, ?_⟩
  · have hmax : (max 0 index.toInt).toNat = index.toInt.toNat := by omega
    rw [pick, formAt_eq, hmax]
  · intro forms hne hfree rule n i hi hindex
    rw [Rule.select, pick_join hne hfree, hindex, Int.toNat_natCast,
      List.getElem?_eq_getElem hi, Option.getD_some]

/-- Empty forms at either end and in the middle, and a rule that gives the number itself. -/
theorem select_join_gaps :
    ([[], [97], [], [98], []] : List Bytes) ≠ [] ∧
      (∀ form ∈ ([[], [97], [], [98], []] : List Bytes), 0 ∉ form) ∧
      ((⟨.number, 5⟩ : Rule).index 3).toInt = (3 : Nat) ∧
      (⟨.number, 5⟩ : Rule).select 3 [0, 97, 0, 0, 98, 0] = [98] ∧
      ((⟨.number, 5⟩ : Rule).index 2).toInt = (2 : Nat) ∧
      (⟨.number, 5⟩ : Rule).select 2 [0, 97, 0, 0, 98, 0] = [] := by
  have hne : ([[], [97], [], [98], []] : List Bytes) ≠ [] := by decide
  have hfree : ∀ form ∈ ([[], [97], [], [98], []] : List Bytes), 0 ∉ form := by decide
  obtain ⟨-, -, hselect⟩ := select_join
  have hthree : ((⟨.number, 5⟩ : Rule).index 3).toInt = (3 : Nat) := by decide
  have htwo : ((⟨.number, 5⟩ : Rule).index 2).toInt = (2 : Nat) := by decide
  exact ⟨hne, hfree, hthree, hselect _ hne hfree _ 3 3 (by decide) hthree, htwo,
    hselect _ hne hfree _ 2 2 (by decide) htwo⟩

end Plural

end MessageCatalog
