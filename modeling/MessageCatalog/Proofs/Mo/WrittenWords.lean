import MessageCatalog.Mo.Header
import Mathlib.Algebra.Group.Nat.Defs

set_option autoImplicit false

/-! # Words that were written

A list of numbers is written by `ByteOrder.word`, one word after another. In little-endian order
`wordAt?` reads the numbers back, each at four times its place in the list
(`wordAt?_flatMap_word`). A list that was written in big-endian order becomes the little-endian one
when the bytes of its words are reversed (`swap_flatMap_word`). This is how a whole file is brought
into little-endian order, one region at a time.
-/

namespace MessageCatalog.Mo

/-! ## One word -/

theorem length_word (order : ByteOrder) (value : Nat) : (order.word value).length = 4 := by
  cases order <;> rfl

/-- The four bytes of a number denote what is left of it in 32 bits. -/
theorem wordValue_ofNat (value : Nat) :
    wordValue (.ofNat value) (.ofNat (value / 0x100)) (.ofNat (value / 0x10000))
      (.ofNat (value / 0x1000000)) = value % 2 ^ 32 := by
  simp only [wordValue, UInt8.toNat_ofNat']
  omega

theorem wordAt?_append (front back : Bytes) (offset : Nat) :
    wordAt? (front ++ back) (front.length + offset) = wordAt? back offset := by
  simp only [wordAt?, List.drop_length_add_append]

/-! ## Lists of words -/

theorem length_flatMap_word (order : ByteOrder) (values : List Nat) :
    (values.flatMap order.word).length = 4 * values.length := by
  induction values with
  | nil => rfl
  | cons v vs ih =>
      rw [List.flatMap_cons, List.length_append, length_word, ih, List.length_cons]
      omega

theorem wordAt?_flatMap_word {values : List Nat} {i : Nat} {v : Nat} (tail : Bytes)
    (h : values[i]? = some v) (hv : v < 2 ^ 32) :
    wordAt? (values.flatMap ByteOrder.little.word ++ tail) (4 * i) = some v := by
  induction values generalizing i with
  | nil => simp at h
  | cons w ws ih =>
      rw [List.flatMap_cons, List.append_assoc]
      cases i with
      | zero =>
          obtain rfl : w = v := by simpa using h
          show some (wordValue _ _ _ _) = some w
          rw [wordValue_ofNat, Nat.mod_eq_of_lt hv]
      | succ i =>
          have hoff : 4 * (i + 1) = (ByteOrder.little.word w).length + 4 * i := by
            rw [length_word]
            omega
          rw [hoff, wordAt?_append]
          exact ih (by simpa using h)

theorem reverseWords_append_word (value : Nat) (rest : Bytes) :
    reverseWords (ByteOrder.big.word value ++ rest) =
      ByteOrder.little.word value ++ reverseWords rest := rfl

theorem reverseWords_flatMap_word (values : List Nat) :
    reverseWords (values.flatMap ByteOrder.big.word) = values.flatMap ByteOrder.little.word := by
  induction values with
  | nil => rfl
  | cons v vs ih => rw [List.flatMap_cons, List.flatMap_cons, reverseWords_append_word, ih]

/-! ## Regions of words -/

theorem swap_append (front part back : Bytes) :
    Region.swap (front ++ part ++ back) ⟨front.length, front.length + part.length⟩ =
      front ++ reverseWords part ++ back := by
  have htake : (front ++ part ++ back).take front.length = front := by
    rw [List.append_assoc, List.take_left]
  have hmiddle : ((front ++ part ++ back).drop front.length).take
      (front.length + part.length - front.length) = part := by
    rw [List.append_assoc, List.drop_left, Nat.add_sub_cancel_left, List.take_left]
  have hdrop : (front ++ part ++ back).drop (front.length + part.length) = back := by
    rw [← List.length_append, List.drop_left]
  simp only [Region.swap, htake, hmiddle, hdrop]

/-- A region of big-endian words that follow words which are already little-endian. -/
theorem swap_flatMap_word (done values : List Nat) (back : Bytes) :
    Region.swap (done.flatMap ByteOrder.little.word ++ (values.flatMap ByteOrder.big.word ++ back))
        ⟨4 * done.length, 4 * done.length + 4 * values.length⟩ =
      (done ++ values).flatMap ByteOrder.little.word ++ back := by
  have h := swap_append (done.flatMap ByteOrder.little.word)
    (values.flatMap ByteOrder.big.word) back
  rw [length_flatMap_word, length_flatMap_word, reverseWords_flatMap_word] at h
  rw [List.flatMap_append, ← h, List.append_assoc]

/-- Neighbouring regions, from an offset on, one for each list of words. -/
def regionsFrom : Nat → List (List Nat) → List Region
  | _, [] => []
  | start, group :: groups =>
      ⟨start, start + 4 * group.length⟩ :: regionsFrom (start + 4 * group.length) groups

theorem le_start_of_mem {start : Nat} {groups : List (List Nat)} {r : Region}
    (h : r ∈ regionsFrom start groups) : start ≤ r.start := by
  induction groups generalizing start with
  | nil => simp [regionsFrom] at h
  | cons group groups ih =>
      rcases List.mem_cons.1 h with rfl | h
      · exact Nat.le_refl _
      · have := ih h
        omega

theorem disjoint_regionsFrom (start : Nat) (groups : List (List Nat)) :
    Region.disjoint (regionsFrom start groups) = true := by
  induction groups generalizing start with
  | nil => rfl
  | cons group groups ih =>
      rw [regionsFrom, Region.disjoint, ih, Bool.and_true, List.all_eq_true]
      intro r hr
      have hstart := le_start_of_mem hr
      rw [Region.overlaps, Bool.not_eq_true', Bool.and_eq_false_iff]
      exact Or.inr (decide_eq_false (Nat.not_lt.2 hstart))

/-- Region after region, a big-endian file becomes a little-endian one. -/
theorem foldl_swap_regionsFrom (done : List Nat) (groups : List (List Nat)) (back : Bytes) :
    (regionsFrom (4 * done.length) groups).foldl Region.swap
        (done.flatMap ByteOrder.little.word ++
          (groups.flatten.flatMap ByteOrder.big.word ++ back)) =
      (done ++ groups.flatten).flatMap ByteOrder.little.word ++ back := by
  induction groups generalizing done with
  | nil => simp [regionsFrom]
  | cons group groups ih =>
      rw [regionsFrom, List.foldl_cons, List.flatten_cons, List.flatMap_append, List.append_assoc,
        swap_flatMap_word, ← Nat.mul_add, ← List.length_append, ih, List.append_assoc]

end MessageCatalog.Mo
