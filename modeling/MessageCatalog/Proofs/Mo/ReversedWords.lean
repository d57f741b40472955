import MessageCatalog.Proofs.Mo.WrittenWords

set_option autoImplicit false

/-! # Files with reversed words

`WordsReversed regions data reversed` says, byte by byte, that the two files differ by the order of
bytes in the words of the regions: the byte at place `j` of a word comes from place `3 - j`, and a
byte outside of all regions stays where it is. The relation says nothing about how one file is made
of the other. It is symmetric, and it leaves no choice for the second file. Swapping the regions one
after another is one way to get there, provided that none of them overlap (`wordsReversed_foldl`).
-/

namespace MessageCatalog.Mo

/-- The offset lies in the region. -/
def Region.Holds (r : Region) (i : Nat) : Prop := r.start ≤ i ∧ i < r.stop

/-- The region is made of whole words, and all of it lies in a file of the given length. -/
structure Region.IsTable (r : Region) (length : Nat) : Prop where
  words : ∃ count, r.stop = r.start + 4 * count
  within : r.stop ≤ length

/-- The second file is the first one with the bytes of every word of the regions reversed. -/
structure WordsReversed (regions : List Region) (data reversed : Bytes) : Prop where
  length : reversed.length = data.length
  outside : ∀ i, (∀ r ∈ regions, ¬ r.Holds i) → reversed[i]? = data[i]?
  inside : ∀ r ∈ regions, ∀ k j, r.start + 4 * k + 4 ≤ r.stop → j < 4 →
    reversed[r.start + 4 * k + j]? = data[r.start + 4 * k + (3 - j)]?

variable {regions : List Region} {r : Region} {data reversed reversed' : Bytes}

/-! ## What the relation determines -/

/-- Every offset of a region is a place in one of its words. -/
theorem Region.IsTable.place {length i : Nat} (h : r.IsTable length) (hi : r.Holds i) :
    ∃ k j, i = r.start + 4 * k + j ∧ j < 4 ∧ r.start + 4 * k + 4 ≤ r.stop := by
  obtain ⟨count, hcount⟩ := h.words
  obtain ⟨hstart, hstop⟩ := hi
  exact ⟨(i - r.start) / 4, (i - r.start) % 4, by omega, by omega, by omega⟩

namespace WordsReversed

theorem symm (h : WordsReversed regions data reversed) : WordsReversed regions reversed data where
  length := h.length.symm
  outside i hi := (h.outside i hi).symm
  inside r hr k j hk hj := by
    have hback := h.inside r hr k (3 - j) hk (by omega)
    rw [show 3 - (3 - j) = j by omega] at hback
    exact hback.symm

/-- There is only one file with the words of the regions reversed. -/
theorem unique (htable : ∀ r ∈ regions, r.IsTable data.length)
    (h : WordsReversed regions data reversed) (h' : WordsReversed regions data reversed') :
    reversed = reversed' := by
  refine List.ext_getElem? fun i => ?_
  by_cases hi : ∃ r ∈ regions, r.Holds i
  · obtain ⟨r, hr, hi⟩ := hi
    obtain ⟨k, j, rfl, hj, hk⟩ := (htable r hr).place hi
    rw [h.inside r hr k j hk hj, h'.inside r hr k j hk hj]
  · have hnone : ∀ r ∈ regions, ¬ r.Holds i := fun r hr hri => hi ⟨r, hr, hri⟩
    rw [h.outside i hnone, h'.outside i hnone]

end WordsReversed

/-! ## One region -/

theorem getElem?_reverseWords {k j : Nat} (part : Bytes) (hk : 4 * k + 4 ≤ part.length)
    (hj : j < 4) : (reverseWords part)[4 * k + j]? = part[4 * k + (3 - j)]? := by
  induction k generalizing part with
  | zero =>
      match part, hk with
      | b₀ :: b₁ :: b₂ :: b₃ :: rest, _ =>
          rcases j with _ | _ | _ | _ | j
          all_goals first | rfl | omega
      | [], hk | [_], hk | [_, _], hk | [_, _, _], hk => simp at hk
  | succ k ih =>
      match part, hk with
      | b₀ :: b₁ :: b₂ :: b₃ :: rest, hk =>
          have hrest : 4 * k + 4 ≤ rest.length := by
            simp only [List.length_cons] at hk
            omega
          have hshift : ∀ m, 4 * (k + 1) + m = 4 * k + m + 1 + 1 + 1 + 1 := by omega
          rw [hshift, hshift]
          exact ih rest hrest
      | [], hk | [_], hk | [_, _], hk | [_, _, _], hk => simp at hk

theorem wordsReversed_swap (h : r.IsTable data.length) :
    WordsReversed [r] data (Region.swap data r) := by
  obtain ⟨start, stop⟩ := r
  obtain ⟨⟨count, hcount⟩, hwithin⟩ := h
  obtain rfl : stop = start + 4 * count := hcount
  have hwithin : start + 4 * count ≤ data.length := hwithin
  -- The file is what stands before the region, the region, and what stands behind it.
  obtain ⟨front, part, back, rfl, rfl, hpart⟩ : ∃ front part back : Bytes,
      data = front ++ part ++ back ∧ start = front.length ∧ 4 * count = part.length := by
    refine ⟨data.take start, (data.drop start).take (4 * count), data.drop (start + 4 * count),
      ?_, ?_, ?_⟩
    · rw [List.append_assoc, ← List.drop_drop, List.take_append_drop, List.take_append_drop]
    · rw [List.length_take]
      omega
    · rw [List.length_take, List.length_drop]
      omega
  rw [hpart, swap_append]
  refine ⟨?_, fun i hi => ?_, ?_⟩
  · simp only [List.length_append, length_reverseWords]
  · have hi : ¬ (front.length ≤ i ∧ i < front.length + part.length) :=
      hi _ (List.mem_singleton_self _)
    by_cases hfront : i < front.length
    · rw [List.append_assoc, List.append_assoc, List.getElem?_append_left hfront,
        List.getElem?_append_left hfront]
    · rw [List.getElem?_append_right, List.getElem?_append_right]
      · simp only [List.length_append, length_reverseWords]
      · rw [List.length_append]
        omega
      · rw [List.length_append, length_reverseWords]
        omega
  · intro r hr k j hk hj
    obtain rfl := List.mem_singleton.1 hr
    have hk : 4 * k + 4 ≤ part.length := by
      have : front.length + 4 * k + 4 ≤ front.length + part.length := hk
      omega
    have hplace : ∀ (middle : Bytes) (m : Nat), m < 4 → middle.length = part.length →
        (front ++ middle ++ back)[front.length + 4 * k + m]? = middle[4 * k + m]? := by
      intro middle m hm hlength
      rw [List.append_assoc, Nat.add_assoc, List.getElem?_append_right (by omega),
        Nat.add_sub_cancel_left, List.getElem?_append_left (by omega)]
    show (front ++ reverseWords part ++ back)[front.length + 4 * k + j]? =
      (front ++ part ++ back)[front.length + 4 * k + (3 - j)]?
    rw [hplace _ j hj (length_reverseWords part), hplace _ (3 - j) (by omega) rfl,
      getElem?_reverseWords part hk hj]

/-! ## Regions that do not overlap -/

theorem not_holds_of_overlaps {s : Region} (h : r.overlaps s = false) {i : Nat}
    (hi : r.Holds i) : ¬ s.Holds i := by
  simp only [Region.overlaps, Bool.and_eq_false_iff, decide_eq_false_iff_not] at h
  simp only [Region.Holds] at hi ⊢
  omega

theorem disjoint_cons {rest : List Region} (h : Region.disjoint (r :: rest) = true) :
    (∀ s ∈ rest, ∀ i, r.Holds i → ¬ s.Holds i) ∧ Region.disjoint rest = true := by
  rw [Region.disjoint, Bool.and_eq_true, List.all_eq_true] at h
  refine ⟨fun s hs i hi => not_holds_of_overlaps ?_ hi, h.2⟩
  simpa using h.1 s hs

/-- A region that was swapped before the others is not touched by them, and leaves them alone. -/
theorem WordsReversed.cons {rest : List Region} {middle : Bytes}
    (htable : ∀ s ∈ r :: rest, s.IsTable data.length)
    (hdisjoint : ∀ s ∈ rest, ∀ i, r.Holds i → ¬ s.Holds i) (hfirst : WordsReversed [r] data middle)
    (hrest : WordsReversed rest middle reversed) : WordsReversed (r :: rest) data reversed where
  length := hrest.length.trans hfirst.length
  outside i hi := by
    rw [hrest.outside i fun s hs => hi s (List.mem_cons_of_mem r hs),
      hfirst.outside i fun s hs => hi s (List.mem_singleton.1 hs ▸ List.mem_cons_self)]
  inside s hs k j hk hj := by
    rcases List.mem_cons.1 hs with rfl | hs'
    · have hholds : s.Holds (s.start + 4 * k + j) := ⟨by omega, by omega⟩
      rw [hrest.outside _ fun t ht => hdisjoint t ht _ hholds,
        hfirst.inside s (List.mem_singleton_self s) k j hk hj]
    · have hholds : s.Holds (s.start + 4 * k + (3 - j)) := ⟨by omega, by omega⟩
      rw [hrest.inside s hs' k j hk hj]
      refine hfirst.outside _ fun t ht hr => ?_
      obtain rfl := List.mem_singleton.1 ht
      exact hdisjoint s hs' _ hr hholds

/-- **Swapping one region after another reverses the words of all.** -/
theorem wordsReversed_foldl (htable : ∀ r ∈ regions, r.IsTable data.length)
    (hdisjoint : Region.disjoint regions = true) :
    WordsReversed regions data (regions.foldl Region.swap data) := by
  induction regions generalizing data with
  | nil => exact ⟨rfl, fun _ _ => rfl, nofun⟩
  | cons r rest ih =>
      obtain ⟨hapart, hrest⟩ := disjoint_cons hdisjoint
      have hfirst := wordsReversed_swap (htable r List.mem_cons_self)
      have hlater : ∀ s ∈ rest, s.IsTable (Region.swap data r).length := by
        intro s hs
        rw [hfirst.length]
        exact htable s (List.mem_cons_of_mem r hs)
      rw [List.foldl_cons]
      exact hfirst.cons htable hapart (ih hlater hrest)

end MessageCatalog.Mo
