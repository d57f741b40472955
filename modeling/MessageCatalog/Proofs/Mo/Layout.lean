import MessageCatalog.Mo.Header

set_option autoImplicit false

/-! # Files with a sound header

The conditions under which `layout` accepts a file, one after another (`layout_eq_ok_iff`), and
the regions that it finds then (`regions?_eq_ok_iff`).
-/

namespace MessageCatalog.Mo

/-- The file with its header in little-endian order. -/
def readable (order : ByteOrder) (data : Bytes) : Bytes :=
  match order with
  | .little => data
  | .big => Region.swap data ⟨0, headerSize⟩

namespace Header

/-- The regions of a header: those of the tables, which have to lie in the file, behind that of the
header itself. A hash table that counts as missing is no region, but has to lie in the file. -/
theorem regions?_eq_ok_iff {h : Header} {length : Nat} {regions : List Region} :
    h.regions? length = .ok regions ↔
      h.sources + h.count * descriptorSize ≤ length ∧
      h.targets + h.count * descriptorSize ≤ length ∧
      h.hashOffset + h.hashSize * slotSize ≤ length ∧
      regions = [⟨0, headerSize⟩, ⟨h.sources, h.sources + h.count * descriptorSize⟩,
          ⟨h.targets, h.targets + h.count * descriptorSize⟩] ++
        if h.isHashed then [⟨h.hashOffset, h.hashOffset + h.hashSize * slotSize⟩] else [] := by
  have hif : ∀ a b : List Region, (if h.isHashed then a ++ b else a) =
      a ++ if h.isHashed then b else [] := by
    intro a b
    cases h.isHashed <;> simp
  unfold regions? table?
  by_cases hs : length < h.sources + h.count * descriptorSize
  · simp only [if_pos hs, bind, Except.bind, reduceCtorEq, false_iff]
    omega
  · by_cases ht : length < h.targets + h.count * descriptorSize
    · simp only [if_neg hs, if_pos ht, bind, Except.bind, reduceCtorEq, false_iff]
      omega
    · by_cases hh : length < h.hashOffset + h.hashSize * slotSize
      · simp only [if_neg hs, if_neg ht, if_pos hh, bind, Except.bind, reduceCtorEq, false_iff]
        omega
      · simp only [if_neg hs, if_neg ht, if_neg hh, bind, Except.bind, pure, Except.pure,
          Except.ok.injEq, hif]
        constructor
        · rintro rfl
          exact ⟨by omega, by omega, by omega, rfl⟩
        · rintro ⟨-, -, -, rfl⟩
          rfl

end Header

theorem layout_eq_ok_iff {data : Bytes} {l : Layout} :
    layout data = .ok l ↔
      headerSize ≤ data.length ∧ ∃ order, orderOf? data = some order ∧
        Header.read? order (readable order data) = some l.header ∧ l.header.count ≠ 0 ∧
        l.header.regions? data.length = .ok l.regions ∧ Region.disjoint l.regions = true := by
  obtain ⟨header, regions⟩ := l
  unfold layout
  by_cases hlen : data.length < headerSize
  · simp only [if_pos hlen, throw, throwThe, MonadExceptOf.throw, bind, Except.bind,
      reduceCtorEq, false_iff]
    omega
  · simp only [if_neg hlen, Nat.not_lt.1 hlen, true_and]
    cases horder : orderOf? data with
    | none => simp [throw, throwThe, MonadExceptOf.throw]
    | some order =>
        simp only [Option.some.injEq, exists_eq_left']
        unfold readable
        dsimp only [pure, Except.pure, bind, Except.bind]
        generalize Header.read? order _ = read
        cases read with
        | none => simp [throw, throwThe, MonadExceptOf.throw]
        | some found =>
            simp only [Option.some.injEq]
            constructor
            · intro h
              by_cases hcount : found.count = 0
              · simp [hcount, throw, throwThe, MonadExceptOf.throw] at h
              · cases hregions : found.regions? data.length with
                | error defect => simp [hcount, hregions] at h
                | ok all =>
                    cases hdisjoint : Region.disjoint all with
                    | false =>
                        simp [hcount, hregions, hdisjoint, throw, throwThe,
                          MonadExceptOf.throw] at h
                    | true =>
                        simp [hcount, hregions, hdisjoint] at h
                        obtain ⟨rfl, rfl⟩ := h
                        exact ⟨rfl, hcount, hregions, hdisjoint⟩
            · rintro ⟨rfl, hcount, hregions, hdisjoint⟩
              simp [hcount, hregions, hdisjoint]

end MessageCatalog.Mo
