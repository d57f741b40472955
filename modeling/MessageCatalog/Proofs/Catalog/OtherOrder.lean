import MessageCatalog.Proofs.Catalog.Loading

set_option autoImplicit false

/-! # The same file in the other byte order

A file that is accepted has a twin: the file in which the words of the header and of the tables are
reversed. The twin is accepted too, as a file in the other byte order, and both are normalized to
the same bytes (`normalize_other`). What a catalog answers does not depend on the byte order that
its header remembers, so nothing tells the two catalogs apart by their answers
(`ofBytes_reversed`).
-/

namespace MessageCatalog

namespace Mo

/-- The byte order that is not this one. -/
def ByteOrder.other : ByteOrder → ByteOrder
  | little => big
  | big => little

/-- The header of the same file in another byte order. -/
def Header.inOrder (h : Header) (order : ByteOrder) : Header := { h with order := order }

variable {data reversed normalized a b : Bytes} {h : Header} {regions : List Region}

/-! ## Reading words -/

/-- A header is read from the first bytes of a file. -/
theorem read?_congr (hbytes : ∀ i < headerSize, a[i]? = b[i]?) (order order' : ByteOrder) :
    Header.read? order a = (Header.read? order' b).map fun h => h.inOrder order := by
  have hword : ∀ offset, offset + 4 ≤ headerSize → wordAt? a offset = wordAt? b offset := by
    intro offset hoffset
    rw [wordAt?_eq_getElem?, wordAt?_eq_getElem?, hbytes _ (by omega), hbytes _ (by omega),
      hbytes _ (by omega), hbytes _ (by omega)]
  simp only [Header.read?, hword 4 (by decide), hword 8 (by decide), hword 12 (by decide),
    hword 16 (by decide), hword 20 (by decide), hword 24 (by decide)]
  cases wordAt? b 4 <;> cases wordAt? b 8 <;> cases wordAt? b 12 <;> cases wordAt? b 16 <;>
    cases wordAt? b 20 <;> cases wordAt? b 24 <;> rfl

theorem order_of_read? {order : ByteOrder} (h' : Header.read? order data = some h) :
    h.order = order := by
  rw [read?_congr (fun _ _ => rfl) order order, Option.map_eq_some_iff] at h'
  obtain ⟨_, _, rfl⟩ := h'
  rfl

theorem wordValue_reversed {b₀ b₁ b₂ b₃ : UInt8} {order : ByteOrder}
    (h : wordValue b₀ b₁ b₂ b₃ = order.firstWord) :
    wordValue b₃ b₂ b₁ b₀ = order.other.firstWord := by
  have := b₀.toNat_lt
  have := b₁.toNat_lt
  have := b₂.toNat_lt
  have := b₃.toNat_lt
  cases order <;>
    simp only [wordValue, ByteOrder.firstWord, ByteOrder.other, signature, reversedSignature]
      at h ⊢ <;> omega

/-- The signature with its bytes reversed announces the other order. -/
theorem orderOf?_reversed {order : ByteOrder} (horder : orderOf? data = some order)
    (hbytes : ∀ j < 4, reversed[j]? = data[3 - j]?) : orderOf? reversed = some order.other := by
  rw [orderOf?_eq_some_iff, wordAt?_eq_getElem?] at horder ⊢
  simp only [Option.bind_eq_some_iff, Option.map_eq_some_iff] at horder ⊢
  obtain ⟨b₀, h₀, b₁, h₁, b₂, h₂, b₃, h₃, hword⟩ := horder
  exact ⟨b₃, (hbytes 0 (by decide)).trans h₃, b₂, (hbytes 1 (by decide)).trans h₂, b₁,
    (hbytes 2 (by decide)).trans h₁, b₀, (hbytes 3 (by decide)).trans h₀, wordValue_reversed hword⟩

/-! ## The layout -/

/-- Reversing the words of the header once more brings back what was there. -/
theorem getElem?_swap_header (hreversed : WordsReversed regions data reversed)
    (hheader : ⟨0, headerSize⟩ ∈ regions) (hlength : headerSize ≤ data.length) {i : Nat}
    (hi : i < headerSize) : (Region.swap reversed ⟨0, headerSize⟩)[i]? = data[i]? := by
  have hswap : WordsReversed [⟨0, headerSize⟩] reversed (Region.swap reversed ⟨0, headerSize⟩) :=
    wordsReversed_swap ⟨⟨7, rfl⟩, by rw [hreversed.length]; exact hlength⟩
  have hsize : headerSize = 28 := rfl
  have hword : 0 + 4 * (i / 4) + 4 ≤ headerSize := by omega
  have h := hswap.inside _ (List.mem_singleton_self _) (i / 4) (i % 4) hword (by omega)
  have h' := hreversed.inside _ hheader (i / 4) (3 - i % 4) hword (by omega)
  rw [h'] at h
  have hplace : 0 + 4 * (i / 4) + i % 4 = i := by omega
  have hback : 0 + 4 * (i / 4) + (3 - (3 - i % 4)) = i := by omega
  rwa [hplace, hback] at h

/-- A file and its twin show the same header, each in its own order. -/
theorem getElem?_readable_other (hreversed : WordsReversed regions data reversed)
    (hheader : ⟨0, headerSize⟩ ∈ regions) (hlength : headerSize ≤ data.length)
    (order : ByteOrder) {i : Nat} (hi : i < headerSize) :
    (readable order.other reversed)[i]? = (readable order data)[i]? := by
  cases order with
  | little => exact getElem?_swap_header hreversed hheader hlength hi
  | big =>
      have hlength' : headerSize ≤ reversed.length := by rw [hreversed.length]; exact hlength
      exact (getElem?_swap_header hreversed.symm hheader hlength' hi).symm

theorem layout_other {l : Layout} (hl : layout data = .ok l)
    (hreversed : WordsReversed l.header.wordRegions data reversed) :
    layout reversed = .ok ⟨l.header.inOrder l.header.order.other, l.regions⟩ := by
  obtain ⟨hlength, order, horder, hread, hcount, hregions, hdisjoint⟩ := layout_eq_ok_iff.1 hl
  have hheader := mem_wordRegions l.header
  rw [order_of_read? hread]
  have horder' : orderOf? reversed = some order.other := by
    refine orderOf?_reversed horder fun j hj => ?_
    have h := hreversed.inside _ hheader 0 j (by decide) hj
    simpa using h
  refine layout_eq_ok_iff.2 ⟨by rw [hreversed.length]; exact hlength, order.other, horder', ?_,
    hcount, by rw [hreversed.length]; exact hregions, hdisjoint⟩
  rw [read?_congr (fun i hi => getElem?_readable_other hreversed hheader hlength order hi)
    order.other order, hread]
  rfl

/-! ## Normalizing -/

/-- **The twin is normalized to the same bytes**, and its header differs in the order only. -/
theorem normalize_other (hok : normalize data = (.ok h, normalized))
    (hreversed : WordsReversed h.wordRegions data reversed) :
    normalize reversed = (.ok (h.inOrder h.order.other), normalized) := by
  obtain ⟨hl, rfl⟩ := normalize_eq_ok_iff.1 hok
  refine normalize_eq_ok_iff.2 ⟨layout_other hl hreversed, ?_⟩
  have htable := (regions_eq hl).2
  have hdisjoint : Region.disjoint h.wordRegions = true := by
    obtain ⟨-, _, -, -, -, -, hdisjoint⟩ := layout_eq_ok_iff.1 hl
    exact hdisjoint
  -- Either way there is only one file with the words reversed.
  unfold Header.intoLittle
  cases horder : h.order with
  | little =>
      have htable' : ∀ r ∈ h.wordRegions, r.IsTable reversed.length := by
        rw [hreversed.length]
        exact htable
      exact hreversed.symm.unique htable' (wordsReversed_foldl htable' hdisjoint)
  | big => exact (wordsReversed_foldl htable hdisjoint).unique htable hreversed

/-! ## What an image answers -/

/-- The image with the header of another byte order. -/
def Image.inOrder (m : Image) (order : ByteOrder) : Image :=
  { m with header := m.header.inOrder order }

namespace Image

variable (m : Image) (order : ByteOrder) (key : Bytes)

theorem source?_inOrder (index : Nat) : (m.inOrder order).source? index = m.source? index := rfl

theorem target?_inOrder (index : Nat) : (m.inOrder order).target? index = m.target? index := rfl

theorem key?_inOrder (index : Nat) : (m.inOrder order).key? index = m.key? index := rfl

theorem entries_inOrder : (m.inOrder order).entries = m.entries := rfl

theorem isAscending_inOrder : (m.inOrder order).isAscending = m.isAscending := by
  have hfrom : ∀ count previous index, (m.inOrder order).ascendingFrom previous count index =
      m.ascendingFrom previous count index := by
    intro count
    induction count with
    | zero => exact fun _ _ => rfl
    | succ count ih =>
        intro previous index
        simp only [ascendingFrom, key?_inOrder, ih]
  exact hfrom _ _ _

theorem probeFor_inOrder (rounds : Nat) (probe : Probe) :
    (m.inOrder order).probeFor key rounds probe = m.probeFor key rounds probe := by
  induction rounds generalizing probe with
  | zero => rfl
  | succ rounds ih =>
      simp only [probeFor, source?_inOrder, ih]
      rfl

theorem findBetween_inOrder (bottom top : Nat) :
    (m.inOrder order).findBetween key bottom top = m.findBetween key bottom top := by
  fun_induction findBetween m key bottom top with
  | case1 bottom top hlt middle hkey =>
      have hnone : (m.inOrder order).key? (bottom + (top - bottom) / 2) = none := hkey
      rw [findBetween, if_pos hlt]
      dsimp only
      rw [hnone]
  | case2 bottom top hlt middle found hkey hless ih =>
      rw [findBetween_step hlt ((m.key?_inOrder order _).trans hkey), if_pos hless]
      exact ih
  | case3 bottom top hlt middle found hkey hless hmore ih =>
      rw [findBetween_step hlt ((m.key?_inOrder order _).trans hkey), if_neg hless, if_pos hmore]
      exact ih
  | case4 bottom top hlt middle found hkey hless hmore =>
      rw [findBetween_step hlt ((m.key?_inOrder order _).trans hkey), if_neg hless, if_neg hmore]
  | case5 bottom top hlt => rw [findBetween, if_neg hlt]

theorem find_inOrder : (m.inOrder order).find key = m.find key := by
  have hhash : (m.inOrder order).findByHash key = m.findByHash key :=
    m.probeFor_inOrder order key _ _
  have horder : (m.inOrder order).findByOrder key = m.findByOrder key :=
    m.findBetween_inOrder order key 0 _
  show (if m.header.isHashed = true then _ else _) = _
  rw [hhash, horder]
  rfl

theorem lookup_inOrder (message : Bytes) : (m.inOrder order).lookup message = m.lookup message := by
  simp only [lookup, find_inOrder, target?_inOrder]

end Image

end Mo

namespace Catalog

open Mo

/-- The catalog with the header of another byte order. -/
def inOrder (c : Catalog) (order : ByteOrder) : Catalog :=
  { c with image := c.image.inOrder order }

/-- Two catalogs that answer alike: they have the same entries, give the same answer to every
lookup, and choose plural forms by the same rule. -/
structure Alike (c c' : Catalog) : Prop where
  entries : c.image.entries = c'.image.entries
  lookup : ∀ message, c.lookup message = c'.lookup message
  rule : c.rule = c'.rule

theorem alike_inOrder (c : Catalog) (order : ByteOrder) : c.Alike (c.inOrder order) where
  entries := (c.image.entries_inOrder order).symm
  lookup message := (c.image.lookup_inOrder order message).symm
  rule := rfl

variable {data reversed normalized : Bytes} {h : Header}

theorem check_other (hlength : reversed.length = data.length)
    (hok : Mo.normalize data = (.ok h, normalized)) {order : ByteOrder}
    (hok' : Mo.normalize reversed = (.ok (h.inOrder order), normalized)) (options : LoadOptions) :
    check reversed options = (check data options).map fun m => m.inOrder order := by
  have hempty : reversed.isEmpty = data.isEmpty := by
    rw [Bool.eq_iff_iff, List.isEmpty_iff_length_eq_zero, List.isEmpty_iff_length_eq_zero, hlength]
  have hascending : (⟨h.inOrder order, normalized.toArray⟩ : Image).isAscending =
      (⟨h, normalized.toArray⟩ : Image).isAscending :=
    Image.isAscending_inOrder ⟨h, normalized.toArray⟩ order
  have hhashed : (h.inOrder order).isHashed = h.isHashed := rfl
  unfold check
  rw [hempty, hlength, hok, hok']
  simp only [hascending, hhashed]
  cases data.isEmpty with
  | true => rfl
  | false =>
      by_cases hmin : data.length < minSize
      · simp only [if_pos hmin]
        rfl
      · by_cases hmax : options.maxSize < data.length
        · simp only [if_neg hmin, if_pos hmax]
          rfl
        · simp only [if_neg hmin, if_neg hmax]
          cases options.checkOrder && !h.isHashed &&
            !(⟨h, normalized.toArray⟩ : Image).isAscending <;> rfl

theorem ruleOf_inOrder (m : Image) (order : ByteOrder) : ruleOf (m.inOrder order) = ruleOf m := by
  have hmetadata : (m.inOrder order).metadata? = m.metadata? := m.lookup_inOrder order []
  unfold ruleOf
  rw [hmetadata]

theorem ofBytes_other (hlength : reversed.length = data.length)
    (hok : Mo.normalize data = (.ok h, normalized)) {order : ByteOrder}
    (hok' : Mo.normalize reversed = (.ok (h.inOrder order), normalized)) (name : String)
    (options : LoadOptions) :
    (ofBytes reversed name options).value =
      (ofBytes data name options).value.map fun c => c.inOrder order := by
  rw [value_ofBytes, value_ofBytes, check_other hlength hok hok']
  cases check data options with
  | error e => rfl
  | ok m =>
      show Except.ok (⟨name, m.inOrder order, (ruleOf (m.inOrder order)).value⟩ : Catalog) = _
      rw [ruleOf_inOrder]
      rfl

/-! ## A file and its twin -/

/-- **Nothing depends on the byte order.** A file that is accepted has exactly one twin, the file
with the words of its header and tables reversed. It is accepted with the same header but for the
order, and normalized to the same bytes: to those of the little-endian one of the two. Both can be
loaded or neither can, and then the two catalogs answer alike. -/
theorem ofBytes_reversed {data normalized : Bytes} {h : Header}
    (hok : Mo.normalize data = (.ok h, normalized)) :
    ∃ twin, WordsReversed h.wordRegions data twin ∧
      (∀ other, WordsReversed h.wordRegions data other → other = twin) ∧
      Mo.normalize twin = (.ok { h with order := h.order.other }, normalized) ∧
      (h.order = .little → normalized = data) ∧ (h.order = .big → normalized = twin) ∧
      ∀ name options,
        (∀ c, (ofBytes data name options).value = .ok c →
          ∃ c', (ofBytes twin name options).value = .ok c' ∧ c.Alike c') ∧
        ∀ e, (ofBytes data name options).value = .error e →
          (ofBytes twin name options).value = .error e := by
  obtain ⟨hl, hnormalized⟩ := normalize_eq_ok_iff.1 hok
  have htable := (regions_eq hl).2
  have hdisjoint : Region.disjoint h.wordRegions = true := by
    obtain ⟨-, _, -, -, -, -, hdisjoint⟩ := layout_eq_ok_iff.1 hl
    exact hdisjoint
  have htwin := wordsReversed_foldl htable hdisjoint
  have hok' := normalize_other hok htwin
  refine ⟨_, htwin, fun other hother => hother.unique htable htwin, hok', fun hlittle => ?_,
    fun hbig => ?_, fun name options => ?_⟩
  · rw [hnormalized, Header.intoLittle, hlittle]
  · rw [hnormalized, Header.intoLittle, hbig]
  · rw [ofBytes_other htwin.length hok hok' name options]
    constructor
    · intro c hc
      rw [hc]
      exact ⟨_, rfl, c.alike_inOrder _⟩
    · intro e he
      rw [he]
      rfl

/-- A big-endian file with tables at odd offsets, one of them under a hash table of two slots. -/
def unaligned : Bytes :=
  [signature, 0, 1, 29, 41, 2, 29].flatMap ByteOrder.big.word ++ (List.range 24).map UInt8.ofNat

theorem ofBytes_reversed_unaligned :
    ∃ normalized,
      Mo.normalize unaligned = (.ok ⟨.big, 0, 1, 29, 41, 2, 29⟩, normalized) ∧
      normalized.drop 28 =
        [0, 4, 3, 2, 1, 8, 7, 6, 5, 9, 10, 11, 12, 16, 15, 14, 13, 20, 19, 18, 17, 21, 22, 23] ∧
      WordsReversed [⟨0, 28⟩, ⟨29, 37⟩, ⟨41, 49⟩] unaligned normalized ∧
      Mo.normalize normalized = (.ok ⟨.little, 0, 1, 29, 41, 2, 29⟩, normalized) := by
  have hok : Mo.normalize unaligned =
      (.ok ⟨.big, 0, 1, 29, 41, 2, 29⟩, (Mo.normalize unaligned).2) := rfl
  obtain ⟨twin, htwin, -, hok', -, hbig, -⟩ := ofBytes_reversed hok
  refine ⟨_, hok, by decide +kernel, ?_, ?_⟩
  · rw [hbig rfl]
    exact htwin
  · rw [hbig rfl] at hok' ⊢
    exact hok'

end Catalog

end MessageCatalog
