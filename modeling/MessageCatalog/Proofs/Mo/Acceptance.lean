import MessageCatalog.Proofs.Mo.Layout
import MessageCatalog.Proofs.Mo.ReversedWords

set_option autoImplicit false

/-! # Which files are accepted

A header is *sound* in a file if its fields are the words that the file starts with, in the byte
order of the header, and if the tables it speaks of lie in the file and share no byte with the
header or with each other. `normalize` accepts a file exactly if a sound header stands in it, and
gives that header back (`normalize_eq_ok_iff_isSoundIn`). All of this is said about numbers without
a bound: a sum of offset and size is never cut to a word.

The rest of the library uses `normalize_eq_ok_iff`, which says the same by way of `layout`.
-/

namespace MessageCatalog.Mo

/-- The regions of a file that hold words: the header, the two tables of descriptors, and the hash
table if it is large enough to be used. -/
def Header.wordRegions (h : Header) : List Region :=
  [⟨0, headerSize⟩, ⟨h.sources, h.sources + h.count * descriptorSize⟩,
    ⟨h.targets, h.targets + h.count * descriptorSize⟩] ++
    if h.isHashed then [⟨h.hashOffset, h.hashOffset + h.hashSize * slotSize⟩] else []

variable {data normalized : Bytes} {h : Header} {order : ByteOrder}

theorem mem_wordRegions (h : Header) : ⟨0, headerSize⟩ ∈ h.wordRegions := List.mem_cons_self

/-! ## Words in either order -/

theorem wordAt?_eq_getElem? (data : Bytes) (offset : Nat) :
    wordAt? data offset = data[offset]?.bind fun b₀ => data[offset + 1]?.bind fun b₁ =>
      data[offset + 2]?.bind fun b₂ => data[offset + 3]?.map fun b₃ => wordValue b₀ b₁ b₂ b₃ := by
  have hdrop : ∀ k, data[offset + k]? = (data.drop offset)[k]? := fun k => List.getElem?_drop.symm
  rw [show data[offset]? = (data.drop offset)[0]? from hdrop 0, hdrop 1, hdrop 2, hdrop 3, wordAt?]
  -- Both sides look for four bytes behind the offset.
  rcases data.drop offset with _ | ⟨_, _ | ⟨_, _ | ⟨_, _ | _⟩⟩⟩ <;> rfl

/-- The number that the word at an offset denotes in a byte order, if all of it lies in the
data. -/
def ByteOrder.valueAt? (order : ByteOrder) (data : Bytes) (offset : Nat) : Option Nat :=
  match order, data.drop offset with
  | .little, b₀ :: b₁ :: b₂ :: b₃ :: _ => some (wordValue b₀ b₁ b₂ b₃)
  | .big, b₀ :: b₁ :: b₂ :: b₃ :: _ => some (wordValue b₃ b₂ b₁ b₀)
  | _, _ => none

theorem valueAt?_little (data : Bytes) (offset : Nat) :
    ByteOrder.little.valueAt? data offset = wordAt? data offset := by
  unfold ByteOrder.valueAt? wordAt?
  rcases data.drop offset with _ | ⟨_, _ | ⟨_, _ | ⟨_, _ | _⟩⟩⟩ <;> rfl

/-- In big-endian order the bytes count the other way round. -/
theorem valueAt?_big (data : Bytes) (offset : Nat) :
    ByteOrder.big.valueAt? data offset = data[offset + 3]?.bind fun b₃ =>
      data[offset + 2]?.bind fun b₂ => data[offset + 1]?.bind fun b₁ =>
        data[offset]?.map fun b₀ => wordValue b₃ b₂ b₁ b₀ := by
  have hdrop : ∀ k, data[offset + k]? = (data.drop offset)[k]? := fun k => List.getElem?_drop.symm
  rw [show data[offset]? = (data.drop offset)[0]? from hdrop 0, hdrop 1, hdrop 2, hdrop 3]
  unfold ByteOrder.valueAt?
  rcases data.drop offset with _ | ⟨_, _ | ⟨_, _ | ⟨_, _ | _⟩⟩⟩ <;> rfl

/-- The words of the header can be read in place, or in little-endian order once they are
reversed. -/
theorem wordAt?_readable (hlength : headerSize ≤ data.length) {place : Nat} (hplace : place < 7) :
    wordAt? (readable order data) (4 * place) = order.valueAt? data (4 * place) := by
  cases order with
  | little => exact (valueAt?_little data (4 * place)).symm
  | big =>
      have hswap : WordsReversed [⟨0, headerSize⟩] data (Region.swap data ⟨0, headerSize⟩) :=
        wordsReversed_swap ⟨⟨7, rfl⟩, hlength⟩
      have hword : 0 + 4 * place + 4 ≤ headerSize := by
        show 0 + 4 * place + 4 ≤ 28
        omega
      have hbyte : ∀ j < 4, (Region.swap data ⟨0, headerSize⟩)[4 * place + j]? =
          data[4 * place + (3 - j)]? := by
        intro j hj
        have hinside := hswap.inside _ (List.mem_singleton_self _) place j hword hj
        rwa [show 0 + 4 * place = 4 * place by omega] at hinside
      show wordAt? (Region.swap data ⟨0, headerSize⟩) (4 * place) = _
      rw [wordAt?_eq_getElem?, valueAt?_big, show (4 * place) = 4 * place + 0 from rfl,
        hbyte 0 (by decide), hbyte 1 (by decide), hbyte 2 (by decide), hbyte 3 (by decide)]

/-- The first word of a file in the given order. -/
def ByteOrder.firstWord : ByteOrder → Nat
  | little => signature
  | big => reversedSignature

theorem orderOf?_eq_some_iff :
    orderOf? data = some order ↔ wordAt? data 0 = some order.firstWord := by
  have hne : reversedSignature ≠ signature := by decide
  unfold orderOf?
  cases wordAt? data 0 with
  | none => simp
  | some w =>
      by_cases hlittle : w = signature
      · subst hlittle
        cases order <;> simp [ByteOrder.firstWord, hne.symm]
      · by_cases hbig : w = reversedSignature
        · subst hbig
          cases order <;> simp [ByteOrder.firstWord, hne]
        · cases order <;> simp [ByteOrder.firstWord, hlittle, hbig]

/-- A file shows a byte order by starting with the signature in that order. -/
theorem orderOf?_eq_some_iff_valueAt? :
    orderOf? data = some order ↔ order.valueAt? data 0 = some signature := by
  rw [orderOf?_eq_some_iff]
  cases order with
  | little => rw [valueAt?_little]; rfl
  | big =>
      unfold wordAt? ByteOrder.valueAt?
      rcases data.drop 0 with _ | ⟨b₀, _ | ⟨b₁, _ | ⟨b₂, _ | ⟨b₃, _⟩⟩⟩⟩
      · simp
      · simp
      · simp
      · simp
      · have := b₀.toNat_lt
        have := b₁.toNat_lt
        have := b₂.toNat_lt
        have := b₃.toNat_lt
        simp only [Option.some.injEq, wordValue, ByteOrder.firstWord, signature, reversedSignature]
        omega

/-! ## The fields of a header -/

namespace Header

/-- The words of a header, the signature first. -/
def fields (h : Header) : List Nat :=
  [signature, h.revision, h.count, h.sources, h.targets, h.hashSize, h.hashOffset]

theorem forall_fields_iff (h : Header) {P : Nat → Nat → Prop} :
    (∀ place value, h.fields[place]? = some value → P place value) ↔
      P 0 signature ∧ P 1 h.revision ∧ P 2 h.count ∧ P 3 h.sources ∧ P 4 h.targets ∧
        P 5 h.hashSize ∧ P 6 h.hashOffset := by
  constructor
  · intro hall
    exact ⟨hall 0 _ rfl, hall 1 _ rfl, hall 2 _ rfl, hall 3 _ rfl, hall 4 _ rfl, hall 5 _ rfl,
      hall 6 _ rfl⟩
  · rintro ⟨h₀, h₁, h₂, h₃, h₄, h₅, h₆⟩ place value hvalue
    obtain ⟨hplace, rfl⟩ := List.getElem?_eq_some_iff.1 hvalue
    match place, hplace with
    | 0, _ => exact h₀
    | 1, _ => exact h₁
    | 2, _ => exact h₂
    | 3, _ => exact h₃
    | 4, _ => exact h₄
    | 5, _ => exact h₅
    | 6, _ => exact h₆

theorem read?_eq_some_iff :
    Header.read? order data = some h ↔ h.order = order ∧ wordAt? data 4 = some h.revision ∧
      wordAt? data 8 = some h.count ∧ wordAt? data 12 = some h.sources ∧
      wordAt? data 16 = some h.targets ∧ wordAt? data 20 = some h.hashSize ∧
      wordAt? data 24 = some h.hashOffset := by
  obtain ⟨order', revision, count, sources, targets, hashSize, hashOffset⟩ := h
  simp only [Header.read?, Option.bind_eq_bind, Option.bind_eq_some_iff, Option.pure_def,
    Option.some.injEq, Header.mk.injEq]
  constructor
  · rintro ⟨_, h₁, _, h₂, _, h₃, _, h₄, _, h₅, _, h₆, rfl, rfl, rfl, rfl, rfl, rfl, rfl⟩
    exact ⟨rfl, h₁, h₂, h₃, h₄, h₅, h₆⟩
  · rintro ⟨rfl, h₁, h₂, h₃, h₄, h₅, h₆⟩
    exact ⟨_, h₁, _, h₂, _, h₃, _, h₄, _, h₅, _, h₆, rfl, rfl, rfl, rfl, rfl, rfl, rfl⟩

end Header

/-! ## Sound headers -/

/-- The header stands in the file: the file starts with its words in its byte order, and its tables
lie in the file and share no byte with the header or with each other. A hash table of up to two
slots counts as missing: all of it has to lie in the file too, but it does not matter where. -/
structure Header.IsSoundIn (h : Header) (data : Bytes) : Prop where
  length : 28 ≤ data.length
  fields : ∀ place value, h.fields[place]? = some value →
    h.order.valueAt? data (4 * place) = some value
  count : 0 < h.count
  sources : h.sources + 8 * h.count ≤ data.length
  targets : h.targets + 8 * h.count ≤ data.length
  slots : h.hashOffset + 4 * h.hashSize ≤ data.length
  disjoint : h.wordRegions.Pairwise fun a b => ∀ i, a.Holds i → ¬ b.Holds i

/-- What is read from a file is a header that stands in it. -/
theorem read?_readable_iff (hlength : headerSize ≤ data.length) :
    orderOf? data = some order ∧ Header.read? order (readable order data) = some h ↔
      h.order = order ∧ ∀ place value, h.fields[place]? = some value →
        h.order.valueAt? data (4 * place) = some value := by
  have hword : ∀ place < 7, wordAt? (readable order data) (4 * place) =
      order.valueAt? data (4 * place) := fun place => wordAt?_readable hlength
  rw [orderOf?_eq_some_iff_valueAt?, Header.read?_eq_some_iff, Header.forall_fields_iff,
    hword 1 (by decide), hword 2 (by decide), hword 3 (by decide), hword 4 (by decide),
    hword 5 (by decide), hword 6 (by decide)]
  constructor
  · rintro ⟨hsignature, rfl, hfields⟩
    exact ⟨rfl, hsignature, hfields⟩
  · rintro ⟨rfl, hsignature, hfields⟩
    exact ⟨hsignature, rfl, hfields⟩

/-- Two regions overlap if they share a byte, provided that neither is empty. -/
theorem overlaps_eq_false_iff {a b : Region} (ha : a.start < a.stop) (hb : b.start < b.stop) :
    a.overlaps b = false ↔ ∀ i, a.Holds i → ¬ b.Holds i := by
  constructor
  · exact fun h i => not_holds_of_overlaps h
  · intro h
    -- Of two regions that overlap, the start of the later one lies in both.
    have hlater := h (max a.start b.start)
    simp only [Region.Holds] at hlater
    simp only [Region.overlaps, Bool.and_eq_false_iff, decide_eq_false_iff_not]
    omega

theorem disjoint_iff_pairwise {regions : List Region} (hne : ∀ r ∈ regions, r.start < r.stop) :
    Region.disjoint regions = true ↔
      regions.Pairwise fun a b => ∀ i, a.Holds i → ¬ b.Holds i := by
  induction regions with
  | nil => simp [Region.disjoint]
  | cons r rest ih =>
      have hrest : ∀ s ∈ rest, s.start < s.stop := fun s hs => hne s (List.mem_cons_of_mem r hs)
      have hoverlaps : ∀ s ∈ rest, ((!r.overlaps s) = true ↔ ∀ i, r.Holds i → ¬ s.Holds i) := by
        intro s hs
        rw [Bool.not_eq_true', overlaps_eq_false_iff (hne r List.mem_cons_self) (hrest s hs)]
      rw [Region.disjoint, Bool.and_eq_true, List.all_eq_true, List.pairwise_cons, ih hrest]
      exact and_congr_left fun _ => forall₂_congr hoverlaps

theorem start_lt_stop_of_mem (hcount : 0 < h.count) {r : Region} (hr : r ∈ h.wordRegions) :
    r.start < r.stop := by
  have hdescriptors : ∀ offset : Nat, offset < offset + h.count * descriptorSize := by
    intro offset
    show offset < offset + h.count * 8
    omega
  rcases List.mem_append.1 hr with hr | hr
  · simp only [List.mem_cons, List.not_mem_nil, or_false] at hr
    rcases hr with rfl | rfl | rfl
    · decide
    · exact hdescriptors _
    · exact hdescriptors _
  · split at hr
    · rename_i hhashed
      obtain rfl := List.mem_singleton.1 hr
      have hsize : 2 < h.hashSize := of_decide_eq_true hhashed
      show h.hashOffset < h.hashOffset + h.hashSize * 4
      omega
    · exact absurd hr List.not_mem_nil

theorem layout_eq_ok_iff_isSoundIn {l : Layout} :
    layout data = .ok l ↔ l.header.IsSoundIn data ∧ l.regions = l.header.wordRegions := by
  have hdescriptors : l.header.count * descriptorSize = 8 * l.header.count := Nat.mul_comm _ _
  have hslots : l.header.hashSize * slotSize = 4 * l.header.hashSize := Nat.mul_comm _ _
  rw [layout_eq_ok_iff]
  constructor
  · rintro ⟨hlength, order, horder, hread, hcount, hregions, hdisjoint⟩
    obtain ⟨-, hfields⟩ := (read?_readable_iff hlength).1 ⟨horder, hread⟩
    obtain ⟨hsources, htargets, hhash, heq⟩ := Header.regions?_eq_ok_iff.1 hregions
    have hpos : 0 < l.header.count := Nat.pos_of_ne_zero hcount
    have heq : l.regions = l.header.wordRegions := heq
    rw [heq, disjoint_iff_pairwise fun r => start_lt_stop_of_mem hpos] at hdisjoint
    rw [hdescriptors] at hsources htargets
    rw [hslots] at hhash
    exact ⟨⟨hlength, hfields, hpos, hsources, htargets, hhash, hdisjoint⟩, heq⟩
  · rintro ⟨⟨hlength, hfields, hpos, hsources, htargets, hhash, hdisjoint⟩, heq⟩
    obtain ⟨horder, hread⟩ := (read?_readable_iff hlength).2 ⟨rfl, hfields⟩
    rw [← hdescriptors] at hsources htargets
    rw [← hslots] at hhash
    refine ⟨hlength, l.header.order, horder, hread, Nat.ne_of_gt hpos,
      Header.regions?_eq_ok_iff.2 ⟨hsources, htargets, hhash, heq⟩, ?_⟩
    rw [heq]
    exact (disjoint_iff_pairwise fun r => start_lt_stop_of_mem hpos).2 hdisjoint

/-! ## Normalizing -/

theorem regions_eq {l : Layout} (hl : layout data = .ok l) :
    l.regions = l.header.wordRegions ∧ ∀ r ∈ l.header.wordRegions, r.IsTable data.length := by
  obtain ⟨hlength, order, -, -, -, hregions, -⟩ := layout_eq_ok_iff.1 hl
  obtain ⟨hsources, htargets, hslots, hregions⟩ := Header.regions?_eq_ok_iff.1 hregions
  refine ⟨hregions, fun r hr => ?_⟩
  have hdescriptors : ∀ offset : Nat, ∃ count,
      offset + l.header.count * descriptorSize = offset + 4 * count :=
    fun offset => ⟨2 * l.header.count, by rw [descriptorSize]; omega⟩
  rcases List.mem_append.1 hr with hr | hr
  · rcases List.mem_cons.1 hr with rfl | hr
    · exact ⟨⟨7, rfl⟩, hlength⟩
    · rcases List.mem_cons.1 hr with rfl | hr
      · exact ⟨hdescriptors _, hsources⟩
      · obtain rfl := List.mem_singleton.1 hr
        exact ⟨hdescriptors _, htargets⟩
  · split at hr
    · obtain rfl := List.mem_singleton.1 hr
      exact ⟨⟨l.header.hashSize, by rw [slotSize, Nat.mul_comm]⟩, hslots⟩
    · exact absurd hr List.not_mem_nil

/-- The bytes that a file with this header is normalized to. -/
def Header.intoLittle (h : Header) (data : Bytes) : Bytes :=
  match h.order with
  | .little => data
  | .big => h.wordRegions.foldl Region.swap data

theorem normalize_of_layout {l : Layout} (hl : layout data = .ok l) :
    normalize data = (.ok l.header, l.header.intoLittle data) := by
  unfold normalize Header.intoLittle
  rw [hl, ← (regions_eq hl).1]
  dsimp only
  cases l.header.order <;> rfl

theorem normalize_eq_ok_iff :
    normalize data = (.ok h, normalized) ↔
      layout data = .ok ⟨h, h.wordRegions⟩ ∧ normalized = h.intoLittle data := by
  cases hl : layout data with
  | error defect => simp [normalize_of_error hl]
  | ok l =>
      rw [normalize_of_layout hl]
      constructor
      · rintro ⟨⟩
        exact ⟨by rw [← (regions_eq hl).1], rfl⟩
      · rintro ⟨⟨⟩, rfl⟩
        rfl

/-- A byte that lies in none of the regions stays what it is. -/
theorem outside_normalize (hok : normalize data = (.ok h, normalized)) :
    normalized.length = data.length ∧
      ∀ i, (∀ r ∈ h.wordRegions, ¬ r.Holds i) → normalized[i]? = data[i]? := by
  obtain ⟨hl, rfl⟩ := normalize_eq_ok_iff.1 hok
  unfold Header.intoLittle
  cases h.order with
  | little => exact ⟨rfl, fun _ _ => rfl⟩
  | big =>
      obtain ⟨-, _, -, -, -, -, hdisjoint⟩ := layout_eq_ok_iff.1 hl
      have hreversed := wordsReversed_foldl (regions_eq hl).2 hdisjoint
      exact ⟨hreversed.length, hreversed.outside⟩

/-- **Checking a header is exact and atomic.** A file is accepted exactly if a sound header stands
in it, and the header that is given back is that one. A file that is refused stays as it is, byte
for byte. A file that is accepted keeps its length, and every byte outside of the header and the
tables. -/
theorem normalize_eq_ok_iff_isSoundIn (data : Bytes) :
    (∀ h, (normalize data).1 = .ok h ↔ h.IsSoundIn data) ∧
    (∀ defect, (normalize data).1 = .error defect → (normalize data).2 = data) ∧
    ∀ h, (normalize data).1 = .ok h → (normalize data).2.length = data.length ∧
      ∀ i, (∀ r ∈ h.wordRegions, ¬ r.Holds i) → (normalize data).2[i]? = data[i]? := by
  refine ⟨fun h => ?_, fun defect hdefect => ?_, fun h hok => ?_⟩
  · constructor
    · intro hok
      obtain ⟨hl, -⟩ := normalize_eq_ok_iff.1 (Prod.ext hok rfl)
      exact (layout_eq_ok_iff_isSoundIn.1 hl).1
    · intro hsound
      have hl : layout data = .ok ⟨h, h.wordRegions⟩ := layout_eq_ok_iff_isSoundIn.2 ⟨hsound, rfl⟩
      rw [normalize_of_layout hl]
  · cases hl : layout data with
    | error _ => rw [normalize_of_error hl]
    | ok l => rw [normalize_of_layout hl] at hdefect; cases hdefect
  · exact outside_normalize (Prod.ext hok rfl)

/-- A little-endian file of 32 bytes whose `2 ^ 29` descriptors would end where they start if sizes
were cut to 32 bits. -/
def wrapping : Bytes :=
  [signature, 0, 2 ^ 29, 28, 28, 0, 0, 0].flatMap ByteOrder.little.word

/-- A big-endian file of 44 bytes, the tables of which fill it up to the last byte. The hash table
of two slots lies across the other two. -/
def filledUp : Bytes :=
  [signature, 0, 1, 28, 36, 2, 32, 1, 2, 3, 4].flatMap ByteOrder.big.word

theorem normalize_eq_ok_iff_isSoundIn_filledUp :
    (normalize wrapping).1 = .error .tableOutside ∧ (normalize wrapping).2 = wrapping ∧
      ¬ (⟨.little, 0, 2 ^ 29, 28, 28, 0, 0⟩ : Header).IsSoundIn wrapping ∧
      (⟨.big, 0, 1, 28, 36, 2, 32⟩ : Header).IsSoundIn filledUp ∧
      (normalize filledUp).2.length = filledUp.length := by
  obtain ⟨hsound, hrefused, -⟩ := normalize_eq_ok_iff_isSoundIn wrapping
  have herror : (normalize wrapping).1 = .error .tableOutside := rfl
  obtain ⟨hsound', -, haccepted⟩ := normalize_eq_ok_iff_isSoundIn filledUp
  have hok : (normalize filledUp).1 = .ok ⟨.big, 0, 1, 28, 36, 2, 32⟩ := rfl
  refine ⟨herror, hrefused _ herror, fun h => ?_, (hsound' _).1 hok, (haccepted _ hok).1⟩
  have := (hsound _).2 h
  rw [herror] at this
  cases this

end MessageCatalog.Mo
