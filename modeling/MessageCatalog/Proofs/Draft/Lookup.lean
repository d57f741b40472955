import MessageCatalog.Proofs.Draft.Image

set_option autoImplicit false

/-! # Looking up what was written

The messages of a draft with the same key are neighbours: they stand from place `first` up to and
without place `last`. A probe through the hash table finds the first of them
(`findByHash_image`), since it was put into the table before the others. Binary search finds the
one that halving lands on (`findByOrder_image`). Either way a key is found exactly if a message has
it, and what is found is the target of such a message.
-/

namespace MessageCatalog.Draft

open Mo

variable {d : Draft}

/-! ## The messages with a key -/

/-- The place of the first message whose key is not below the given one. -/
def first (d : Draft) (key : Bytes) : Nat := Image.below key d.keys

/-- The place behind the last message whose key is not above the given one. -/
def last (d : Draft) (key : Bytes) : Nat := Image.notAbove key d.keys

theorem getElem?_keys {i : Nat} {m : Record} (h : d.messages[i]? = some m) :
    d.keys[i]? = some (Bytes.beforeNul m.1) := by
  rw [keys, List.getElem?_map, getElem?_sources h]
  rfl

theorem key_eq_iff {key : Bytes} {i : Nat} {m : Record} (h : d.messages[i]? = some m) :
    Bytes.beforeNul m.1 = key ↔ d.first key ≤ i ∧ i < d.last key :=
  (Image.mem_stretch_iff d.ascending_keys (getElem?_keys h)).symm

theorem last_le_size (d : Draft) (key : Bytes) : d.last key ≤ d.size := by
  have h : Image.notAbove key d.keys ≤ d.keys.length := List.countP_le_length
  rwa [keys, List.length_map, length_sources] at h

/-- There is a message with a key exactly if there is room for one between `first` and `last`. -/
theorem exists_key_iff {key : Bytes} :
    (∃ m ∈ d.messages, Bytes.beforeNul m.1 = key) ↔ d.first key < d.last key := by
  constructor
  · rintro ⟨m, hm, hkey⟩
    obtain ⟨i, hi⟩ := List.mem_iff_getElem?.1 hm
    have := (key_eq_iff hi).1 hkey
    omega
  · intro h
    obtain ⟨m, hm⟩ := lt_size_iff.1 (Nat.lt_of_lt_of_le h (d.last_le_size key))
    exact ⟨m, List.mem_of_getElem? hm, (key_eq_iff hm).2 ⟨Nat.le_refl _, h⟩⟩

/-! ## Searching -/

theorem any_isFoundUnder (hfit : d.write.length < 2 ^ 32) {key : Bytes} (hkey : 0 ∉ key) {i : Nat}
    {m : Record} (hm : d.messages[i]? = some m) :
    (d.image.source? i).any (Image.isFoundUnder key) = true ↔ d.first key ≤ i ∧ i < d.last key := by
  rw [source?_image hfit, getElem?_sources hm, Option.any_some, Image.isFoundUnder_iff hkey,
    key_eq_iff hm]

/-- **The hash table leads to the first message with a key.** -/
theorem findByHash_image (hhashed : d.hashed = true) (hfit : d.write.length < 2 ^ 32) {key : Bytes}
    (hkey : 0 ∉ key) :
    d.image.findByHash key = if d.first key < d.last key then some (d.first key) else none := by
  have htable : d.table = slots d.sources := if_pos hhashed
  unfold Image.findByHash
  by_cases hex : d.first key < d.last key
  · obtain ⟨m, hm⟩ := lt_size_iff.1 (Nat.lt_of_lt_of_le hex (d.last_le_size key))
    have hhash : (d.sources.map hashOf)[d.first key]? = some (Mo.hash key).toNat := by
      rw [List.getElem?_map, getElem?_sources hm, Option.map_some, hashOf,
        (key_eq_iff hm).2 ⟨Nat.le_refl _, hex⟩]
    obtain ⟨before, slot, after, hwalk, hslot, hbefore⟩ :=
      (filled_slots d.sources).leadsTo _ _ hhash
    rw [← htable] at hwalk hslot hbefore
    rw [if_pos hex]
    refine Image.probeFor_eq_some hwalk (fun s hs => ?_) (slot?_image hfit hslot) ?_
    · -- On the way there are only earlier messages, and those have keys below this one.
      obtain ⟨v, hv, hpos, hlt⟩ := hbefore s hs
      refine ⟨v - 1, ?_, ?_⟩
      · rw [Nat.sub_add_cancel hpos]
        exact slot?_image hfit hv
      · obtain ⟨other, hother⟩ := lt_size_iff.1 (by have := d.last_le_size key; omega :
          v - 1 < d.size)
        rw [← Bool.not_eq_true, any_isFoundUnder hfit hkey hother]
        omega
    · exact (any_isFoundUnder hfit hkey hm).2 ⟨Nat.le_refl _, hex⟩
  · rw [if_neg hex]
    refine Image.probeFor_eq_none (fun i => ?_) _ _
    rw [← Bool.not_eq_true]
    by_cases hi : i < d.size
    · obtain ⟨m, hm⟩ := lt_size_iff.1 hi
      rw [any_isFoundUnder hfit hkey hm]
      omega
    · rw [source?_image hfit, List.getElem?_eq_none (by rw [length_sources]; omega)]
      simp

/-- **Binary search leads to the message that halving lands on.** -/
theorem findByOrder_image (hfit : d.write.length < 2 ^ 32) (key : Bytes) :
    d.image.findByOrder key = Image.landing (d.first key) (d.last key) 0 d.size :=
  Image.findByOrder_eq_landing (hasKeys_image hfit) key

theorem find_image_eq (d : Draft) (key : Bytes) :
    d.image.find key =
      if d.hashed then d.image.findByHash key else d.image.findByOrder key := by
  have h : d.image.header.isHashed = d.hashed := isHashed_header
  unfold Image.find
  rw [h]

/-- Whatever the way, a key is found if there is a message with it, and then at its place. -/
theorem find_image (hfit : d.write.length < 2 ^ 32) {key : Bytes} (hkey : 0 ∉ key) :
    ((d.image.find key).isSome = true ↔ d.first key < d.last key) ∧
      ∀ i, d.image.find key = some i → d.first key ≤ i ∧ i < d.last key := by
  rw [find_image_eq]
  by_cases hhashed : d.hashed = true
  · rw [if_pos hhashed, findByHash_image hhashed hfit hkey]
    by_cases hex : d.first key < d.last key
    · rw [if_pos hex]
      refine ⟨by simp [hex], ?_⟩
      rintro i ⟨⟩
      exact ⟨Nat.le_refl _, hex⟩
    · rw [if_neg hex]
      simp [hex]
  · rw [if_neg hhashed, findByOrder_image hfit]
    refine ⟨⟨fun h => ?_, fun h => ?_⟩, fun i hi => Image.landing_mem hi⟩
    · obtain ⟨i, hi⟩ := Option.isSome_iff_exists.1 h
      have := Image.landing_mem hi
      omega
    · exact Image.landing_isSome (Nat.zero_le _) h (d.last_le_size key)

theorem lookup_image (hfit : d.write.length < 2 ^ 32) (query : Bytes) :
    d.image.lookup query =
      (d.image.find (Bytes.beforeNul query)).bind fun i => d.targets[i]? := by
  unfold Image.lookup
  simp only [target?_image hfit]
  rfl

theorem lookup_image_eq_some (hfit : d.write.length < 2 ^ 32) {query target : Bytes}
    (h : d.image.lookup query = some target) :
    ∃ m ∈ d.messages, Bytes.beforeNul m.1 = Bytes.beforeNul query ∧ target = m.2 := by
  rw [lookup_image hfit] at h
  obtain ⟨i, hi, htarget⟩ := Option.bind_eq_some_iff.1 h
  have hplace := (find_image hfit (Bytes.not_mem_beforeNul query)).2 i hi
  obtain ⟨m, hm⟩ := lt_size_iff.1 (Nat.lt_of_lt_of_le hplace.2 (d.last_le_size _))
  rw [getElem?_targets hm] at htarget
  exact ⟨m, List.mem_of_getElem? hm, (key_eq_iff hm).2 hplace, (Option.some.inj htarget).symm⟩

theorem isSome_lookup_image (hfit : d.write.length < 2 ^ 32) (query : Bytes) :
    (d.image.lookup query).isSome = true ↔
      ∃ m ∈ d.messages, Bytes.beforeNul m.1 = Bytes.beforeNul query := by
  constructor
  · intro h
    obtain ⟨target, ht⟩ := Option.isSome_iff_exists.1 h
    obtain ⟨m, hm, hkey, -⟩ := lookup_image_eq_some hfit ht
    exact ⟨m, hm, hkey⟩
  · intro h
    obtain ⟨hsome, hplace⟩ := find_image hfit (Bytes.not_mem_beforeNul query)
    obtain ⟨i, hi⟩ := Option.isSome_iff_exists.1 (hsome.2 (exists_key_iff.1 h))
    have hlt := Nat.lt_of_lt_of_le (hplace i hi).2 (d.last_le_size _)
    obtain ⟨m, hm⟩ := lt_size_iff.1 hlt
    rw [lookup_image hfit, hi, Option.bind_some, getElem?_targets hm]
    rfl

/-! ## From the draft to the answer -/

/-- **What was written is found.** The file of a draft can be loaded. A query finds something
exactly if a message has its key, and what it finds is the target of such a message, which is the
target of the only one if there is only one. -/
theorem lookup_write (d : Draft) (hne : d.messages ≠ []) (hfit : d.write.length < 2 ^ 32)
    {options : LoadOptions} (hmax : d.write.length ≤ options.maxSize) (name : String) :
    ∃ c, (Catalog.ofBytes d.write name options).value = .ok c ∧ ∀ query,
      ((c.lookup query).isSome = true ↔
        ∃ m ∈ d.messages, Bytes.beforeNul m.1 = Bytes.beforeNul query) ∧
      (∀ target, c.lookup query = some target →
        ∃ m ∈ d.messages, Bytes.beforeNul m.1 = Bytes.beforeNul query ∧ target = m.2) ∧
      (∀ m ∈ d.messages, Bytes.beforeNul m.1 = Bytes.beforeNul query →
        (∀ m' ∈ d.messages, Bytes.beforeNul m'.1 = Bytes.beforeNul query → m' = m) →
        c.lookup query = some m.2) := by
  refine ⟨_, ofBytes_write hne hfit hmax name, fun query => ⟨isSome_lookup_image hfit query,
    fun target => lookup_image_eq_some hfit, fun m hm hkey honly => ?_⟩⟩
  have hsome := (isSome_lookup_image hfit query).2 ⟨m, hm, hkey⟩
  obtain ⟨target, ht⟩ := Option.isSome_iff_exists.1 hsome
  obtain ⟨m', hm', hkey', rfl⟩ := lookup_image_eq_some hfit ht
  rw [← honly m' hm' hkey']
  exact ht

theorem lookup_write_twins :
    (twins.withOrder .big).messages ≠ [] ∧ (twins.withOrder .big).write.length < 2 ^ 32 ∧
      (twins.withOrder .big).write.length ≤ (⟨64 * 1024, true⟩ : LoadOptions).maxSize ∧
      ∃ c, (Catalog.ofBytes (twins.withOrder .big).write "twins" ⟨64 * 1024, true⟩).value = .ok c ∧
        ∀ query, (c.lookup query).isSome = true ↔
          ∃ m ∈ twins.messages, Bytes.beforeNul m.1 = Bytes.beforeNul query := by
  have hne : (twins.withOrder .big).messages ≠ [] := by decide
  have hfit : (twins.withOrder .big).write.length < 2 ^ 32 := by decide +kernel
  have hmax : (twins.withOrder .big).write.length ≤ (⟨64 * 1024, true⟩ : LoadOptions).maxSize := by
    decide +kernel
  obtain ⟨c, hc, hlookup⟩ := lookup_write _ hne hfit hmax "twins"
  exact ⟨hne, hfit, hmax, c, hc, fun query => (hlookup query).1⟩

/-! ## Hash table and binary search -/

/-- The message that halving lands on has the same target as the first one with the key. -/
def AgreesOn (d : Draft) (key : Bytes) : Prop :=
  ∀ i, Image.landing (d.first key) (d.last key) 0 d.size = some i →
    d.targets[i]? = d.targets[d.first key]?

theorem lookup_image_hashed (hhashed : d.hashed = true) (hfit : d.write.length < 2 ^ 32)
    (query : Bytes) :
    d.image.lookup query =
      if d.first (Bytes.beforeNul query) < d.last (Bytes.beforeNul query) then
        d.targets[d.first (Bytes.beforeNul query)]?
      else none := by
  rw [lookup_image hfit, find_image_eq, if_pos hhashed,
    findByHash_image hhashed hfit (Bytes.not_mem_beforeNul query)]
  split <;> rfl

theorem lookup_image_ordered (hhashed : d.hashed = false) (hfit : d.write.length < 2 ^ 32)
    (query : Bytes) :
    d.image.lookup query =
      (Image.landing (d.first (Bytes.beforeNul query)) (d.last (Bytes.beforeNul query)) 0
        d.size).bind fun i => d.targets[i]? := by
  rw [lookup_image hfit, find_image_eq, if_neg (by simp [hhashed]), findByOrder_image hfit]

theorem length_write_ordered_le (d : Draft) :
    (d.withHashing false).write.length ≤ (d.withHashing true).write.length := by
  rw [length_write, length_write, stringsAt_eq, stringsAt_eq, length_words, length_words]
  show 4 * (7 + 4 * d.size + 0) + d.strings.length ≤ 4 * (7 + 4 * d.size + _) + d.strings.length
  omega

/-- Halving lands on a message with the key if there is one. -/
theorem lookup_eq_lookup_iff (d : Draft) (key : Bytes) :
    ((if d.first key < d.last key then d.targets[d.first key]? else none) =
      (Image.landing (d.first key) (d.last key) 0 d.size).bind fun i => d.targets[i]?) ↔
    d.AgreesOn key := by
  unfold AgreesOn
  by_cases hex : d.first key < d.last key
  · obtain ⟨i, hi⟩ := Option.isSome_iff_exists.1
      (Image.landing_isSome (Nat.zero_le _) hex (d.last_le_size key))
    rw [if_pos hex, hi, Option.bind_some]
    constructor
    · rintro h j ⟨⟩
      exact h.symm
    · intro h
      exact (h i rfl).symm
  · cases hl : Image.landing (d.first key) (d.last key) 0 d.size with
    | none => simp [hex]
    | some i =>
        have := Image.landing_mem hl
        omega

theorem agreesOn_of_forall {key : Bytes}
    (h : ∀ m ∈ d.messages, ∀ m' ∈ d.messages, Bytes.beforeNul m.1 = key →
      Bytes.beforeNul m'.1 = key → m.2 = m'.2) : d.AgreesOn key := by
  intro i hi
  have hplace := Image.landing_mem hi
  obtain ⟨m, hm⟩ := lt_size_iff.1 (Nat.lt_of_lt_of_le hplace.2 (d.last_le_size key))
  have hfirst : d.first key < d.last key := by omega
  obtain ⟨m', hm'⟩ := lt_size_iff.1 (Nat.lt_of_lt_of_le hfirst (d.last_le_size key))
  rw [getElem?_targets hm, getElem?_targets hm', h m (List.mem_of_getElem? hm) m'
    (List.mem_of_getElem? hm') ((key_eq_iff hm).2 hplace)
    ((key_eq_iff hm').2 ⟨Nat.le_refl _, hfirst⟩)]

/-- **Where the two ways agree.** With and without a hash table a draft gives the same answer to a
query exactly if the message that halving lands on has the target of the first message with that
key. So it does if the messages with the key do not differ in their targets, above all if there is
one message only. -/
theorem lookup_hashed_eq_ordered_iff (d : Draft) (hne : d.messages ≠ [])
    (hfit : (d.withHashing true).write.length < 2 ^ 32) {options : LoadOptions}
    (hmax : (d.withHashing true).write.length ≤ options.maxSize) (name : String) :
    ∃ hashed ordered,
      (Catalog.ofBytes (d.withHashing true).write name options).value = .ok hashed ∧
      (Catalog.ofBytes (d.withHashing false).write name options).value = .ok ordered ∧
      ∀ query, (hashed.lookup query = ordered.lookup query ↔ d.AgreesOn (Bytes.beforeNul query)) ∧
        ((∀ m ∈ d.messages, ∀ m' ∈ d.messages, Bytes.beforeNul m.1 = Bytes.beforeNul query →
          Bytes.beforeNul m'.1 = Bytes.beforeNul query → m.2 = m'.2) →
          hashed.lookup query = ordered.lookup query) := by
  have hle := d.length_write_ordered_le
  have hfit' : (d.withHashing false).write.length < 2 ^ 32 := Nat.lt_of_le_of_lt hle hfit
  have hmax' : (d.withHashing false).write.length ≤ options.maxSize := Nat.le_trans hle hmax
  have hne' : ∀ hashed, (d.withHashing hashed).messages ≠ [] := fun _ => hne
  refine ⟨_, _, ofBytes_write (hne' true) hfit hmax name,
    ofBytes_write (hne' false) hfit' hmax' name, fun query => ?_⟩
  have hiff : (d.withHashing true).image.lookup query = (d.withHashing false).image.lookup query ↔
      d.AgreesOn (Bytes.beforeNul query) := by
    rw [lookup_image_hashed rfl hfit, lookup_image_ordered rfl hfit']
    exact d.lookup_eq_lookup_iff _
  exact ⟨hiff, fun h => hiff.2 (agreesOn_of_forall h)⟩

theorem lookup_hashed_eq_ordered_iff_twins :
    twins.messages ≠ [] ∧ (twins.withHashing true).write.length < 2 ^ 32 ∧
      (twins.withHashing true).write.length ≤ ({} : LoadOptions).maxSize ∧
      ∃ hashed ordered,
        (Catalog.ofBytes (twins.withHashing true).write "twins" {}).value = .ok hashed ∧
        (Catalog.ofBytes (twins.withHashing false).write "twins" {}).value = .ok ordered ∧
        ∀ query, hashed.lookup query = ordered.lookup query ↔
          twins.AgreesOn (Bytes.beforeNul query) := by
  have hne : twins.messages ≠ [] := by decide
  have hfit : (twins.withHashing true).write.length < 2 ^ 32 := by decide +kernel
  have hmax : (twins.withHashing true).write.length ≤ ({} : LoadOptions).maxSize := by
    decide +kernel
  obtain ⟨hashed, ordered, h, h', hiff⟩ :=
    lookup_hashed_eq_ordered_iff twins hne hfit hmax "twins"
  exact ⟨hne, hfit, hmax, hashed, ordered, h, h', fun query => (hiff query).1⟩

/-- A message and a plural message with the same key: the hash table leads to the first one,
halving lands on the second one. -/
theorem lookup_twins_ne :
    ∃ hashed ordered,
      (Catalog.ofBytes (twins.withHashing true).write "twins" {}).value = .ok hashed ∧
      (Catalog.ofBytes (twins.withHashing false).write "twins" {}).value = .ok ordered ∧
      hashed.lookup [97] = some [88] ∧ ordered.lookup [97] = some [89] := by
  have hne : ∀ hashed, (twins.withHashing hashed).messages ≠ [] := by decide
  have hfit : ∀ hashed, (twins.withHashing hashed).write.length < 2 ^ 32 := by decide +kernel
  have hmax : ∀ hashed, (twins.withHashing hashed).write.length ≤ ({} : LoadOptions).maxSize := by
    decide +kernel
  have hfirst : ∀ hashed, (twins.withHashing hashed).first [97] = 0 := by decide +kernel
  have hlast : ∀ hashed, (twins.withHashing hashed).last [97] = 2 := by decide +kernel
  have hlanding : Image.landing 0 2 0 2 = some 1 := by simp [Image.landing]
  refine ⟨_, _, ofBytes_write (hne true) (hfit true) (hmax true) _,
    ofBytes_write (hne false) (hfit false) (hmax false) _, ?_, ?_⟩
  · show (twins.withHashing true).image.lookup [97] = _
    rw [lookup_image_hashed rfl (hfit true)]
    show (if (twins.withHashing true).first [97] < (twins.withHashing true).last [97]
      then _ else _) = _
    rw [hfirst, hlast]
    rfl
  · show (twins.withHashing false).image.lookup [97] = _
    rw [lookup_image_ordered rfl (hfit false)]
    show (Image.landing ((twins.withHashing false).first [97])
      ((twins.withHashing false).last [97]) 0 2).bind _ = _
    rw [hfirst, hlast, hlanding]
    rfl

end MessageCatalog.Draft
