import MessageCatalog.Proofs.Draft.File
import MessageCatalog.Proofs.Mo.Search

set_option autoImplicit false

/-! # The image of a draft

`Draft.image` is what a catalog file of a draft becomes when it is loaded. Its sources and targets
are those of the draft, entry by entry (`source?_image`, `target?_image`), and so are the slots of
its hash table (`slot?_image`). Its keys are in order because the sources are: a source that comes
first still comes first, or is equal, when both are cut at their first NUL.
-/

namespace MessageCatalog

/-! ## Keys -/

/-- Cutting at NUL keeps the order of two strings, since no byte comes before NUL. -/
theorem Bytes.beforeNul_le {a b : Bytes} (h : a < b) : beforeNul a ≤ beforeNul b := by
  induction a generalizing b with
  | nil => exact List.nil_le _
  | cons x xs ih =>
      cases b with
      | nil => exact absurd h (List.not_lt_nil _)
      | cons y ys =>
          by_cases hx : x = 0
          · rw [beforeNul, List.takeWhile_cons_of_neg (by simp [hx])]
            exact List.nil_le _
          · rw [List.cons_lt_cons_iff] at h
            have hy : y ≠ 0 := by
              rintro rfl
              rcases h with h | ⟨h, -⟩
              · exact absurd h (UInt8.not_lt_zero)
              · exact hx h
            rw [beforeNul, beforeNul, List.takeWhile_cons_of_pos (by simpa using hx),
              List.takeWhile_cons_of_pos (by simpa using hy), List.cons_le_cons_iff]
            rcases h with h | ⟨rfl, h⟩
            · exact Or.inl h
            · exact Or.inr ⟨rfl, ih h⟩

namespace Draft

open Mo

/-- The file of a draft as it is loaded. -/
def image (d : Draft) : Image := ⟨d.header, (d.withOrder .little).write.toArray⟩

/-! ## Descriptors -/

theorem getElem?_descriptors_length (offset : Nat) (parts : List Bytes) (i : Nat) :
    (descriptors offset parts)[2 * i]? = parts[i]?.map List.length := by
  induction parts generalizing offset i with
  | nil => rfl
  | cons s rest ih =>
      cases i with
      | zero => rfl
      | succ i =>
          rw [Nat.mul_succ, descriptors, List.getElem?_cons_succ, List.getElem?_cons_succ, ih,
            List.getElem?_cons_succ]

/-- The offset of a string is where the strings before it end. -/
theorem getElem?_descriptors_offset (offset : Nat) (parts : List Bytes) (i : Nat) :
    (descriptors offset parts)[2 * i + 1]? =
      parts[i]?.map fun _ => offset + (stringArea (parts.take i)).length := by
  induction parts generalizing offset i with
  | nil => rfl
  | cons s rest ih =>
      cases i with
      | zero => rfl
      | succ i =>
          have hlen : ∀ k, offset + s.length + 1 + k = offset + (s.length + 1 + k) := by omega
          rw [Nat.mul_succ, descriptors, List.getElem?_cons_succ, List.getElem?_cons_succ, ih,
            List.getElem?_cons_succ, List.take_succ_cons]
          simp only [stringArea, List.flatMap_cons, List.length_append, List.length_singleton,
            hlen]

/-- A string stands behind the strings before it. -/
theorem stringArea_split {parts : List Bytes} {i : Nat} {s : Bytes} (h : parts[i]? = some s) :
    ∃ rest, stringArea parts = stringArea (parts.take i) ++ (s ++ rest) := by
  obtain ⟨hi, rfl⟩ := List.getElem?_eq_some_iff.1 h
  have hparts : parts = parts.take i ++ parts[i] :: parts.drop (i + 1) := by
    rw [← List.drop_eq_getElem_cons hi, List.take_append_drop]
  refine ⟨[0] ++ stringArea (parts.drop (i + 1)), ?_⟩
  calc stringArea parts
      = stringArea (parts.take i ++ parts[i] :: parts.drop (i + 1)) := congrArg stringArea hparts
    _ = _ := by
        simp only [stringArea, List.flatMap_append, List.flatMap_cons, List.append_assoc]

theorem slice?_image (d : Draft) {front part back : Bytes}
    (h : (d.withOrder .little).write = front ++ (part ++ back)) :
    d.image.slice? front.length part.length = some part := by
  have hlist : d.image.data.toList = front ++ (part ++ back) := h
  have hsize : d.image.data.size = front.length + (part.length + back.length) := by
    rw [← Array.length_toList, hlist, List.length_append, List.length_append]
  rw [Image.slice?_eq_some_iff, hsize, hlist, List.drop_left, List.take_left]
  exact ⟨by omega, rfl⟩

variable {d : Draft}

theorem wordAt?_image (hfit : d.write.length < 2 ^ 32) {i v : Nat} (h : d.words[i]? = some v) :
    d.image.wordAt? (4 * i) = some v := by
  rw [Image.wordAt?_eq]
  exact wordAt?_write hfit h

/-- A table of descriptors, which stands behind the words `before`, gives the strings that stand
behind the bytes `front`. -/
theorem stored?_image (hfit : d.write.length < 2 ^ 32) {before after : List Nat}
    {front back : Bytes} {parts : List Bytes} (hparts : parts.length = d.size)
    (hwords : d.words = before ++ (descriptors front.length parts ++ after))
    (hbytes : (d.withOrder .little).write = front ++ (stringArea parts ++ back)) (i : Nat) :
    d.image.stored? (4 * before.length) i = parts[i]? := by
  have hcount : d.image.header.count = d.size := rfl
  unfold Image.stored?
  rw [hcount]
  by_cases hi : i < d.size
  · have hword : ∀ k v, (descriptors front.length parts)[k]? = some v →
        d.image.wordAt? (4 * (before.length + k)) = some v := by
      intro k v hk
      refine wordAt?_image hfit ?_
      rw [hwords, List.getElem?_append_right (Nat.le_add_right _ _), Nat.add_sub_cancel_left,
        List.getElem?_append_left (List.getElem?_eq_some_iff.1 hk).1, hk]
    have hs : parts[i]? = some parts[i] := List.getElem?_eq_getElem (hparts ▸ hi)
    have hlength := hword (2 * i) parts[i].length
      (by rw [getElem?_descriptors_length, hs]; rfl)
    have hoffset := hword (2 * i + 1) (front.length + (stringArea (parts.take i)).length)
      (by rw [getElem?_descriptors_offset, hs]; rfl)
    have hslice : d.image.slice? (front.length + (stringArea (parts.take i)).length)
        parts[i].length = some parts[i] := by
      obtain ⟨rest, hrest⟩ := stringArea_split hs
      rw [hrest, List.append_assoc, List.append_assoc, ← List.append_assoc] at hbytes
      rw [← List.length_append]
      exact d.slice?_image hbytes
    have hat : 4 * before.length + i * descriptorSize = 4 * (before.length + 2 * i) := by
      show 4 * before.length + i * 8 = _
      omega
    have hafter : 4 * (before.length + 2 * i) + 4 = 4 * (before.length + (2 * i + 1)) := by omega
    rw [if_pos hi, hat, hlength, hafter, hoffset, hs]
    exact hslice
  · rw [if_neg hi, List.getElem?_eq_none (by omega)]

theorem source?_image (hfit : d.write.length < 2 ^ 32) (i : Nat) :
    d.image.source? i = d.sources[i]? := by
  have hwords : d.words = d.fields ++
      (descriptors (d.words.flatMap ByteOrder.little.word).length d.sources ++
        (d.targetDescriptors ++ d.table)) := by
    rw [length_flatMap_word, ← stringsAt_eq, words_eq, List.append_assoc, List.append_assoc]
    rfl
  have hbytes := d.write_little
  rw [strings] at hbytes
  exact stored?_image hfit d.length_sources hwords hbytes i

theorem target?_image (hfit : d.write.length < 2 ^ 32) (i : Nat) :
    d.image.target? i = d.targets[i]? := by
  have hfront : (d.words.flatMap ByteOrder.little.word ++ stringArea d.sources).length =
      d.stringsAt + (stringArea d.sources).length := by
    rw [List.length_append, length_flatMap_word, ← stringsAt_eq]
  have hwords : d.words = (d.fields ++ d.sourceDescriptors) ++
      (descriptors (d.words.flatMap ByteOrder.little.word ++ stringArea d.sources).length
        d.targets ++ d.table) := by
    rw [hfront, words_eq, List.append_assoc]
    rfl
  have hbytes : (d.withOrder .little).write =
      (d.words.flatMap ByteOrder.little.word ++ stringArea d.sources) ++
        (stringArea d.targets ++ []) := by
    rw [write_little, strings, List.append_nil, List.append_assoc]
  have htable : 4 * (d.fields ++ d.sourceDescriptors).length = d.image.header.targets := by
    rw [List.length_append, length_sourceDescriptors]
    show 4 * (7 + 2 * d.size) = 28 + d.size * 8
    omega
  have h := stored?_image hfit d.length_targets hwords hbytes i
  rwa [htable] at h

theorem slot?_image (hfit : d.write.length < 2 ^ 32) {s v : Nat} (h : d.table[s]? = some v) :
    d.image.slot? s = some v := by
  have hword : d.words[7 + 4 * d.size + s]? = some v := by
    have hlen : (d.fields ++ d.sourceDescriptors ++ d.targetDescriptors).length =
        7 + 4 * d.size := by
      rw [List.length_append, List.length_append, length_sourceDescriptors,
        length_targetDescriptors]
      show 7 + _ + _ = _
      omega
    rw [words_eq, List.getElem?_append_right (by omega), hlen, Nat.add_sub_cancel_left, h]
  have hat : d.image.header.hashOffset + s * slotSize = 4 * (7 + 4 * d.size + s) := by
    show 28 + d.size * 8 + d.size * 8 + s * 4 = _
    omega
  unfold Image.slot?
  rw [hat]
  exact wordAt?_image hfit hword

/-! ## Entries and keys -/

theorem lt_size_iff {i : Nat} : i < d.size ↔ ∃ m, d.messages[i]? = some m := by
  constructor
  · intro h
    exact ⟨d.messages[i], List.getElem?_eq_getElem h⟩
  · rintro ⟨m, hm⟩
    exact (List.getElem?_eq_some_iff.1 hm).1

theorem getElem?_sources {i : Nat} {m : Record} (h : d.messages[i]? = some m) :
    d.sources[i]? = some m.1 := by
  rw [sources, List.getElem?_map, h]
  rfl

theorem getElem?_targets {i : Nat} {m : Record} (h : d.messages[i]? = some m) :
    d.targets[i]? = some m.2 := by
  rw [targets, List.getElem?_map, h]
  rfl

theorem filterMap_getElem?_range {α : Type} (l : List α) :
    (List.range l.length).filterMap (fun i => l[i]?) = l := by
  induction l with
  | nil => rfl
  | cons a rest ih =>
      have hhead : (a :: rest)[0]? = some a := rfl
      rw [List.length_cons, List.range_succ_eq_map, List.filterMap_cons, hhead,
        List.filterMap_map]
      exact congrArg (List.cons a) ih

theorem entries_image (hfit : d.write.length < 2 ^ 32) : d.image.entries = d.messages := by
  have hentry : ∀ i ∈ List.range d.size,
      (do
        let source ← d.image.source? i
        let target ← d.image.target? i
        return (source, target)) = d.messages[i]? := by
    intro i hi
    obtain ⟨m, hm⟩ := lt_size_iff.1 (List.mem_range.1 hi)
    rw [source?_image hfit, target?_image hfit, getElem?_sources hm, getElem?_targets hm, hm]
    rfl
  show (List.range d.size).filterMap _ = _
  rw [List.filterMap_congr hentry]
  exact filterMap_getElem?_range d.messages

def keys (d : Draft) : List Bytes := d.sources.map Bytes.beforeNul

theorem ascending_keys (d : Draft) : d.keys.Pairwise (· ≤ ·) := by
  unfold keys sources
  rw [List.pairwise_map, List.pairwise_map]
  exact d.ascending.imp Bytes.beforeNul_le

theorem hasKeys_image (hfit : d.write.length < 2 ^ 32) : d.image.HasKeys d.keys where
  length := by rw [keys, List.length_map, length_sources]; rfl
  key? i _ := by rw [Image.key?, source?_image hfit, keys, List.getElem?_map]
  ascending := d.ascending_keys

/-! ## Loading -/

theorem isAscending_image (hfit : d.write.length < 2 ^ 32) : d.image.isAscending = true :=
  (Image.isAscending_iff _).2 ⟨d.keys, hasKeys_image hfit⟩

theorem minSize_le_write (hne : d.messages ≠ []) : minSize ≤ d.write.length := by
  have hlen := d.length_write
  have hat := d.stringsAt_eq_add
  have hsize : 0 < d.size := List.length_pos_iff.2 hne
  show 32 ≤ _
  omega

/-- **The file of a draft is accepted**, and what is loaded is the image of the draft. -/
theorem check_write (hne : d.messages ≠ []) (hfit : d.write.length < 2 ^ 32)
    {options : LoadOptions} (hmax : d.write.length ≤ options.maxSize) :
    Catalog.check d.write options = .ok d.image := by
  have hmin := minSize_le_write hne
  have hempty : d.write.isEmpty = false := by
    rw [List.isEmpty_eq_false_iff]
    intro h
    rw [h] at hmin
    exact absurd hmin (by decide)
  have horder : (options.checkOrder && !d.header.isHashed && !d.image.isAscending) = false := by
    rw [isAscending_image hfit, Bool.not_true, Bool.and_false]
  unfold Catalog.check
  rw [hempty, normalize_write hne hfit]
  simp only [Bool.false_eq_true, if_false, if_neg (Nat.not_lt.2 hmin), if_neg (Nat.not_lt.2 hmax)]
  show (if (options.checkOrder && !d.header.isHashed && !d.image.isAscending) = true
    then _ else _) = _
  rw [horder]
  rfl

theorem ofBytes_write (hne : d.messages ≠ []) (hfit : d.write.length < 2 ^ 32)
    {options : LoadOptions} (hmax : d.write.length ≤ options.maxSize) (name : String) :
    (Catalog.ofBytes d.write name options).value =
      .ok ⟨name, d.image, (Catalog.ruleOf d.image).value⟩ := by
  unfold Catalog.ofBytes
  rw [check_write hne hfit hmax]
  rfl

/-! ## The round trip -/

/-- **Loading undoes writing.** Whatever the byte order and with or without a hash table, the file
of a draft is loaded even if its order is checked, the entries of the catalog are the messages of
the draft in ascending order, each once, its keys count as ascending, and its bytes are those of
the little-endian file. -/
theorem entries_ofBytes_write (d : Draft) (hne : d.messages ≠ [])
    (hfit : d.write.length < 2 ^ 32) {options : LoadOptions}
    (hmax : d.write.length ≤ options.maxSize) (name : String) :
    ∃ c, (Catalog.ofBytes d.write name options).value = .ok c ∧
      c.image.entries = d.messages ∧
      c.image.entries.Pairwise (fun a b => a.1 < b.1) ∧
      c.image.isAscending = true ∧
      c.image.data.toList = (d.withOrder .little).write := by
  refine ⟨_, ofBytes_write hne hfit hmax name, entries_image hfit, ?_, isAscending_image hfit, ?_⟩
  · rw [entries_image hfit]
    exact d.ascending
  · rfl

/-- A message and a plural message with the same key, `a`. -/
def twins : Draft := (empty.add [97] [88]).addPlural [97] [112] [[89]]

/-- Without a hash table the order of the keys is checked. -/
def twinsInOrder : Draft := (twins.withOrder .big).withHashing false

theorem entries_ofBytes_write_twins :
    twinsInOrder.messages ≠ [] ∧ twinsInOrder.write.length < 2 ^ 32 ∧
      twinsInOrder.write.length ≤ (⟨1024, true⟩ : LoadOptions).maxSize ∧
      ∃ c, (Catalog.ofBytes twinsInOrder.write "twins" ⟨1024, true⟩).value = .ok c ∧
        c.image.entries = [([97], [88]), ([97, 0, 112], [89])] ∧
        c.image.data.toList = (twins.withHashing false).write := by
  have hne : twinsInOrder.messages ≠ [] := by decide
  have hfit : twinsInOrder.write.length < 2 ^ 32 := by decide +kernel
  have hmax : twinsInOrder.write.length ≤ (⟨1024, true⟩ : LoadOptions).maxSize := by
    decide +kernel
  obtain ⟨c, hc, hentries, -, -, hdata⟩ := entries_ofBytes_write _ hne hfit hmax "twins"
  exact ⟨hne, hfit, hmax, c, hc, hentries, hdata⟩

end Draft

end MessageCatalog
