import MessageCatalog.Proofs.Draft.HashTable
import MessageCatalog.Proofs.Mo.Layout
import MessageCatalog.Proofs.Mo.WrittenWords

set_option autoImplicit false

/-! # The file of a draft

`Draft.write` lays a draft out as a file, and `Mo.normalize` takes the file apart again. This file
shows that they meet: the header that is read is `Draft.header`, the file in little-endian order is
the one that the draft gives in little-endian order (`normalize_write`). This holds as long as the
offsets fit into words, which is to say for files shorter than `2 ^ 32` bytes.
-/

namespace MessageCatalog.Draft

open Mo

variable (d : Draft)

/-! ## The parts of the file -/

def sources : List Bytes := d.messages.map Prod.fst

def targets : List Bytes := d.messages.map Prod.snd

/-- The hash table, without a slot if the draft has none. -/
def table : List Nat := if d.hashed then slots d.sources else []

/-- The header that the file starts with. -/
def header : Header where
  order := d.order
  revision := 0
  count := d.size
  sources := headerSize
  targets := headerSize + d.size * descriptorSize
  hashSize := d.table.length
  hashOffset := headerSize + d.size * descriptorSize + d.size * descriptorSize

def stringsAt : Nat := d.header.hashOffset + d.table.length * slotSize

def fields : List Nat :=
  [signature, 0, d.size, headerSize, d.header.targets, d.table.length, d.header.hashOffset]

def sourceDescriptors : List Nat := descriptors d.stringsAt d.sources

def targetDescriptors : List Nat :=
  descriptors (d.stringsAt + (stringArea d.sources).length) d.targets

/-- The words of the file by the region that they stand in. -/
def groups : List (List Nat) :=
  [d.fields, d.sourceDescriptors, d.targetDescriptors] ++ if d.hashed then [d.table] else []

def strings : Bytes := stringArea d.sources ++ stringArea d.targets

theorem words_eq :
    d.words = d.fields ++ d.sourceDescriptors ++ d.targetDescriptors ++ d.table := rfl

theorem write_eq : d.write = d.words.flatMap d.order.word ++ d.strings := by
  rw [strings, ← List.append_assoc]
  rfl

theorem write_little :
    (d.withOrder .little).write = d.words.flatMap ByteOrder.little.word ++ d.strings :=
  write_eq (d.withOrder .little)

theorem flatten_groups : d.groups.flatten = d.words := by
  rw [words_eq, groups]
  by_cases h : d.hashed <;> simp [table, h]

/-! ## Lengths -/

theorem length_descriptors (offset : Nat) (parts : List Bytes) :
    (descriptors offset parts).length = 2 * parts.length := by
  induction parts generalizing offset with
  | nil => rfl
  | cons s rest ih =>
      rw [descriptors, List.length_cons, List.length_cons, ih, List.length_cons]
      omega

theorem length_sources : d.sources.length = d.size := List.length_map Prod.fst

theorem length_targets : d.targets.length = d.size := List.length_map Prod.snd

theorem length_sourceDescriptors : d.sourceDescriptors.length = 2 * d.size := by
  rw [sourceDescriptors, length_descriptors, length_sources]

theorem length_targetDescriptors : d.targetDescriptors.length = 2 * d.size := by
  rw [targetDescriptors, length_descriptors, length_targets]

theorem length_words : d.words.length = 7 + 4 * d.size + d.table.length := by
  rw [words_eq]
  simp only [List.length_append, length_sourceDescriptors, length_targetDescriptors]
  show 7 + _ + _ + _ = _
  omega

theorem stringsAt_eq_add :
    d.stringsAt = 28 + d.size * 8 + d.size * 8 + d.table.length * 4 := rfl

/-- The strings start where the words end. -/
theorem stringsAt_eq : d.stringsAt = 4 * d.words.length := by
  rw [length_words, stringsAt_eq_add]
  omega

theorem length_write : d.write.length = d.stringsAt + d.strings.length := by
  rw [write_eq, List.length_append, length_flatMap_word, stringsAt_eq]

/-! ## Numbers that fit into words -/

theorem le_of_mem_descriptors {offset v : Nat} {parts : List Bytes}
    (h : v ∈ descriptors offset parts) : v ≤ offset + (stringArea parts).length := by
  induction parts generalizing offset with
  | nil => simp [descriptors] at h
  | cons s rest ih =>
      have hlen : (stringArea (s :: rest)).length = s.length + 1 + (stringArea rest).length := by
        simp [stringArea, List.flatMap_cons]
        omega
      rcases List.mem_cons.1 h with rfl | h
      · omega
      · rcases List.mem_cons.1 h with rfl | h
        · omega
        · have := ih h
          omega

theorem size_le_write : d.size ≤ d.write.length := by
  rw [length_write, stringsAt_eq, length_words]
  omega

theorem le_size_of_mem_table {v : Nat} (h : v ∈ d.table) : v ≤ d.size := by
  by_cases hh : d.hashed
  · rw [table, if_pos hh] at h
    have := (filled_slots d.sources).le_length h
    rwa [List.length_map, length_sources] at this
  · rw [table, if_neg hh] at h
    simp at h

variable {d}

theorem lt_of_mem_words (hfit : d.write.length < 2 ^ 32) {v : Nat} (h : v ∈ d.words) :
    v < 2 ^ 32 := by
  have hlen := d.length_write
  have hstrings : d.strings.length = (stringArea d.sources).length +
      (stringArea d.targets).length := List.length_append
  have hsize := d.size_le_write
  have hat := d.stringsAt_eq_add
  rw [words_eq] at h
  rcases List.mem_append.1 h with h | h
  · rcases List.mem_append.1 h with h | h
    · rcases List.mem_append.1 h with h | h
      · have hfields : d.fields = [signature, 0, d.size, 28, 28 + d.size * 8, d.table.length,
            28 + d.size * 8 + d.size * 8] := rfl
        have hsig : signature < 2 ^ 32 := by decide
        rw [hfields] at h
        simp only [List.mem_cons, List.not_mem_nil, or_false] at h
        omega
      · have := le_of_mem_descriptors h
        omega
    · have := le_of_mem_descriptors h
      omega
  · have := d.le_size_of_mem_table h
    omega

theorem wordAt?_write (hfit : d.write.length < 2 ^ 32) {i v : Nat} (h : d.words[i]? = some v) :
    wordAt? (d.withOrder .little).write (4 * i) = some v := by
  rw [write_little]
  exact wordAt?_flatMap_word _ h (lt_of_mem_words hfit (List.mem_of_getElem? h))

/-! ## Into little-endian order -/

theorem orderOf?_write : orderOf? d.write = some d.order := by
  have h : d.write =
      d.order.word signature ++ (d.words.tail.flatMap d.order.word ++ d.strings) := by
    rw [write_eq, ← List.append_assoc]
    rfl
  rw [h]
  cases d.order with
  | little => rfl
  | big => rfl

/-- The header is read from its words, whatever follows them. -/
theorem read?_fields (hfit : d.write.length < 2 ^ 32) (back : Bytes) :
    Header.read? d.order (d.fields.flatMap ByteOrder.little.word ++ back) = some d.header := by
  have hword : ∀ i v, d.fields[i]? = some v →
      wordAt? (d.fields.flatMap ByteOrder.little.word ++ back) (4 * i) = some v := by
    intro i v h
    refine wordAt?_flatMap_word back h (lt_of_mem_words hfit ?_)
    rw [words_eq]
    simp only [List.mem_append, List.mem_of_getElem? h, true_or]
  unfold Header.read?
  rw [hword 1 0 rfl, hword 2 d.size rfl, hword 3 headerSize rfl, hword 4 d.header.targets rfl,
    hword 5 d.table.length rfl, hword 6 d.header.hashOffset rfl]
  rfl

theorem read?_write (hfit : d.write.length < 2 ^ 32) :
    Header.read? d.order (readable d.order d.write) = some d.header := by
  have hwords : d.words = d.fields ++ (d.sourceDescriptors ++ d.targetDescriptors ++ d.table) := by
    rw [words_eq, List.append_assoc, List.append_assoc, List.append_assoc]
  have hback := read?_fields hfit
  rw [write_eq, hwords, List.flatMap_append, List.append_assoc]
  cases horder : d.order with
  | little =>
      rw [horder] at hback
      exact hback _
  | big =>
      rw [horder] at hback
      have hswap := swap_flatMap_word [] d.fields
        ((d.sourceDescriptors ++ d.targetDescriptors ++ d.table).flatMap ByteOrder.big.word ++
          d.strings)
      rw [List.flatMap_nil, List.nil_append, List.nil_append] at hswap
      show Header.read? .big (Region.swap _ ⟨0, 28⟩) = _
      exact hswap ▸ hback _

/-- The table of a draft is large enough to be probed, if it has one. -/
theorem isHashed_header : d.header.isHashed = d.hashed := by
  show decide (2 < d.table.length) = d.hashed
  by_cases h : d.hashed
  · rw [table, if_pos h, length_slots, h, decide_eq_true (two_lt_tableSize _)]
  · simp [table, h]

theorem regions?_header :
    d.header.regions? d.write.length = .ok (regionsFrom 0 d.groups) := by
  have hlen := d.length_write
  have hat := d.stringsAt_eq_add
  rw [Header.regions?_eq_ok_iff]
  refine ⟨?_, ?_, ?_, ?_⟩
  · show 28 + d.size * 8 ≤ _
    omega
  · show 28 + d.size * 8 + d.size * 8 ≤ _
    omega
  · show 28 + d.size * 8 + d.size * 8 + d.table.length * 4 ≤ _
    omega
  · have hfields : d.fields.length = 7 := rfl
    have hdescriptors : 4 * (2 * d.size) = d.size * 8 := by omega
    have hslots : 4 * d.table.length = d.table.length * 4 := Nat.mul_comm _ _
    rw [isHashed_header, groups]
    by_cases h : d.hashed
    · simp only [if_pos h, List.cons_append, List.nil_append, regionsFrom, hfields,
        length_sourceDescriptors, length_targetDescriptors, hdescriptors, hslots]
      rfl
    · simp only [if_neg h, List.append_nil, regionsFrom, hfields, length_sourceDescriptors,
        length_targetDescriptors, hdescriptors]
      rfl

theorem layout_write (hne : d.messages ≠ []) (hfit : d.write.length < 2 ^ 32) :
    layout d.write = .ok ⟨d.header, regionsFrom 0 d.groups⟩ := by
  rw [layout_eq_ok_iff]
  have hlen := d.length_write
  have hat := d.stringsAt_eq_add
  refine ⟨?_, d.order, orderOf?_write, read?_write hfit, ?_, regions?_header,
    disjoint_regionsFrom 0 d.groups⟩
  · show 28 ≤ _
    omega
  · show d.messages.length ≠ 0
    exact fun h => hne (List.length_eq_zero_iff.1 h)

/-- **Either byte order is brought back to the little-endian file.** -/
theorem normalize_write (hne : d.messages ≠ []) (hfit : d.write.length < 2 ^ 32) :
    Mo.normalize d.write = (.ok d.header, (d.withOrder .little).write) := by
  unfold Mo.normalize
  rw [layout_write hne hfit]
  dsimp only
  rw [show d.header.order = d.order from rfl]
  cases horder : d.order with
  | little =>
      have hself : d.withOrder .little = d := by rw [← horder]; rfl
      rw [hself]
  | big =>
      have h := foldl_swap_regionsFrom [] d.groups d.strings
      rw [List.nil_append, flatten_groups, List.flatMap_nil, List.nil_append, ← horder,
        ← write_eq, ← write_little] at h
      exact congrArg (Prod.mk _) h

end MessageCatalog.Draft
