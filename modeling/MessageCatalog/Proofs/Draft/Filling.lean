import MessageCatalog.Proofs.Draft.Image

set_option autoImplicit false

/-! # Filling the hash table

A draft fills its hash table by a loop that goes on while the slot it stands on is taken. `Finds` is
that loop as a relation, without a bound on its rounds. It ends for every entry that is inserted
(`finds_place`), since there are more slots than entries and a walk through a table of prime size
leaves out no slot. `IsFilledUp` says what becomes of the table in the end, and
`isFilledUp_table` that it does so in every draft whose numbers fit into words.
-/

namespace MessageCatalog.Draft

open Mo

variable {hashes slots : List Nat}

/-! ## The loop -/

/-- The search for an empty slot, with the number of steps that it takes: while the slot is taken
the walk goes on. -/
inductive Finds (slots : List Nat) : Probe → Nat → Nat → Prop
  | empty {p : Probe} (h : slots[p.slot]? = some 0) : Finds slots p 0 p.slot
  | taken {p : Probe} {entry steps slot : Nat} (h : slots[p.slot]? = some entry)
      (hentry : entry ≠ 0) (hrest : Finds slots (p.next slots.length) steps slot) :
      Finds slots p (steps + 1) slot

/-- The search ends if there is an empty slot on the first rounds of the walk. -/
theorem finds_emptySlot {rounds : Nat} {p : Probe} (hslot : p.slot < slots.length)
    (h : ∃ s ∈ Probe.slots slots.length rounds p, slots[s]? = some 0) :
    ∃ steps < rounds, Finds slots p steps (emptySlot slots rounds p) := by
  induction rounds generalizing p with
  | zero => simp [Probe.slots] at h
  | succ rounds ih =>
      unfold emptySlot
      by_cases hempty : slots[p.slot]? = some 0
      · rw [if_pos hempty]
        exact ⟨0, Nat.zero_lt_succ rounds, .empty hempty⟩
      · rw [if_neg hempty]
        have hrest : ∃ s ∈ Probe.slots slots.length rounds (p.next slots.length),
            slots[s]? = some 0 := by
          obtain ⟨s, hs, hzero⟩ := h
          rcases List.mem_cons.1 hs with rfl | hs
          · exact absurd hzero hempty
          · exact ⟨s, hs, hzero⟩
        obtain ⟨steps, hsteps, hfinds⟩ := ih (Probe.slot_next_lt hslot) hrest
        have htaken : slots[p.slot]? = some slots[p.slot] := List.getElem?_eq_getElem hslot
        have hentry : slots[p.slot] ≠ 0 := fun e => hempty (htaken.trans (congrArg some e))
        exact ⟨steps + 1, Nat.succ_lt_succ hsteps, .taken htaken hentry hfinds⟩

/-- **One insertion.** In a table of prime size with room left the search from every hash ends after
fewer steps than there are slots. -/
theorem finds_place (hf : Filled hashes slots) (hp : slots.length.Prime) (hsize : 2 < slots.length)
    (hlt : hashes.length < slots.length) (h : Nat) :
    ∃ steps < slots.length, Finds slots (.start h slots.length) steps
      (emptySlot slots slots.length (.start h slots.length)) := by
  refine finds_emptySlot (Probe.start_bounds h hsize).1 ?_
  obtain ⟨s, hs⟩ := List.mem_iff_getElem?.1 (hf.mem_zero hlt)
  exact ⟨s, (Probe.mem_slots hp hsize h).2 (List.getElem?_eq_some_iff.1 hs).1, hs⟩

/-! ## All insertions -/

/-- The table with some slots after the first entries. -/
def tableAfter (hashes : List Nat) (size entries : Nat) : List Nat :=
  fill (List.replicate size 0) 1 (hashes.take entries)

theorem fill_append (slots : List Nat) (entry : Nat) (first rest : List Nat) :
    fill slots entry (first ++ rest) =
      fill (fill slots entry first) (entry + first.length) rest := by
  induction first generalizing slots entry with
  | nil => rfl
  | cons h first ih =>
      rw [List.cons_append, fill, fill, ih, List.length_cons]
      congr 1
      omega

theorem length_tableAfter (hashes : List Nat) (size entries : Nat) :
    (tableAfter hashes size entries).length = size := by
  rw [tableAfter, length_fill, List.length_replicate]

theorem filled_tableAfter {size : Nat} (hp : size.Prime) (hsize : 2 < size)
    (hroom : hashes.length ≤ size) (entries : Nat) :
    Filled (hashes.take entries) (tableAfter hashes size entries) := by
  have hlen : (List.replicate size 0).length = size := List.length_replicate
  have hle := List.length_take_le' entries hashes
  exact filled_fill (filled_empty size) (by rwa [hlen]) (by rwa [hlen])
    (by rw [hlen, List.length_nil]; omega)

theorem tableAfter_succ {size i h : Nat} (hi : hashes[i]? = some h) :
    tableAfter hashes size (i + 1) = place (tableAfter hashes size i) h (i + 1) := by
  have hlen : (hashes.take i).length = i :=
    List.length_take_of_le (List.getElem?_eq_some_iff.1 hi).1.le
  rw [tableAfter, List.take_add_one, hi, fill_append, hlen, Nat.add_comm 1 i]
  rfl

/-- What there is to say about a table that was filled with the entries of some hashes. -/
structure IsFilledUp (hashes table : List Nat) : Prop where
  prime : table.length.Prime
  room : hashes.length < table.length
  /-- From any start and with any increment a walk is on every slot once, and then starts again. -/
  visits : ∀ p : Probe, p.slot < table.length → 0 < p.step → p.step < table.length →
    (Probe.slots table.length table.length p).Perm (List.range table.length) ∧
      (Probe.next table.length)^[table.length] p = p
  /-- The walk of a hash can be counted in 32-bit words. -/
  fits : table.length < 2 ^ 32 ∧ ∀ (h : UInt32) (count : Nat),
    ((Probe.nextWord (.ofNat table.length) (1 + h % (.ofNat table.length - 2)))^[count]
        (h % .ofNat table.length)).toNat =
      ((Probe.next table.length)^[count] (.start h.toNat table.length)).slot
  /-- The search for the slot of each entry ends within as many probes as there are slots. -/
  insertions : ∀ i h, hashes[i]? = some h → ∃ steps < table.length, ∃ slot,
    Finds (tableAfter hashes table.length i) (.start h table.length) steps slot ∧
      tableAfter hashes table.length (i + 1) =
        (tableAfter hashes table.length i).set slot (i + 1)
  finished : tableAfter hashes table.length hashes.length = table
  once : ∀ entry, 1 ≤ entry → entry ≤ hashes.length → table.count entry = 1
  empty : 0 ∈ table
  /-- On the walk to an entry there are only entries that came before it. -/
  path : ∀ i h, hashes[i]? = some h → LeadsTo table h (i + 1)

/-- The numbers of the entries stand in the table once each. -/
theorem Filled.count_eq_one (hf : Filled hashes slots) {entry : Nat} (hpos : 1 ≤ entry)
    (hle : entry ≤ hashes.length) : slots.count entry = 1 := by
  have hzeros : (List.replicate (slots.length - hashes.length) 0).count entry = 0 :=
    List.count_eq_zero.2 fun h => by have := List.eq_of_mem_replicate h; omega
  have hnumber : (List.range' 1 hashes.length).count entry = 1 :=
    List.count_eq_one_of_mem List.nodup_range' (List.mem_range'_1.2 ⟨hpos, by omega⟩)
  rw [hf.perm.count_eq, List.count_append, hzeros, hnumber]

/-- **All insertions.** A table of prime size with room for the entries of any hashes is filled up
with them. -/
theorem isFilledUp_tableAfter {size : Nat} (hp : size.Prime) (hsize : 2 < size)
    (hfits : size < 2 ^ 32) (hroom : hashes.length < size) :
    IsFilledUp hashes (tableAfter hashes size hashes.length) := by
  have hlen := length_tableAfter hashes size
  have hf := filled_tableAfter hp hsize hroom.le hashes.length
  rw [List.take_length] at hf
  constructor
  case prime => rwa [hlen]
  case room => rwa [hlen]
  case visits =>
    rw [hlen]
    intro p hslot hpos hstep
    exact ⟨Probe.perm_slots_of_lt hp hslot hpos hstep,
      Probe.iterate_next_self hslot hpos hstep.le⟩
  case fits =>
    rw [hlen]
    exact ⟨hfits, Probe.toNat_walk hsize hfits⟩
  case insertions =>
    rw [hlen]
    intro i h hi
    have hone := filled_tableAfter hp hsize hroom.le i
    have hlt : (hashes.take i).length < size := (List.length_take_le' i hashes).trans_lt hroom
    obtain ⟨steps, hsteps, hfinds⟩ := finds_place hone (by rwa [hlen]) (by rwa [hlen])
      (by rwa [hlen]) h
    rw [hlen] at hsteps hfinds
    refine ⟨steps, hsteps, _, hfinds, ?_⟩
    rw [tableAfter_succ hi, place, hlen]
  case finished => rw [hlen]
  case once => exact fun entry hpos hle => hf.count_eq_one hpos hle
  case empty => exact hf.mem_zero (by rwa [hlen])
  case path => exact hf.leadsTo

/-! ## The table of a draft -/

theorem table_eq_tableAfter {d : Draft} (hhashed : d.hashed = true) :
    d.table =
      tableAfter (d.sources.map hashOf) (tableSize d.size) (d.sources.map hashOf).length := by
  rw [table, if_pos hhashed, tableAfter, List.take_length, slots, length_sources]
  rfl

/-- **Filling ends and loses nothing.** Whatever the hashes of its sources are, the hash table of a
draft with fewer than `2 ^ 31` messages is filled up with them, and this is the table that is
written behind header and descriptors. -/
theorem isFilledUp_table (d : Draft) (hhashed : d.hashed = true) (hsize : d.size < 2 ^ 31) :
    IsFilledUp (d.sources.map hashOf) d.table ∧ d.words.drop (7 + 4 * d.size) = d.table := by
  constructor
  · rw [table_eq_tableAfter hhashed]
    exact isFilledUp_tableAfter (prime_tableSize _) (two_lt_tableSize _) (tableSize_lt hsize)
      (by rw [List.length_map, length_sources]; exact lt_tableSize _)
  · have hlen : (d.fields ++ d.sourceDescriptors ++ d.targetDescriptors).length =
        7 + 4 * d.size := by
      simp only [List.length_append, length_sourceDescriptors, length_targetDescriptors]
      show 7 + _ + _ = _
      omega
    rw [words_eq, List.drop_left' hlen]

/-- Two sources with the same hash: the second entry stands behind the first one. -/
theorem isFilledUp_table_twins :
    twins.hashed = true ∧ twins.size < 2 ^ 31 ∧ twins.sources.map hashOf = [97, 97] ∧
      IsFilledUp (twins.sources.map hashOf) twins.table ∧
      twins.words.drop (7 + 4 * twins.size) = [0, 1, 2] := by
  have hhashed : twins.hashed = true := rfl
  have hsize : twins.size < 2 ^ 31 := by decide
  obtain ⟨hfilled, hwords⟩ := isFilledUp_table twins hhashed hsize
  have htable : twins.table = [0, 1, 2] := by decide
  exact ⟨hhashed, hsize, by decide, hfilled, hwords.trans htable⟩

end MessageCatalog.Draft
