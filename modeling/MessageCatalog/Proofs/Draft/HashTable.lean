import MessageCatalog.Draft
import MessageCatalog.Proofs.Mo.TableSize
import MessageCatalog.Proofs.Mo.Walk

set_option autoImplicit false

/-! # The hash table of a draft

The table is filled entry by entry, each into the first empty slot on the walk of its hash. What
this keeps up is `Filled`: the table holds the numbers of its entries once each and zeros
otherwise, and on the walk that leads to an entry there are only entries that came before it. So a
walk that looks for a key meets the first entry with that key before all others, and no empty slot
on the way.
-/

namespace MessageCatalog.Draft

open Mo

/-- The walk of a hash leads to an entry, past nothing but earlier entries. -/
def LeadsTo (slots : List Nat) (h entry : Nat) : Prop :=
  ∃ before slot after, Probe.slots slots.length slots.length (.start h slots.length) =
      before ++ slot :: after ∧
    slots[slot]? = some entry ∧ ∀ s ∈ before, ∃ v, slots[s]? = some v ∧ 0 < v ∧ v < entry

/-- The table after the entries with the given hashes, numbered from one on. -/
structure Filled (hashes slots : List Nat) : Prop where
  perm : slots.Perm
    (List.range' 1 hashes.length ++ List.replicate (slots.length - hashes.length) 0)
  leadsTo : ∀ i h, hashes[i]? = some h → LeadsTo slots h (i + 1)

namespace Filled

variable {hashes slots : List Nat}

theorem le_length (hf : Filled hashes slots) {v : Nat} (hv : v ∈ slots) : v ≤ hashes.length := by
  have := hf.perm.mem_iff.1 hv
  rw [List.mem_append, List.mem_range'_1, List.mem_replicate] at this
  omega

theorem mem_zero (hf : Filled hashes slots) (hlt : hashes.length < slots.length) : 0 ∈ slots := by
  rw [hf.perm.mem_iff, List.mem_append, List.mem_replicate]
  exact Or.inr ⟨by omega, rfl⟩

end Filled

/-! ## One entry -/

theorem emptySlot_spec {slots : List Nat} {rounds : Nat} {p : Probe}
    (h : ∃ s ∈ Probe.slots slots.length rounds p, slots[s]? = some 0) :
    slots[emptySlot slots rounds p]? = some 0 ∧
      ∃ before after, Probe.slots slots.length rounds p =
          before ++ emptySlot slots rounds p :: after ∧
        ∀ s ∈ before, slots[s]? ≠ some 0 := by
  induction rounds generalizing p with
  | zero => simp [Probe.slots] at h
  | succ rounds ih =>
      unfold emptySlot
      by_cases hempty : slots[p.slot]? = some 0
      · rw [if_pos hempty]
        exact ⟨hempty, [], _, rfl, by simp⟩
      · rw [if_neg hempty]
        have hrest : ∃ s ∈ Probe.slots slots.length rounds (p.next slots.length),
            slots[s]? = some 0 := by
          obtain ⟨s, hs, hzero⟩ := h
          rcases List.mem_cons.1 hs with rfl | hs
          · exact absurd hzero hempty
          · exact ⟨s, hs, hzero⟩
        obtain ⟨hzero, before, after, heq, hbefore⟩ := ih hrest
        refine ⟨hzero, p.slot :: before, after, ?_, ?_⟩
        · rw [Probe.slots, heq, List.cons_append]
        · intro s hs
          rcases List.mem_cons.1 hs with rfl | hs
          · exact hempty
          · exact hbefore s hs

theorem perm_set_zero {slots : List Nat} {t count : Nat} (ht : slots[t]? = some 0)
    (hcount : count < slots.length)
    (hperm : slots.Perm (List.range' 1 count ++ List.replicate (slots.length - count) 0)) :
    (slots.set t (count + 1)).Perm
      (List.range' 1 (count + 1) ++ List.replicate (slots.length - (count + 1)) 0) := by
  obtain ⟨hlt, hzero⟩ := List.getElem?_eq_some_iff.1 ht
  have hzeros : List.replicate (slots.length - count) 0 =
      0 :: List.replicate (slots.length - (count + 1)) 0 := by
    rw [← List.replicate_succ]
    congr 1
    omega
  have herase : (slots.eraseIdx t).Perm
      (List.range' 1 count ++ List.replicate (slots.length - (count + 1)) 0) := by
    have hfront : (0 :: slots.eraseIdx t).Perm slots := hzero ▸ List.getElem_cons_eraseIdx_perm hlt
    rw [hzeros] at hperm
    exact ((hfront.trans hperm).trans List.perm_middle).cons_inv
  calc (slots.set t (count + 1)).Perm ((count + 1) :: slots.eraseIdx t) :=
        List.set_perm_cons_eraseIdx hlt _
    List.Perm _ ((count + 1) ::
        (List.range' 1 count ++ List.replicate (slots.length - (count + 1)) 0)) :=
        herase.cons _
    List.Perm _ (List.range' 1 (count + 1) ++
        List.replicate (slots.length - (count + 1)) 0) := by
        rw [List.range'_1_concat, List.append_assoc, Nat.add_comm 1 count]
        exact List.perm_middle.symm

section

variable {hashes slots : List Nat}

/-- An entry that is put into a table leaves the earlier ones where they are found. -/
theorem LeadsTo.set_zero {h entry t value : Nat} (hl : LeadsTo slots h entry)
    (hentry : 0 < entry) (ht : slots[t]? = some 0) : LeadsTo (slots.set t value) h entry := by
  have hkeep : ∀ s v : Nat, slots[s]? = some v → 0 < v → (slots.set t value)[s]? = some v := by
    intro s v hs hv
    have hne : t ≠ s := by
      rintro rfl
      rw [ht] at hs
      simp at hs
      omega
    rw [List.getElem?_set_ne hne, hs]
  obtain ⟨before, slot, after, hwalk, hslot, hbefore⟩ := hl
  refine ⟨before, slot, after, ?_, hkeep slot entry hslot hentry, ?_⟩
  · rw [List.length_set, hwalk]
  · intro s hs
    obtain ⟨v, hv, hpos, hlt⟩ := hbefore s hs
    exact ⟨v, hkeep s v hv hpos, hpos, hlt⟩

/-- **One entry.** A table of prime size with room left keeps its order when an entry is placed. -/
theorem filled_place (hf : Filled hashes slots) (hp : slots.length.Prime)
    (hsize : 2 < slots.length) (hlt : hashes.length < slots.length) (h : Nat) :
    Filled (hashes ++ [h]) (place slots h (hashes.length + 1)) := by
  have hexists : ∃ s ∈ Probe.slots slots.length slots.length (.start h slots.length),
      slots[s]? = some 0 := by
    obtain ⟨s, hs⟩ := List.mem_iff_getElem?.1 (hf.mem_zero hlt)
    exact ⟨s, (Probe.mem_slots hp hsize h).2 (List.getElem?_eq_some_iff.1 hs).1, hs⟩
  obtain ⟨hzero, before, after, hwalk, hbefore⟩ := emptySlot_spec hexists
  refine ⟨?_, fun i g hg => ?_⟩
  · rw [place, List.length_append, List.length_singleton, List.length_set]
    exact perm_set_zero hzero hlt hf.perm
  · by_cases hi : i < hashes.length
    · rw [List.getElem?_append_left hi] at hg
      exact (hf.leadsTo i g hg).set_zero (by omega) hzero
    · -- The new entry itself: on its walk there are only full slots before the first empty one.
      obtain rfl : i = hashes.length := by
        have := (List.getElem?_eq_some_iff.1 hg).1
        rw [List.length_append, List.length_singleton] at this
        omega
      obtain rfl : h = g := by simpa using hg
      have hslot := (List.getElem?_eq_some_iff.1 hzero).1
      refine ⟨before, _, after, ?_, List.getElem?_set_self hslot, fun s hs => ?_⟩
      · rw [place, List.length_set, hwalk]
      · have hslots : s < slots.length := by
          rw [← Probe.mem_slots hp hsize h, hwalk]
          exact List.mem_append_left _ hs
        have hv : slots[s]? = some slots[s] := List.getElem?_eq_getElem hslots
        have hne : slots[s] ≠ 0 := fun e => hbefore s hs (by rw [hv, e])
        have hle := hf.le_length (List.getElem_mem hslots)
        have hst : emptySlot slots slots.length (.start h slots.length) ≠ s := by
          rintro rfl
          exact hbefore _ hs hzero
        refine ⟨slots[s], ?_, by omega, by omega⟩
        rw [place, List.getElem?_set_ne hst, hv]

/-! ## All entries -/

theorem length_place (slots : List Nat) (h entry : Nat) :
    (place slots h entry).length = slots.length := List.length_set

theorem length_fill (slots : List Nat) (entry : Nat) (hashes : List Nat) :
    (fill slots entry hashes).length = slots.length := by
  induction hashes generalizing slots entry with
  | nil => rfl
  | cons h rest ih => rw [fill, ih, length_place]

/-- **All entries.** A table of prime size takes every entry that there is room for. -/
theorem filled_fill (hf : Filled hashes slots) (hp : slots.length.Prime)
    (hsize : 2 < slots.length) {rest : List Nat}
    (hroom : hashes.length + rest.length ≤ slots.length) :
    Filled (hashes ++ rest) (fill slots (hashes.length + 1) rest) := by
  induction rest generalizing hashes slots with
  | nil => rwa [List.append_nil]
  | cons h rest ih =>
      rw [List.length_cons] at hroom
      have hone := filled_place hf hp hsize (by omega) h
      have hlen := length_place slots h (hashes.length + 1)
      have := ih hone (by rwa [hlen])
        (by rwa [hlen]) (by rw [hlen, List.length_append, List.length_singleton]; omega)
      rwa [List.append_assoc, List.length_append, List.length_singleton] at this

end

theorem filled_empty (size : Nat) : Filled [] (List.replicate size 0) :=
  ⟨by simp, by simp⟩

theorem length_slots (sources : List Bytes) :
    (slots sources).length = tableSize sources.length := by
  rw [Draft.slots, length_fill, List.length_replicate]

/-- The hash of a source is that of its key. -/
def hashOf (source : Bytes) : Nat := (Mo.hash (Bytes.beforeNul source)).toNat

theorem filled_slots (sources : List Bytes) :
    Filled (sources.map hashOf) (Draft.slots sources) := by
  have hlen : (List.replicate (tableSize sources.length) 0).length = tableSize sources.length :=
    List.length_replicate
  have hroom := lt_tableSize sources.length
  exact filled_fill (filled_empty (tableSize sources.length))
    (by rw [hlen]; exact prime_tableSize _) (by rw [hlen]; exact two_lt_tableSize _)
    (by rw [hlen, List.length_map, List.length_nil]; omega)

end MessageCatalog.Draft
