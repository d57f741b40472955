import MessageCatalog.Mo.HashTable
import Mathlib.Data.Nat.Prime.Basic
import Mathlib.Data.List.Nodup
import Mathlib.Data.List.Perm.Subperm
import Mathlib.Data.Nat.ModEq

set_option autoImplicit false

/-! # Walks through a hash table

A walk adds its increment to the slot it stands on, modulo the size of the table. In a table of
prime size every increment is prime to the size, so as many rounds as there are slots visit each
slot once (`Probe.perm_slots`): whatever lies in the table lies on every walk.
-/

namespace MessageCatalog.Mo.Probe

theorem step_next (size : Nat) (p : Probe) : (p.next size).step = p.step := by
  unfold next
  split <;> rfl

theorem length_slots (size count : Nat) (p : Probe) : (slots size count p).length = count := by
  induction count generalizing p with
  | zero => rfl
  | succ count ih => rw [slots, List.length_cons, ih]

theorem slots_eq_map {size : Nat} (count : Nat) {p : Probe} (hslot : p.slot < size)
    (hpos : 0 < p.step) (hstep : p.step ≤ size) :
    slots size count p = (List.range count).map fun k => (p.slot + k * p.step) % size := by
  induction count generalizing p with
  | zero => rfl
  | succ count ih =>
      rw [slots, ih (slot_next_lt hslot) (by rwa [step_next]) (by rwa [step_next]),
        List.range_succ_eq_map, List.map_cons, List.map_map]
      congr 1
      · rw [Nat.zero_mul, Nat.add_zero, Nat.mod_eq_of_lt hslot]
      · refine List.map_congr_left fun k _ => ?_
        rw [step_next, slot_next hslot hpos hstep, Nat.mod_add_mod, Function.comp_apply,
          Nat.succ_mul]
        congr 1
        omega

/-- Only the slot of a walk changes. -/
theorem next_eq (size : Nat) (p : Probe) : p.next size = ⟨(p.next size).slot, p.step⟩ := by
  rw [← step_next size p]

/-- Where a walk stands after some rounds. -/
theorem iterate_next {size : Nat} (count : Nat) {p : Probe} (hslot : p.slot < size)
    (hpos : 0 < p.step) (hstep : p.step ≤ size) :
    (next size)^[count] p = ⟨(p.slot + count * p.step) % size, p.step⟩ := by
  induction count with
  | zero => rw [Function.iterate_zero_apply, Nat.zero_mul, Nat.add_zero, Nat.mod_eq_of_lt hslot]
  | succ count ih =>
      have hround : (p.slot + count * p.step) % size < size := Nat.mod_lt _ (by omega)
      have hslot' := slot_next (p := ⟨_, p.step⟩) hround hpos hstep
      rw [Function.iterate_succ_apply', ih, next_eq, hslot', Nat.mod_add_mod, Nat.succ_mul,
        Nat.add_assoc]

/-- After as many rounds as there are slots a walk is where it started. -/
theorem iterate_next_self {size : Nat} {p : Probe} (hslot : p.slot < size) (hpos : 0 < p.step)
    (hstep : p.step ≤ size) : (next size)^[size] p = p := by
  rw [iterate_next size hslot hpos hstep, Nat.add_mul_mod_self_left, Nat.mod_eq_of_lt hslot]

/-! ## Walks in 32-bit words -/

/-- Where a walk stands next, counted in 32-bit words. -/
def nextWord (size step slot : UInt32) : UInt32 :=
  if slot ≥ size - step then slot - (size - step) else slot + step

theorem toNat_nextWord {size step slot : UInt32} (hslot : slot.toNat < size.toNat)
    (hstep : step.toNat ≤ size.toNat) :
    (nextWord size step slot).toNat = (next size.toNat ⟨slot.toNat, step.toNat⟩).slot := by
  have hsize := size.toNat_lt
  have hsub := UInt32.toNat_sub_of_le size step (UInt32.le_iff_toNat_le.2 hstep)
  unfold nextWord next
  by_cases h : size - step ≤ slot
  · have hle := UInt32.le_iff_toNat_le.1 h
    rw [hsub] at hle
    rw [if_pos h, if_pos hle, UInt32.toNat_sub_of_le _ _ h, hsub]
  · have hlt : ¬ size.toNat - step.toNat ≤ slot.toNat := by
      rwa [← hsub, ← UInt32.le_iff_toNat_le]
    rw [if_neg h, if_neg hlt, UInt32.toNat_add, Nat.mod_eq_of_lt (by omega)]

theorem toNat_iterate_nextWord {size step slot : UInt32} (hslot : slot.toNat < size.toNat)
    (hstep : step.toNat ≤ size.toNat) (count : Nat) :
    ((nextWord size step)^[count] slot).toNat =
      ((next size.toNat)^[count] ⟨slot.toNat, step.toNat⟩).slot := by
  induction count generalizing slot with
  | zero => rfl
  | succ count ih =>
      have hnext := toNat_nextWord hslot hstep
      have heq : next size.toNat ⟨slot.toNat, step.toNat⟩ =
          ⟨(nextWord size step slot).toNat, step.toNat⟩ := by
        rw [hnext, ← next_eq]
      rw [Function.iterate_succ_apply, Function.iterate_succ_apply, heq,
        ih (hnext ▸ slot_next_lt hslot)]

/-- The walk of a hash can be counted in words if the size of the table is one: nothing ever
wraps round. -/
theorem toNat_walk {size : Nat} (hsize : 2 < size) (hfits : size < 2 ^ 32) (h : UInt32)
    (count : Nat) :
    ((nextWord (.ofNat size) (1 + h % (.ofNat size - 2)))^[count] (h % .ofNat size)).toNat =
      ((next size)^[count] (start h.toNat size)).slot := by
  have hword : (UInt32.ofNat size).toNat = size := UInt32.toNat_ofNat_of_lt' hfits
  have htwo : (UInt32.ofNat size - 2).toNat = size - 2 := by
    rw [UInt32.toNat_sub_of_le _ _ (UInt32.le_iff_toNat_le.2 (by rw [hword]; exact hsize.le)),
      hword]
    rfl
  have hslot : (h % .ofNat size).toNat = h.toNat % size := by rw [UInt32.toNat_mod, hword]
  have hmod : h.toNat % (size - 2) < size - 2 := Nat.mod_lt _ (by omega)
  have hstep : (1 + h % (.ofNat size - 2)).toNat = 1 + h.toNat % (size - 2) := by
    rw [UInt32.toNat_add, UInt32.toNat_mod, htwo, UInt32.toNat_one, Nat.mod_eq_of_lt (by omega)]
  rw [toNat_iterate_nextWord (by rw [hslot, hword]; exact Nat.mod_lt _ (by omega))
    (by rw [hstep, hword]; omega), hword, hslot, hstep]
  rfl

/-! ## Tables of prime size -/

variable {size : Nat}

/-- In the walk for a hash value the increment is neither zero nor the size of the table. -/
theorem start_bounds (h : Nat) (hsize : 2 < size) :
    (start h size).slot < size ∧ 0 < (start h size).step ∧ (start h size).step < size := by
  have hmod : h % (size - 2) < size - 2 := Nat.mod_lt _ (by omega)
  refine ⟨Nat.mod_lt _ (by omega), ?_, ?_⟩
  · show 0 < 1 + h % (size - 2)
    omega
  · show 1 + h % (size - 2) < size
    omega

/-- Two rounds of a walk are on the same slot only a multiple of the size apart. -/
theorem eq_of_slot_eq (hp : size.Prime) {first step i j : Nat} (hpos : 0 < step)
    (hstep : step < size) (hi : i < size) (hj : j < size)
    (h : (first + i * step) % size = (first + j * step) % size) : i = j := by
  have hcop : Nat.gcd size step = 1 := by
    rw [← Nat.coprime_iff_gcd_eq_one, hp.coprime_iff_not_dvd]
    exact Nat.not_dvd_of_pos_of_lt hpos hstep
  have hmul : i * step ≡ j * step [MOD size] := Nat.ModEq.add_left_cancel' first h
  have hmod : i ≡ j [MOD size] := Nat.ModEq.cancel_right_of_coprime hcop hmul
  exact hmod.eq_of_lt_of_lt hi hj

/-- Every walk through a table of prime size visits every slot once, wherever it starts and
whatever its increment is. -/
theorem perm_slots_of_lt (hp : size.Prime) {p : Probe} (hslot : p.slot < size) (hpos : 0 < p.step)
    (hstep : p.step < size) : (slots size size p).Perm (List.range size) := by
  have heq := slots_eq_map size hslot hpos (Nat.le_of_lt hstep)
  have hnodup : (slots size size p).Nodup := by
    rw [heq]
    refine List.Nodup.map_on (fun i hi j hj hij => ?_) List.nodup_range
    exact eq_of_slot_eq hp hpos hstep (List.mem_range.1 hi) (List.mem_range.1 hj) hij
  have hsubset : slots size size p ⊆ List.range size := by
    rw [heq]
    intro s hs
    obtain ⟨k, -, rfl⟩ := List.mem_map.1 hs
    exact List.mem_range.2 (Nat.mod_lt _ (by omega))
  refine (hnodup.subperm hsubset).perm_of_length_le ?_
  rw [length_slots, List.length_range]

theorem perm_slots (hp : size.Prime) (hsize : 2 < size) (h : Nat) :
    (slots size size (start h size)).Perm (List.range size) := by
  obtain ⟨hslot, hpos, hstep⟩ := start_bounds h hsize
  exact perm_slots_of_lt hp hslot hpos hstep

theorem mem_slots (hp : size.Prime) (hsize : 2 < size) (h : Nat) {s : Nat} :
    s ∈ slots size size (start h size) ↔ s < size := by
  rw [(perm_slots hp hsize h).mem_iff, List.mem_range]

end MessageCatalog.Mo.Probe
