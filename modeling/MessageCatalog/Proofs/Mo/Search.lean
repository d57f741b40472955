import MessageCatalog.Mo.Image
import Mathlib.Data.List.Basic

set_option autoImplicit false

/-! # The two searches

Of a file whose keys are in order, the keys below a given one come first, then those equal to it,
then those above it. Halving the range looks at nothing else: it ends where it first comes upon the
stretch of equal keys, which is a matter of three numbers (`landing`, `findByOrder_eq_landing`). A
probe through the hash table ends at the first entry on its walk that is found under the key
(`probeFor_eq_some`). The two need not meet at the same entry.
-/

namespace MessageCatalog.Mo.Image

/-! ## Keys in order -/

/-- The keys in order, one for each entry, are what `ascendingFrom` checks for. -/
theorem ascendingFrom_iff (m : Image) {previous : Bytes} {count index : Nat} :
    m.ascendingFrom previous count index = true ↔
      ∃ keys : List Bytes, keys.length = count ∧ (∀ j < count, m.key? (index + j) = keys[j]?) ∧
        (previous :: keys).Pairwise (· ≤ ·) := by
  induction count generalizing previous index with
  | zero =>
      simp only [ascendingFrom, true_iff]
      exact ⟨[], rfl, by simp, List.pairwise_singleton _ _⟩
  | succ count ih =>
      unfold ascendingFrom
      cases hkey : m.key? index with
      | none =>
          simp only [Bool.false_eq_true, false_iff]
          rintro ⟨keys, hlen, hkeys, -⟩
          have := hkeys 0 (Nat.succ_pos count)
          rw [Nat.add_zero, hkey, eq_comm, List.getElem?_eq_none_iff] at this
          omega
      | some key =>
          simp only [Bool.and_eq_true, Bool.not_eq_true', decide_eq_false_iff_not, List.not_lt, ih]
          constructor
          · rintro ⟨hle, keys, hlen, hkeys, hall⟩
            refine ⟨key :: keys, by rw [List.length_cons, hlen], ?_, ?_⟩
            · intro j hj
              cases j with
              | zero => exact hkey
              | succ j =>
                  have := hkeys j (by omega)
                  rwa [Nat.add_assoc, Nat.add_comm 1 j] at this
            · refine List.pairwise_cons.2 ⟨fun k hk => ?_, hall⟩
              rcases List.mem_cons.1 hk with rfl | hk
              · exact hle
              · exact List.le_trans hle ((List.pairwise_cons.1 hall).1 k hk)
          · rintro ⟨keys, hlen, hkeys, hall⟩
            cases keys with
            | nil => simp at hlen
            | cons first rest =>
                obtain rfl : key = first := by
                  have := hkeys 0 (Nat.succ_pos count)
                  rw [Nat.add_zero, hkey] at this
                  exact Option.some.inj this
                obtain ⟨hfirst, hrest⟩ := List.pairwise_cons.1 hall
                refine ⟨hfirst key List.mem_cons_self, rest, by simpa using hlen, ?_, hrest⟩
                intro j hj
                have := hkeys (j + 1) (by omega)
                rwa [← Nat.add_assoc, Nat.add_right_comm] at this

/-- A list of keys that is in order and belongs to the entries of a file. -/
structure HasKeys (m : Image) (keys : List Bytes) : Prop where
  length : keys.length = m.header.count
  key? : ∀ i < m.header.count, m.key? i = keys[i]?
  ascending : keys.Pairwise (· ≤ ·)

theorem isAscending_iff (m : Image) : m.isAscending = true ↔ ∃ keys, m.HasKeys keys := by
  unfold isAscending
  rw [ascendingFrom_iff]
  constructor
  · rintro ⟨keys, hlen, hkeys, hall⟩
    exact ⟨keys, hlen, fun i hi => by simpa using hkeys i hi, (List.pairwise_cons.1 hall).2⟩
  · rintro ⟨keys, hlen, hkeys, hall⟩
    refine ⟨keys, hlen, fun i hi => by simpa using hkeys i hi, ?_⟩
    exact List.pairwise_cons.2 ⟨fun k _ => List.nil_le k, hall⟩

/-! ## Halving -/

/-- Where halving the range from `bottom` up to and without `top` first comes upon the stretch
from `low` up to and without `high`. -/
def landing (low high bottom top : Nat) : Option Nat :=
  if bottom < top then
    let middle := bottom + (top - bottom) / 2
    if middle < low then landing low high (middle + 1) top
    else if high ≤ middle then landing low high bottom middle
    else some middle
  else none
termination_by top - bottom

theorem landing_mem {low high bottom top i : Nat} (h : landing low high bottom top = some i) :
    low ≤ i ∧ i < high := by
  fun_induction landing low high bottom top with
  | case1 bottom top hlt middle hlow ih => exact ih h
  | case2 bottom top hlt middle hlow hhigh ih => exact ih h
  | case3 bottom top hlt middle hlow hhigh =>
      obtain rfl : middle = i := Option.some.inj h
      omega
  | case4 => simp at h

/-- It does land if the stretch lies in the range and is not empty. -/
theorem landing_isSome {low high bottom top : Nat} (hlow : bottom ≤ low) (hne : low < high)
    (hhigh : high ≤ top) : (landing low high bottom top).isSome = true := by
  fun_induction landing low high bottom top with
  | case1 bottom top hlt middle hbelow ih => exact ih hbelow hhigh
  | case2 bottom top hlt middle hbelow habove ih => exact ih hlow habove
  | case3 => rfl
  | case4 => omega

theorem findBetween_step {m : Image} {key k : Bytes} {bottom top : Nat} (hlt : bottom < top)
    (hk : m.key? (bottom + (top - bottom) / 2) = some k) :
    m.findBetween key bottom top =
      if key < k then m.findBetween key bottom (bottom + (top - bottom) / 2)
      else if k < key then m.findBetween key (bottom + (top - bottom) / 2 + 1) top
      else some (bottom + (top - bottom) / 2) := by
  rw [findBetween, if_pos hlt]
  dsimp only
  rw [hk]

/-- **Binary search is halving.** It only matters which keys are below the wanted one and which are
above it. -/
theorem findBetween_eq_landing {m : Image} {key : Bytes} {low high bottom top : Nat}
    (h : ∀ i, bottom ≤ i → i < top →
      ∃ k, m.key? i = some k ∧ (k < key ↔ i < low) ∧ (key < k ↔ high ≤ i)) :
    m.findBetween key bottom top = landing low high bottom top := by
  fun_induction landing low high bottom top with
  | case1 bottom top hlt middle hbelow ih =>
      obtain ⟨k, hk, hless, -⟩ := h middle (by omega) (by omega)
      have hkey : k < key := hless.2 hbelow
      have hnot : ¬ key < k := fun hlt' => Std.lt_irrefl (Std.lt_trans hkey hlt')
      rw [findBetween_step hlt hk, if_neg hnot, if_pos hkey]
      exact ih fun i hi hi' => h i (by omega) hi'
  | case2 bottom top hlt middle hbelow habove ih =>
      obtain ⟨k, hk, -, hmore⟩ := h middle (by omega) (by omega)
      rw [findBetween_step hlt hk, if_pos (hmore.2 habove)]
      exact ih fun i hi hi' => h i hi (by omega)
  | case3 bottom top hlt middle hbelow habove =>
      obtain ⟨k, hk, hless, hmore⟩ := h middle (by omega) (by omega)
      rw [findBetween_step hlt hk, if_neg fun hlt' => habove (hmore.1 hlt'),
        if_neg fun hlt' => hbelow (hless.1 hlt')]
  | case4 bottom top hlt => rw [findBetween, if_neg hlt]

/-! ## The stretch of equal keys -/

/-- In a list where `p` holds of the elements before each element that it holds of, it holds of as
many elements as come first. -/
theorem lt_countP_iff {α : Type} {p : α → Bool} {l : List α}
    (hp : l.Pairwise fun a b => p b = true → p a = true) {i : Nat} {a : α} (ha : l[i]? = some a) :
    i < l.countP p ↔ p a = true := by
  induction l generalizing i with
  | nil => simp at ha
  | cons b rest ih =>
      obtain ⟨hb, hrest⟩ := List.pairwise_cons.1 hp
      by_cases hpb : p b = true
      · rw [List.countP_cons_of_pos hpb]
        cases i with
        | zero =>
            obtain rfl : b = a := by simpa using ha
            simp [hpb]
        | succ i => rw [Nat.add_lt_add_iff_right, ih hrest (by simpa using ha)]
      · have hnone : ∀ x ∈ b :: rest, ¬ p x = true := by
          intro x hx hpx
          rcases List.mem_cons.1 hx with rfl | hx
          · exact hpb hpx
          · exact hpb (hb x hx hpx)
        rw [List.countP_eq_zero.2 hnone]
        simp [hnone a (List.mem_of_getElem? ha)]

def below (key : Bytes) (keys : List Bytes) : Nat := keys.countP fun k => decide (k < key)

def notAbove (key : Bytes) (keys : List Bytes) : Nat := keys.countP fun k => decide (k ≤ key)

variable {m : Image} {keys : List Bytes}

theorem lt_below_iff (hkeys : keys.Pairwise (· ≤ ·)) {key k : Bytes} {i : Nat}
    (hk : keys[i]? = some k) : i < below key keys ↔ k < key := by
  unfold below
  rw [lt_countP_iff _ hk, decide_eq_true_iff]
  refine hkeys.imp fun {a b} hab => ?_
  simp only [decide_eq_true_iff]
  exact fun hb => Std.lt_of_le_of_lt hab hb

theorem lt_notAbove_iff (hkeys : keys.Pairwise (· ≤ ·)) {key k : Bytes} {i : Nat}
    (hk : keys[i]? = some k) : i < notAbove key keys ↔ k ≤ key := by
  unfold notAbove
  rw [lt_countP_iff _ hk, decide_eq_true_iff]
  refine hkeys.imp fun {a b} hab => ?_
  simp only [decide_eq_true_iff]
  exact fun hb => List.le_trans hab hb

/-- The keys equal to a key are those of one stretch. -/
theorem mem_stretch_iff (hkeys : keys.Pairwise (· ≤ ·)) {key k : Bytes} {i : Nat}
    (hk : keys[i]? = some k) : below key keys ≤ i ∧ i < notAbove key keys ↔ k = key := by
  rw [← Nat.not_lt, lt_below_iff hkeys hk, lt_notAbove_iff hkeys hk, List.not_lt]
  constructor
  · rintro ⟨hge, hle⟩
    exact Std.le_antisymm hle hge
  · rintro rfl
    exact ⟨List.le_refl _, List.le_refl _⟩

theorem findByOrder_eq_landing (h : m.HasKeys keys) (key : Bytes) :
    m.findByOrder key =
      landing (below key keys) (notAbove key keys) 0 m.header.count := by
  refine findBetween_eq_landing fun i _ hi => ?_
  have hlt : i < keys.length := by rwa [h.length]
  have hk : keys[i]? = some keys[i] := List.getElem?_eq_getElem hlt
  refine ⟨keys[i], by rw [h.key? i hi, hk], (lt_below_iff h.ascending hk).symm, ?_⟩
  rw [← Nat.not_lt, lt_notAbove_iff h.ascending hk, List.not_le]

theorem notAbove_le_length (key : Bytes) (keys : List Bytes) : notAbove key keys ≤ keys.length :=
  List.countP_le_length

/-- Binary search of keys in order finds nothing only if there is nothing to find. -/
theorem HasKeys.findByOrder_eq_none_iff (h : m.HasKeys keys) (key : Bytes) :
    m.findByOrder key = none ↔ ∀ i < m.header.count, m.key? i ≠ some key := by
  have hle : notAbove key keys ≤ m.header.count := h.length ▸ notAbove_le_length key keys
  rw [findByOrder_eq_landing h]
  constructor
  · intro hnone i hi hkey
    rw [h.key? i hi] at hkey
    obtain ⟨hbelow, habove⟩ := (mem_stretch_iff h.ascending hkey).2 rfl
    have hsome := landing_isSome (Nat.zero_le _) (Nat.lt_of_le_of_lt hbelow habove) hle
    rw [hnone] at hsome
    cases hsome
  · intro hother
    by_contra hne
    obtain ⟨i, hi⟩ := Option.ne_none_iff_exists'.1 hne
    have hstretch := landing_mem hi
    have hlt : i < keys.length :=
      Nat.lt_of_lt_of_le hstretch.2 (notAbove_le_length key keys)
    have hkey : keys[i]? = some keys[i] := List.getElem?_eq_getElem hlt
    refine hother i (h.length ▸ hlt) ?_
    rw [h.key? i (h.length ▸ hlt), hkey, (mem_stretch_iff h.ascending hkey).1 hstretch]

/-! ## Probing -/

/-- A source is found under the key that is left of it when it is cut at its first NUL. -/
theorem isFoundUnder_iff {key : Bytes} (hkey : 0 ∉ key) (source : Bytes) :
    isFoundUnder key source = true ↔ Bytes.beforeNul source = key := by
  induction key generalizing source with
  | nil =>
      cases source with
      | nil => simp [isFoundUnder, Bytes.beforeNul]
      | cons b rest =>
          by_cases hb : b = 0 <;> simp [isFoundUnder, Bytes.beforeNul, hb]
  | cons c key ih =>
      have hc : c ≠ 0 := fun e => hkey (e ▸ List.mem_cons_self)
      cases source with
      | nil => simp [isFoundUnder, Bytes.beforeNul]
      | cons b rest =>
          have hrest := ih (fun hm => hkey (List.mem_cons_of_mem c hm)) rest
          simp only [isFoundUnder, Bytes.beforeNul] at hrest ⊢
          by_cases hb : b = 0
          · simp [hb, hc]
          · by_cases hcb : c = b
            · simp [hcb, hb, ← hrest]
            · simp [hcb, hb, Ne.symm hcb]

/-- A probe passes the full slots whose entries have other keys, and ends at the first entry that
is found under the key. -/
theorem probeFor_eq_some {key : Bytes} {rounds index slot : Nat} {p : Probe}
    {before after : List Nat}
    (hwalk : Probe.slots m.header.hashSize rounds p = before ++ slot :: after)
    (hbefore : ∀ s ∈ before, ∃ i, m.slot? s = some (i + 1) ∧
      (m.source? i).any (isFoundUnder key) = false)
    (hslot : m.slot? slot = some (index + 1))
    (hfound : (m.source? index).any (isFoundUnder key) = true) :
    m.probeFor key rounds p = some index := by
  induction rounds generalizing p before with
  | zero => simp [Probe.slots] at hwalk
  | succ rounds ih =>
      rw [Probe.slots] at hwalk
      unfold probeFor
      cases before with
      | nil =>
          obtain ⟨hp, -⟩ := List.cons.inj hwalk
          rw [hp, hslot]
          simp only [hfound, if_true]
      | cons first before =>
          obtain ⟨hp, hrest⟩ := List.cons.inj hwalk
          obtain ⟨i, hi, hother⟩ := hbefore first List.mem_cons_self
          rw [hp, hi]
          simp only [hother, Bool.false_eq_true, if_false]
          exact ih hrest fun s hs => hbefore s (List.mem_cons_of_mem first hs)

theorem probeFor_eq_none {key : Bytes}
    (h : ∀ i, (m.source? i).any (isFoundUnder key) = false) (rounds : Nat) (p : Probe) :
    m.probeFor key rounds p = none := by
  induction rounds generalizing p with
  | zero => rfl
  | succ rounds ih =>
      unfold probeFor
      cases m.slot? p.slot with
      | none => rfl
      | some v =>
          cases v with
          | zero => rfl
          | succ i =>
              simp only [h i, Bool.false_eq_true, if_false]
              exact ih _

end MessageCatalog.Mo.Image
