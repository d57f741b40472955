import MessageCatalog.Proofs.Mo.Search
import MessageCatalog.Proofs.Mo.Walk

set_option autoImplicit false

/-! # Searching files that are not to be trusted

The tables of a file may say anything. A search still finds nothing but entries with the key that
it looks for (`key?_of_find`), and it reads no word outside of the tables.

To speak of the words that are read, the searches are written once more with a record of them:
`Traced α` is a result with the places that were read on the way to it. All words come from `fetch`,
which writes down where it reads. Erasing the record gives back the searches of the library
(`value_traceFind`, `value_traceByOrder`), so what the record says is said about these.
-/

namespace MessageCatalog.Mo

/-! ## Places in the tables -/

/-- A word that a search may read: a slot of the hash table, or one of the two words of the
descriptor of a source. -/
inductive Place
  | slot (number : Nat)
  | length (index : Nat)
  | offset (index : Nat)
  deriving Repr, DecidableEq

namespace Place

/-- Where the word stands in a file with the given header. -/
def position (h : Header) : Place → Nat
  | slot number => h.hashOffset + number * slotSize
  | length index => h.sources + index * descriptorSize
  | offset index => h.sources + index * descriptorSize + 4

/-- The table of the header has a slot with that number, or a descriptor with that index. -/
def InTable (h : Header) : Place → Prop
  | slot number => number < h.hashSize
  | length index => index < h.count
  | offset index => index < h.count

end Place

/-- The tables that the header of an image speaks of lie in the image. -/
structure Image.HasTables (m : Image) : Prop where
  sources : m.header.sources + 8 * m.header.count ≤ m.data.size
  targets : m.header.targets + 8 * m.header.count ≤ m.data.size
  slots : m.header.hashOffset + 4 * m.header.hashSize ≤ m.data.size

/-- A word of a table lies in the image if the table does. -/
theorem Image.HasTables.position_le {m : Image} (h : m.HasTables) {place : Place}
    (hplace : place.InTable m.header) : place.position m.header + 4 ≤ m.data.size := by
  have hsources := h.sources
  have hslots := h.slots
  cases place with
  | slot number =>
      have hnumber : number < m.header.hashSize := hplace
      show m.header.hashOffset + number * 4 + 4 ≤ m.data.size
      omega
  | length index =>
      have hindex : index < m.header.count := hplace
      show m.header.sources + index * 8 + 4 ≤ m.data.size
      omega
  | offset index =>
      have hindex : index < m.header.count := hplace
      show m.header.sources + index * 8 + 4 + 4 ≤ m.data.size
      omega

/-! ## Results with a record of what was read -/

/-- The outcome of a search, with `none` if it ended without a result, and the words that were read
on the way to it, the first one first. -/
structure Traced (α : Type) where
  value : Option α
  reads : List Place := []

namespace Traced

variable {α β : Type}

/-- A search that goes on with the result of another one, and ends where that one ends without a
result. -/
instance : Monad Traced where
  pure a := { value := some a }
  bind x f := ⟨x.value.bind fun a => (f a).value,
    x.reads ++ x.value.elim [] fun a => (f a).reads⟩

/-- Ends without a result. -/
def fail : Traced α := { value := none }

/-- The outcome of a search as a result, so that what follows goes on either way. -/
def attempt (x : Traced α) : Traced (Option α) := ⟨some x.value, x.reads⟩

/-- All words that were read are in the tables of a header. -/
def InTables (h : Header) (x : Traced α) : Prop := ∀ place ∈ x.reads, place.InTable h

@[simp] theorem value_pure (a : α) : (pure a : Traced α).value = some a := rfl

@[simp] theorem value_fail : (fail : Traced α).value = none := rfl

@[simp] theorem value_bind (x : Traced α) (f : α → Traced β) :
    (x >>= f).value = x.value.bind fun a => (f a).value := rfl

@[simp] theorem value_attempt (x : Traced α) : x.attempt.value = some x.value := rfl

variable {h : Header}

theorem inTables_pure (a : α) : (pure a : Traced α).InTables h := nofun

theorem inTables_fail : (fail : Traced α).InTables h := nofun

theorem InTables.attempt {x : Traced α} (hx : x.InTables h) : x.attempt.InTables h := hx

theorem InTables.bind {x : Traced α} {f : α → Traced β} (hx : x.InTables h)
    (hf : ∀ a, x.value = some a → (f a).InTables h) : (x >>= f).InTables h := by
  intro place hplace
  rcases List.mem_append.1 hplace with hplace | hplace
  · exact hx place hplace
  · cases hvalue : x.value with
    | none => rw [hvalue] at hplace; exact absurd hplace List.not_mem_nil
    | some a => rw [hvalue] at hplace; exact hf a hvalue place hplace

end Traced

namespace Image

variable {m : Image} {key : Bytes}

/-! ## The searches with their record -/

/-- The word at a place. -/
def fetch (m : Image) (place : Place) : Traced Nat :=
  ⟨m.wordAt? (place.position m.header), [place]⟩

/-- The source of an entry, by way of its descriptor. -/
def fetchSource (m : Image) (index : Nat) : Traced Bytes :=
  if index < m.header.count then do
    let length ← m.fetch (.length index)
    let offset ← m.fetch (.offset index)
    { value := m.slice? offset length }
  else .fail

/-- Follows a probe through the hash table. -/
def traceProbe (m : Image) (key : Bytes) : Nat → Probe → Traced Nat
  | 0, _ => .fail
  | rounds + 1, probe => do
      match ← m.fetch (.slot probe.slot) with
      | 0 => .fail
      | index + 1 =>
          -- A source that cannot be read is passed like one with another key.
          let source ← (m.fetchSource index).attempt
          if source.any (isFoundUnder key) then pure index
          else m.traceProbe key rounds (probe.next m.header.hashSize)

/-- The search through the hash table. -/
def traceByHash (m : Image) (key : Bytes) : Traced Nat :=
  m.traceProbe key m.header.hashSize (.start (hash key).toNat m.header.hashSize)

/-- Halves the range from `bottom` up to and without `top`. -/
def traceBetween (m : Image) (key : Bytes) (bottom top : Nat) : Traced Nat :=
  if bottom < top then do
    let middle := bottom + (top - bottom) / 2
    -- A source that cannot be read ends the search.
    let found := Bytes.beforeNul (← m.fetchSource middle)
    if key < found then m.traceBetween key bottom middle
    else if found < key then m.traceBetween key (middle + 1) top
    else pure middle
  else .fail
termination_by top - bottom

/-- The binary search. -/
def traceByOrder (m : Image) (key : Bytes) : Traced Nat := m.traceBetween key 0 m.header.count

/-- The search that the file provides for. -/
def traceFind (m : Image) (key : Bytes) : Traced Nat :=
  if m.header.isHashed then m.traceByHash key else m.traceByOrder key

/-! ## Erasing the record -/

theorem value_fetchSource (m : Image) (index : Nat) :
    (m.fetchSource index).value = m.source? index := by
  unfold fetchSource source? stored?
  split <;> rfl

theorem value_traceProbe (m : Image) (key : Bytes) (rounds : Nat) (probe : Probe) :
    (m.traceProbe key rounds probe).value = m.probeFor key rounds probe := by
  induction rounds generalizing probe with
  | zero => rfl
  | succ rounds ih =>
      unfold traceProbe probeFor
      show (m.slot? probe.slot).bind _ = _
      cases m.slot? probe.slot with
      | none => rfl
      | some v =>
          cases v with
          | zero => rfl
          | succ index =>
              simp only [Option.bind_some, Traced.value_bind, Traced.value_attempt,
                value_fetchSource]
              split
              · rfl
              · exact ih _

theorem value_traceByHash (m : Image) (key : Bytes) :
    (m.traceByHash key).value = m.findByHash key := m.value_traceProbe key _ _

theorem value_traceBetween_step {found : Bytes} {bottom top : Nat} (hlt : bottom < top)
    (hkey : m.key? (bottom + (top - bottom) / 2) = some found) :
    (m.traceBetween key bottom top).value =
      (if key < found then m.traceBetween key bottom (bottom + (top - bottom) / 2)
      else if found < key then m.traceBetween key (bottom + (top - bottom) / 2 + 1) top
      else pure (bottom + (top - bottom) / 2) : Traced Nat).value := by
  obtain ⟨source, hsource, rfl⟩ := Option.map_eq_some_iff.1 hkey
  rw [traceBetween, if_pos hlt, Traced.value_bind, value_fetchSource, hsource]
  rfl

theorem value_traceBetween (m : Image) (key : Bytes) (bottom top : Nat) :
    (m.traceBetween key bottom top).value = m.findBetween key bottom top := by
  fun_induction findBetween m key bottom top with
  | case1 bottom top hlt middle hkey =>
      have hsource : m.source? middle = none := Option.map_eq_none_iff.1 hkey
      rw [traceBetween, if_pos hlt, Traced.value_bind, value_fetchSource, hsource, Option.bind_none]
  | case2 bottom top hlt middle found hkey hless ih =>
      rw [value_traceBetween_step hlt hkey, if_pos hless]
      exact ih
  | case3 bottom top hlt middle found hkey hless hmore ih =>
      rw [value_traceBetween_step hlt hkey, if_neg hless, if_pos hmore]
      exact ih
  | case4 bottom top hlt middle found hkey hless hmore =>
      rw [value_traceBetween_step hlt hkey, if_neg hless, if_neg hmore]
      rfl
  | case5 bottom top hlt =>
      rw [traceBetween, if_neg hlt]
      rfl

theorem value_traceByOrder (m : Image) (key : Bytes) :
    (m.traceByOrder key).value = m.findByOrder key := m.value_traceBetween key 0 _

theorem value_traceFind (m : Image) (key : Bytes) : (m.traceFind key).value = m.find key := by
  unfold traceFind find
  split
  · exact m.value_traceByHash key
  · exact m.value_traceByOrder key

/-! ## Only tables are read -/

theorem inTables_fetch {place : Place} (hplace : place.InTable m.header) :
    (m.fetch place).InTables m.header := by
  intro other hother
  obtain rfl := List.mem_singleton.1 hother
  exact hplace

theorem inTables_fetchSource (m : Image) (index : Nat) :
    (m.fetchSource index).InTables m.header := by
  unfold fetchSource
  split
  · rename_i hindex
    have hlength : (m.fetch (.length index)).InTables m.header := inTables_fetch hindex
    have hoffset : (m.fetch (.offset index)).InTables m.header := inTables_fetch hindex
    exact hlength.bind fun _ _ => hoffset.bind fun _ _ => nofun
  · exact Traced.inTables_fail

/-- A probe never leaves the hash table. -/
theorem inTables_traceProbe (m : Image) (key : Bytes) (rounds : Nat) {probe : Probe}
    (hslot : probe.slot < m.header.hashSize) :
    (m.traceProbe key rounds probe).InTables m.header := by
  induction rounds generalizing probe with
  | zero => exact Traced.inTables_fail
  | succ rounds ih =>
      have hfetch : (m.fetch (.slot probe.slot)).InTables m.header := inTables_fetch hslot
      refine hfetch.bind fun v _ => ?_
      cases v with
      | zero => exact Traced.inTables_fail
      | succ index =>
          refine (m.inTables_fetchSource index).attempt.bind fun source _ => ?_
          split
          · exact Traced.inTables_pure index
          · exact ih (Probe.slot_next_lt hslot)

theorem inTables_traceByHash (hhashed : m.header.isHashed = true) (key : Bytes) :
    (m.traceByHash key).InTables m.header := by
  have hsize : 2 < m.header.hashSize := of_decide_eq_true hhashed
  exact m.inTables_traceProbe key _ (Probe.start_bounds _ hsize).1

theorem inTables_traceBetween (m : Image) (key : Bytes) (bottom top : Nat) :
    (m.traceBetween key bottom top).InTables m.header := by
  fun_induction traceBetween m key bottom top with
  | case1 bottom top hlt middle ih ih' =>
      refine (m.inTables_fetchSource middle).bind fun source _ => ?_
      dsimp only
      split
      · exact ih
      · split
        · exact ih'
        · exact Traced.inTables_pure middle
  | case2 bottom top hlt => exact Traced.inTables_fail

theorem inTables_traceByOrder (m : Image) (key : Bytes) :
    (m.traceByOrder key).InTables m.header := m.inTables_traceBetween key 0 _

theorem inTables_traceFind (m : Image) (key : Bytes) :
    (m.traceFind key).InTables m.header := by
  unfold traceFind
  split
  · exact inTables_traceByHash ‹_› key
  · exact m.inTables_traceByOrder key

/-! ## Only entries with the key are found -/

theorem lt_count_of_source? {index : Nat} {source : Bytes} (h : m.source? index = some source) :
    index < m.header.count := by
  unfold source? stored? at h
  split at h
  · assumption
  · cases h

theorem lt_count_of_key? {index : Nat} {k : Bytes} (h : m.key? index = some k) :
    index < m.header.count := by
  obtain ⟨source, hsource, -⟩ := Option.map_eq_some_iff.1 h
  exact lt_count_of_source? hsource

theorem any_isFoundUnder_of_probeFor {rounds index : Nat} {probe : Probe}
    (h : m.probeFor key rounds probe = some index) :
    (m.source? index).any (isFoundUnder key) = true := by
  fun_induction probeFor m key rounds probe with
  | case1 => cases h
  | case2 rounds probe hslot => cases h
  | case3 rounds probe hslot => cases h
  | case4 rounds probe found hslot hfound =>
      obtain rfl : found = index := Option.some.inj h
      exact hfound
  | case5 rounds probe found hslot hfound ih => exact ih h

theorem key?_of_findByHash (hkey : 0 ∉ key) {index : Nat} (h : m.findByHash key = some index) :
    m.key? index = some key := by
  have hany := any_isFoundUnder_of_probeFor h
  cases hsource : m.source? index with
  | none => rw [hsource] at hany; cases hany
  | some source =>
      rw [hsource, Option.any_some, isFoundUnder_iff hkey] at hany
      rw [key?, hsource, Option.map_some, hany]

theorem key?_of_findBetween {bottom top index : Nat}
    (h : m.findBetween key bottom top = some index) : m.key? index = some key := by
  fun_induction findBetween m key bottom top with
  | case1 bottom top hlt middle hkey => cases h
  | case2 bottom top hlt middle found hkey hless ih => exact ih h
  | case3 bottom top hlt middle found hkey hless hmore ih => exact ih h
  | case4 bottom top hlt middle found hkey hless hmore =>
      obtain rfl : middle = index := Option.some.inj h
      rw [hkey, Std.le_antisymm (List.not_lt.1 hless) (List.not_lt.1 hmore)]
  | case5 bottom top hlt => cases h

theorem key?_of_find (hkey : 0 ∉ key) {index : Nat} (h : m.find key = some index) :
    m.key? index = some key := by
  unfold find at h
  split at h
  · exact key?_of_findByHash hkey h
  · exact key?_of_findBetween h

end Image

end MessageCatalog.Mo
