import MessageCatalog.Mo.HashTable
import MessageCatalog.Mo.Header

set_option autoImplicit false

/-! # Entries of a catalog file and how they are found

An `Image` is a catalog file in little-endian order together with its header. An entry is a pair of
byte strings: the *source*, which is the message as the program knows it, and the *target*, which
is what it says in the language of the catalog. Two tables of descriptors give the length and the
offset of every source and of every target. Nothing ties the descriptors of a file to its contents,
so every access may come out empty.

An entry is found by its key, the part of its source before the first NUL: through the hash table
if the file has a usable one, and by binary search otherwise.
-/

namespace MessageCatalog.Mo

/-- A file in little-endian order and its header. The bytes are an array, since the descriptors
lead to any place of the file. -/
structure Image where
  header : Header
  data : Array UInt8
  deriving Repr, DecidableEq

namespace Image

/-! ## Access to the bytes

Only these functions look at the array; both say the same about the bytes as a list. -/

/-- The word at an offset, if all of it lies in the file. -/
def wordAt? (m : Image) (offset : Nat) : Option Nat :=
  Mo.wordAt? (m.data.extract offset (offset + 4)).toList 0

/-- A stretch of the file, if all of it is there. -/
def slice? (m : Image) (offset length : Nat) : Option Bytes :=
  if offset + length ≤ m.data.size then some (m.data.extract offset (offset + length)).toList
  else none

/-- The bytes of a stretch. -/
theorem toList_extract (m : Image) (offset length : Nat) :
    (m.data.extract offset (offset + length)).toList = (m.data.toList.drop offset).take length := by
  rw [Array.toList_extract, List.extract_eq_take_drop, Nat.add_sub_cancel_left]

/-- A word of the file is a word of its bytes. -/
theorem wordAt?_eq (m : Image) (offset : Nat) :
    m.wordAt? offset = Mo.wordAt? m.data.toList offset := by
  rw [wordAt?, toList_extract, Mo.wordAt?, Mo.wordAt?, List.drop_zero]
  rcases m.data.toList.drop offset with _ | ⟨_, _ | ⟨_, _ | ⟨_, _ | _⟩⟩⟩ <;> rfl

/-- A stretch is given only in full. -/
theorem slice?_eq_some_iff {m : Image} {part : Bytes} {offset length : Nat} :
    m.slice? offset length = some part ↔
      offset + length ≤ m.data.size ∧ part = (m.data.toList.drop offset).take length := by
  rw [slice?, toList_extract]
  split
  · rename_i h
    simp only [Option.some.injEq, h, true_and, eq_comm]
  · rename_i h
    simp [h]

/-! ## Strings -/

/-- The string that a descriptor table gives for an entry. -/
def stored? (m : Image) (table index : Nat) : Option Bytes := do
  if index < m.header.count then
    let length ← m.wordAt? (table + index * descriptorSize)
    let offset ← m.wordAt? (table + index * descriptorSize + 4)
    m.slice? offset length
  else none

/-- The source of an entry, with the plural that a plural entry has after a NUL. -/
def source? (m : Image) (index : Nat) : Option Bytes := m.stored? m.header.sources index

/-- The target of an entry, with all its forms. -/
def target? (m : Image) (index : Nat) : Option Bytes := m.stored? m.header.targets index

/-- The key of an entry. -/
def key? (m : Image) (index : Nat) : Option Bytes := (m.source? index).map Bytes.beforeNul

/-- The entries in the order of the file; entries that point outside of it are left out. -/
def entries (m : Image) : List (Bytes × Bytes) :=
  (List.range m.header.count).filterMap fun index => do
    let source ← m.source? index
    let target ← m.target? index
    return (source, target)

/-- The keys of the entries `index` and after are readable and in order, and none of them is
before `previous`. -/
def ascendingFrom (m : Image) (previous : Bytes) : Nat → Nat → Bool
  | 0, _ => true
  | count + 1, index =>
      match m.key? index with
      | none => false
      | some key => !(key < previous) && ascendingFrom m key count (index + 1)

/-- All keys are readable and in ascending order, which is what the binary search relies on. -/
def isAscending (m : Image) : Bool := m.ascendingFrom [] m.header.count 0

/-! ## Searching -/

/-- A source is found under a key if it starts with the key and goes on with a NUL or not at all. -/
def isFoundUnder (key source : Bytes) : Bool :=
  key.isPrefixOf source && (source.drop key.length).head?.all (· == 0)

/-- The content of a slot of the hash table: zero, or one more than the number of an entry. -/
def slot? (m : Image) (slot : Nat) : Option Nat :=
  m.wordAt? (m.header.hashOffset + slot * slotSize)

/-- Follows a probe until it meets an empty slot or an entry that is found under the key. No more
than `rounds` slots are looked at. -/
def probeFor (m : Image) (key : Bytes) : Nat → Probe → Option Nat
  | 0, _ => none
  | rounds + 1, probe =>
      match m.slot? probe.slot with
      | none => none
      -- An empty slot: the key would have been put here.
      | some 0 => none
      | some (index + 1) =>
          if (m.source? index).any (isFoundUnder key) then some index
          else probeFor m key rounds (probe.next m.header.hashSize)

/-- The entry under a key by way of the hash table. A table without an empty slot would send the
probe round in circles, so it looks at no more slots than there are. -/
def findByHash (m : Image) (key : Bytes) : Option Nat :=
  m.probeFor key m.header.hashSize (.start (hash key).toNat m.header.hashSize)

/-- The entry under a key among those from `bottom` up to and without `top`, by halving the
range. -/
def findBetween (m : Image) (key : Bytes) (bottom top : Nat) : Option Nat :=
  if bottom < top then
    let middle := bottom + (top - bottom) / 2
    match m.key? middle with
    -- The order says nothing about a key that cannot be read, so there is no side to go on with.
    | none => none
    | some found =>
        if key < found then findBetween m key bottom middle
        else if found < key then findBetween m key (middle + 1) top
        else some middle
  else none
termination_by top - bottom

/-- The entry under a key by binary search. -/
def findByOrder (m : Image) (key : Bytes) : Option Nat := m.findBetween key 0 m.header.count

/-- The entry under a key, which must not hold a NUL. -/
def find (m : Image) (key : Bytes) : Option Nat :=
  if m.header.isHashed then m.findByHash key else m.findByOrder key

/-- The way `find` takes, as it is called in messages. -/
def searchName (m : Image) : String :=
  if m.header.isHashed then "hash table" else "binary search"

/-- What the catalog has for a message. The message ends at its first NUL. -/
def lookup (m : Image) (message : Bytes) : Option Bytes := do
  let index ← m.find (Bytes.beforeNul message)
  m.target? index

/-- The metadata of the catalog, which is stored under the empty key. -/
def metadata? (m : Image) : Option Bytes := m.lookup []

end Image

end MessageCatalog.Mo
