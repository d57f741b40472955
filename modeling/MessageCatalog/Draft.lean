import MessageCatalog.Catalog

set_option autoImplicit false

/-! # Writing catalogs

A `Draft` is a catalog that is being put together: its messages in ascending order of their
sources, each source once, and the choices of how to write it. `Draft.write` lays it out as a file:
the header, the two tables of descriptors, the hash table, all sources, all targets. Every string is
followed by a NUL that its descriptor does not count.
-/

namespace MessageCatalog

/-- A message as it is stored: its source and its target. -/
abbrev Record := Bytes × Bytes

/-- The messages with one more of them, in ascending order of the sources. The message takes
the place of one with the same source. -/
def insertRecord (m : Record) : List Record → List Record
  | [] => [m]
  | other :: rest =>
      if m.1 < other.1 then m :: other :: rest
      else if m.1 = other.1 then m :: rest
      else other :: insertRecord m rest

/-- Ascending order of the sources. -/
def Ascending (messages : List Record) : Prop := messages.Pairwise fun a b => a.1 < b.1

theorem mem_insertRecord {m x : Record} {messages : List Record}
    (h : x ∈ insertRecord m messages) : x = m ∨ x ∈ messages := by
  fun_induction insertRecord m messages <;> grind

theorem ascending_insertRecord (m : Record) {messages : List Record}
    (h : Ascending messages) : Ascending (insertRecord m messages) := by
  induction messages with
  | nil => simp [insertRecord, Ascending]
  | cons other rest ih =>
    rw [Ascending, List.pairwise_cons] at h
    obtain ⟨hall, hrest⟩ := h
    simp only [insertRecord]
    split
    -- The message goes in front of all others.
    · rename_i hlt
      refine List.pairwise_cons.2 ⟨fun x hx => ?_, List.pairwise_cons.2 ⟨hall, hrest⟩⟩
      rcases List.mem_cons.1 hx with rfl | hx
      · exact hlt
      · exact List.lt_trans hlt (hall x hx)
    · split
      -- It takes the place of the first one.
      · rename_i _ heq
        exact List.pairwise_cons.2 ⟨fun x hx => heq ▸ hall x hx, hrest⟩
      -- It goes further back, and the first one stays the first.
      · rename_i hnlt hne
        refine List.pairwise_cons.2 ⟨fun x hx => ?_, ih hrest⟩
        rcases mem_insertRecord hx with rfl | hx
        · exact Std.lt_of_le_of_ne (List.not_lt.1 hnlt) (Ne.symm hne)
        · exact hall x hx

/-- A catalog that is being put together. -/
structure Draft where
  messages : List Record := []
  order : Mo.ByteOrder := .little
  hashed : Bool := true
  ascending : Ascending messages := by exact List.Pairwise.nil

namespace Draft

/-- Nothing yet; to be written little-endian and with a hash table. -/
def empty : Draft := {}

/-- The number of messages. -/
def size (d : Draft) : Nat := d.messages.length

/-- To be written in the given byte order. -/
def withOrder (d : Draft) (order : Mo.ByteOrder) : Draft := { d with order := order }

/-- To be written with or without a hash table. -/
def withHashing (d : Draft) (hashed : Bool) : Draft := { d with hashed := hashed }

/-- With a message; it replaces one with the same source. -/
def add (d : Draft) (source target : Bytes) : Draft :=
  { d with
    messages := insertRecord (source, target) d.messages
    ascending := ascending_insertRecord (source, target) d.ascending }

/-- With a message in a context. -/
def addIn (d : Draft) (context source target : Bytes) : Draft :=
  d.add (Catalog.keyIn context source) target

/-- With a plural message. Its source is the singular and the plural, its target the forms. -/
def addPlural (d : Draft) (singular plural : Bytes) (forms : List Bytes) : Draft :=
  d.add (singular ++ 0 :: plural) (Separated.join 0 forms)

/-- With a plural message in a context. -/
def addPluralIn (d : Draft) (context singular plural : Bytes) (forms : List Bytes) : Draft :=
  d.addPlural (Catalog.keyIn context singular) plural forms

/-- With the given metadata. -/
def setMetadata (d : Draft) (text : Bytes) : Draft := d.add [] text

/-! ## The file -/

/-- The descriptors, length and offset in turn, of strings that are stored one after another from
an offset on, each with a NUL behind it. -/
def descriptors : Nat → List Bytes → List Nat
  | _, [] => []
  | offset, s :: rest => s.length :: offset :: descriptors (offset + s.length + 1) rest

/-- Strings one after another, each with a NUL behind it. -/
def stringArea (strings : List Bytes) : Bytes := strings.flatMap fun s => s ++ [0]

/-- The first empty slot on a walk, looking at no more than `rounds` slots. -/
def emptySlot (slots : List Nat) : Nat → Mo.Probe → Nat
  | 0, probe => probe.slot
  | rounds + 1, probe =>
      if slots[probe.slot]? = some 0 then probe.slot
      else emptySlot slots rounds (probe.next slots.length)

/-- The table with an entry put into the first empty slot on the walk of its hash. -/
def place (slots : List Nat) (h entry : Nat) : List Nat :=
  slots.set (emptySlot slots slots.length (.start h slots.length)) entry

/-- The table filled with the entries of the given hashes, numbered from `entry` on. -/
def fill (slots : List Nat) : Nat → List Nat → List Nat
  | _, [] => slots
  | entry, h :: rest => fill (place slots h entry) (entry + 1) rest

/-- The hash table of the sources. Of a source only the key counts, the part before the first NUL,
which is what a lookup hashes too. -/
def slots (sources : List Bytes) : List Nat :=
  fill (List.replicate (Mo.tableSize sources.length) 0) 1
    (sources.map fun source => (Mo.hash (Bytes.beforeNul source)).toNat)

/-- The words at the start of the file: header, descriptors and hash table. -/
def words (d : Draft) : List Nat :=
  let sources := d.messages.map Prod.fst
  let targets := d.messages.map Prod.snd
  let table := if d.hashed then slots sources else []
  -- Each part starts where the one before it ends.
  let sourceTable := Mo.headerSize
  let targetTable := sourceTable + d.size * Mo.descriptorSize
  let hashTable := targetTable + d.size * Mo.descriptorSize
  let strings := hashTable + table.length * Mo.slotSize
  [Mo.signature, 0, d.size, sourceTable, targetTable, table.length, hashTable] ++
    descriptors strings sources ++
    descriptors (strings + (stringArea sources).length) targets ++
    table

/-- The catalog as a file. -/
def write (d : Draft) : Bytes :=
  d.words.flatMap d.order.word ++
    stringArea (d.messages.map Prod.fst) ++ stringArea (d.messages.map Prod.snd)

end Draft

end MessageCatalog
