import MessageCatalog.Mo.Word

set_option autoImplicit false

/-! # The header of a catalog file

A catalog file starts with seven words: the signature, a revision number, the number of entries,
the offsets of the two tables of string descriptors, and the size and offset of the hash table.

`layout` checks the header against the length of the file and finds the regions that hold words:
the header itself, the two tables, and the hash table if there is one to speak of. `normalize`
brings the file into little-endian order by reversing the words of these regions and of nothing
else. Since the regions must not overlap, each word is reversed once, and a file that is refused
stays as it is.
-/

namespace MessageCatalog.Mo

/-- What makes a file useless as a catalog. -/
inductive Defect
  | tooSmall
  | tooLarge
  | unknownSignature
  | noEntries
  | tableOutside
  | tablesOverlap
  | notAscending
  deriving Repr, DecidableEq

/-- The wording of a defect. -/
def Defect.message : Defect → String
  | tooSmall => "file is too small"
  | tooLarge => "file is too large"
  | unknownSignature => "unknown signature"
  | noEntries => "catalog contains no strings"
  | tableOutside => "table extends past the end of the file"
  | tablesOverlap => "tables overlap"
  | notAscending => "original strings are not sorted"

/-- The fields of a header. The byte order is the one that the file was written in; `sources`,
`targets` and `hashOffset` are the offsets of the tables. -/
structure Header where
  order : ByteOrder
  revision : Nat
  count : Nat
  sources : Nat
  targets : Nat
  hashSize : Nat
  hashOffset : Nat
  deriving Repr, DecidableEq

/-- The number of bytes of a header. -/
def headerSize : Nat := 28

/-- The number of bytes of a string descriptor. -/
def descriptorSize : Nat := 8

/-- The number of bytes of a slot of the hash table. -/
def slotSize : Nat := 4

/-- The word that a catalog file starts with. -/
def signature : Nat := 0x950412de

/-- The signature with its bytes reversed, the first word of a file in the other byte order. -/
def reversedSignature : Nat := 0xde120495

namespace Header

/-- A table can be probed only if it has more than two slots. A smaller one counts as missing. -/
def isHashed (h : Header) : Bool := 2 < h.hashSize

/-- The table of `count` items of `size` bytes at an offset, if it lies in a file of `length`
bytes. -/
def table? (length offset count size : Nat) : Except Defect Region :=
  let stop := offset + count * size
  if length < stop then .error .tableOutside else .ok ⟨offset, stop⟩

/-- The regions that hold words, in a file of `length` bytes. -/
def regions? (h : Header) (length : Nat) : Except Defect (List Region) := do
  let sources ← table? length h.sources h.count descriptorSize
  let targets ← table? length h.targets h.count descriptorSize
  -- A hash table has to lie in the file even if it is too small to be used.
  let slots ← table? length h.hashOffset h.hashSize slotSize
  let regions := [⟨0, headerSize⟩, sources, targets]
  return if h.isHashed then regions ++ [slots] else regions

/-- The little-endian fields after the signature, for a file written in the given order. -/
def read? (order : ByteOrder) (data : Bytes) : Option Header := do
  let revision ← wordAt? data 4
  let count ← wordAt? data 8
  let sources ← wordAt? data 12
  let targets ← wordAt? data 16
  let hashSize ← wordAt? data 20
  let hashOffset ← wordAt? data 24
  return ⟨order, revision, count, sources, targets, hashSize, hashOffset⟩

end Header

/-- The byte order that the first word shows. -/
def orderOf? (data : Bytes) : Option ByteOrder :=
  match wordAt? data 0 with
  | some w =>
      if w = signature then some .little
      else if w = reversedSignature then some .big
      else none
  | none => none

/-- The header of a file and the regions that hold words. -/
structure Layout where
  header : Header
  regions : List Region
  deriving Repr, DecidableEq

/-- The layout of a file, if its header is sound. The fields are read in the order of bytes that
the signature shows. -/
def layout (data : Bytes) : Except Defect Layout := do
  if data.length < headerSize then throw .tooSmall
  let some order := orderOf? data | throw .unknownSignature
  -- In the other order the fields become readable once the words of the header are reversed.
  let readable := match order with
    | .little => data
    | .big => Region.swap data ⟨0, headerSize⟩
  let some header := Header.read? order readable | throw .tooSmall
  if header.count = 0 then throw .noEntries
  let regions ← header.regions? data.length
  if !Region.disjoint regions then throw .tablesOverlap
  return ⟨header, regions⟩

/-- The header of a file, or what is wrong with it, and the file as it is afterwards. -/
def normalize (data : Bytes) : Except Defect Header × Bytes :=
  match layout data with
  | .error defect => (.error defect, data)
  | .ok l =>
      match l.header.order with
      | .little => (.ok l.header, data)
      | .big => (.ok l.header, l.regions.foldl Region.swap data)

/-- A file that is refused stays as it is. -/
theorem normalize_of_error {data : Bytes} {defect : Defect} (h : layout data = .error defect) :
    normalize data = (.error defect, data) := by
  simp [normalize, h]

end MessageCatalog.Mo
