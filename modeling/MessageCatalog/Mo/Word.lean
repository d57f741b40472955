import MessageCatalog.Bytes

set_option autoImplicit false

/-! # Words in a file

Numbers in a catalog file are words of four bytes, in one of two byte orders. A file is brought
into little-endian order once, when it is loaded, by reversing the bytes of its words; from then
on words are read with `wordAt?`.
-/

namespace MessageCatalog.Mo

/-- The order of the bytes of a word, named for the end that comes first. -/
inductive ByteOrder
  | little | big
  deriving Repr, DecidableEq

namespace ByteOrder

/-- The name of the order in messages. -/
def name : ByteOrder → String
  | little => "little-endian"
  | big => "big-endian"

/-- The bytes of a number that fits into a word; of a larger one, the bytes of the lowest word. -/
def word (order : ByteOrder) (value : Nat) : Bytes :=
  let bytes := [UInt8.ofNat value, UInt8.ofNat (value / 0x100), UInt8.ofNat (value / 0x10000),
    UInt8.ofNat (value / 0x1000000)]
  match order with
  | little => bytes
  | big => bytes.reverse

end ByteOrder

/-- The number that four bytes denote, the lowest byte first. -/
def wordValue (b₀ b₁ b₂ b₃ : UInt8) : Nat :=
  b₀.toNat + 0x100 * b₁.toNat + 0x10000 * b₂.toNat + 0x1000000 * b₃.toNat

/-- The little-endian word at an offset, if all of it lies in the data. -/
def wordAt? (data : Bytes) (offset : Nat) : Option Nat :=
  match data.drop offset with
  | b₀ :: b₁ :: b₂ :: b₃ :: _ => some (wordValue b₀ b₁ b₂ b₃)
  | _ => none

/-- The data with the bytes of every whole word reversed. -/
def reverseWords : Bytes → Bytes
  | b₀ :: b₁ :: b₂ :: b₃ :: rest => b₃ :: b₂ :: b₁ :: b₀ :: reverseWords rest
  | rest => rest

/-- A stretch of a file, from the offset `start` up to and without the offset `stop`. -/
structure Region where
  start : Nat
  stop : Nat
  deriving Repr, DecidableEq

namespace Region

/-- Two regions share an offset, or one of them is empty and lies inside the other. -/
def overlaps (a b : Region) : Bool := a.start < b.stop && b.start < a.stop

/-- No two of the regions overlap. -/
def disjoint : List Region → Bool
  | [] => true
  | a :: rest => rest.all (fun b => !a.overlaps b) && disjoint rest

/-- The data with the bytes of every word of the region reversed. -/
def swap (data : Bytes) (r : Region) : Bytes :=
  data.take r.start ++ reverseWords ((data.drop r.start).take (r.stop - r.start)) ++
    data.drop r.stop

end Region

theorem length_reverseWords (data : Bytes) : (reverseWords data).length = data.length := by
  fun_induction reverseWords data <;> simp_all

/-- Reversing the bytes of every word twice changes nothing. -/
theorem reverseWords_reverseWords (data : Bytes) : reverseWords (reverseWords data) = data := by
  fun_induction reverseWords data with
  | case1 b₀ b₁ b₂ b₃ rest ih => simp [reverseWords, ih]
  | case2 rest h =>
    match rest, h with
    | [], _ | [_], _ | [_, _], _ | [_, _, _], _ => rfl
    | b₀ :: b₁ :: b₂ :: b₃ :: more, h => exact absurd rfl (h b₀ b₁ b₂ b₃ more)

end MessageCatalog.Mo
