import MessageCatalog.Bytes

set_option autoImplicit false

/-! # UTF-8

The byte strings of a catalog are meant to be UTF-8, but nothing enforces it. `decode` reads a byte
string as a sequence of characters and of *ill-formed sequences*: an ill-formed sequence is as many
bytes as could have started a character, and at least one. Two readings are built on it. `text?`
accepts well-formed strings only, and `lossy` puts one replacement character in the place of every
ill-formed sequence.

`encode` is the way back. A character is written in one to four bytes; which one it is shows in
the first of them.
-/

namespace MessageCatalog.Utf8

/-- A byte that continues a character. -/
def isContinuation (b : UInt8) : Bool := 0x80 ≤ b && b ≤ 0xbf

/-- The number of bytes of a character, told by its first byte. -/
inductive Width
  | one | two | three | four
  deriving Repr, DecidableEq

/-- The width announced by a first byte. The bytes 0xc0 and 0xc1 could only start overlong forms
and those above 0xf4 code points that do not exist, so they start nothing. -/
def width? (b : UInt8) : Option Width :=
  if b < 0x80 then some .one
  else if b < 0xc2 then none
  else if b < 0xe0 then some .two
  else if b < 0xf0 then some .three
  else if b < 0xf5 then some .four
  else none

/-- The second byte of a character of three or four bytes. Besides being a continuation it must
not make the form overlong, name a surrogate, or pass the last code point. -/
def isSecond (first second : UInt8) : Bool :=
  isContinuation second &&
    (if first = 0xe0 then 0xa0 ≤ second
     else if first = 0xed then second < 0xa0
     else if first = 0xf0 then 0x90 ≤ second
     else if first = 0xf4 then second < 0x90
     else true)

/-- The payload of a continuation byte. -/
def payload (b : UInt8) : Nat := b.toNat % 64

/-- The character written in two bytes. -/
def char2 (b₀ b₁ : UInt8) : Char := Char.ofNat (b₀.toNat % 32 * 64 + payload b₁)

/-- The character written in three bytes. -/
def char3 (b₀ b₁ b₂ : UInt8) : Char :=
  Char.ofNat ((b₀.toNat % 16 * 64 + payload b₁) * 64 + payload b₂)

/-- The character written in four bytes. -/
def char4 (b₀ b₁ b₂ b₃ : UInt8) : Char :=
  Char.ofNat (((b₀.toNat % 8 * 64 + payload b₁) * 64 + payload b₂) * 64 + payload b₃)

/-- The characters of a byte string, with `none` for every ill-formed sequence. -/
def decode : Bytes → List (Option Char)
  | [] => []
  | b₀ :: rest =>
      match width? b₀ with
      | none => none :: decode rest
      | some .one => some (Char.ofNat b₀.toNat) :: decode rest
      | some .two =>
          match rest with
          | [] => [none]
          | b₁ :: rest₁ =>
              if isContinuation b₁ then some (char2 b₀ b₁) :: decode rest₁
              else none :: decode (b₁ :: rest₁)
      | some .three =>
          match rest with
          | [] => [none]
          | b₁ :: rest₁ =>
              if isSecond b₀ b₁ then
                match rest₁ with
                | [] => [none]
                | b₂ :: rest₂ =>
                    if isContinuation b₂ then some (char3 b₀ b₁ b₂) :: decode rest₂
                    else none :: decode (b₂ :: rest₂)
              else none :: decode (b₁ :: rest₁)
      | some .four =>
          match rest with
          | [] => [none]
          | b₁ :: rest₁ =>
              if isSecond b₀ b₁ then
                match rest₁ with
                | [] => [none]
                | b₂ :: rest₂ =>
                    if isContinuation b₂ then
                      match rest₂ with
                      | [] => [none]
                      | b₃ :: rest₃ =>
                          if isContinuation b₃ then some (char4 b₀ b₁ b₂ b₃) :: decode rest₃
                          else none :: decode (b₃ :: rest₃)
                    else none :: decode (b₂ :: rest₂)
              else none :: decode (b₁ :: rest₁)

/-- All the characters, if none is missing. -/
def allSome : List (Option Char) → Option (List Char)
  | [] => some []
  | none :: _ => none
  | some c :: rest => (allSome rest).map (c :: ·)

/-- The text that a well-formed byte string spells. -/
def text? (b : Bytes) : Option String := (allSome (decode b)).map String.ofList

/-- The text that a byte string spells, each ill-formed sequence read as U+FFFD. -/
def lossy (b : Bytes) : String := String.ofList ((decode b).map (·.getD '\uFFFD'))

/-- The bytes of a character. -/
def encodeChar (c : Char) : Bytes :=
  let n := c.toNat
  if n < 0x80 then [UInt8.ofNat n]
  else if n < 0x800 then [UInt8.ofNat (0xc0 + n / 64), UInt8.ofNat (0x80 + n % 64)]
  else if n < 0x10000 then
    [UInt8.ofNat (0xe0 + n / 4096), UInt8.ofNat (0x80 + n / 64 % 64), UInt8.ofNat (0x80 + n % 64)]
  else
    [UInt8.ofNat (0xf0 + n / 262144), UInt8.ofNat (0x80 + n / 4096 % 64),
      UInt8.ofNat (0x80 + n / 64 % 64), UInt8.ofNat (0x80 + n % 64)]

/-- The bytes of a text. -/
def encode (text : String) : Bytes := text.toList.flatMap encodeChar

theorem encode_append (s t : String) : encode (s ++ t) = encode s ++ encode t := by
  simp [encode]

end MessageCatalog.Utf8
