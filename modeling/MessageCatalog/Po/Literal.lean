import MessageCatalog.Text.Position

set_option autoImplicit false

/-! # Writing string literals

The text between the quotes of a PO string. Quotes, backslashes and the controls that have a letter
of their own are escaped by a backslash and one character; the other controls are written as two
hexadecimal digits. All other characters stand for themselves.
-/

namespace MessageCatalog.Po

/-- A hexadecimal digit in lower case. -/
def hexDigit (n : Nat) : Char := if n < 10 then Char.ofNat (48 + n) else Char.ofNat (87 + n)

/-- The two hexadecimal digits of a number below 256. -/
def hexPair (n : Nat) : List Char := [hexDigit (n / 16), hexDigit (n % 16)]

/-- A character as it is written between quotes. -/
def escapeChar (c : Char) : List Char :=
  if c = '\x08' then ['\\', 'b']
  else if c = '\t' then ['\\', 't']
  else if c = '\n' then ['\\', 'n']
  else if c = '\x0c' then ['\\', 'f']
  else if c = '\r' then ['\\', 'r']
  else if c = '"' then ['\\', '"']
  else if c = '\\' then ['\\', '\\']
  else if c.toNat < 32 then '\\' :: 'x' :: hexPair c.toNat
  else [c]

/-- A text as it is written between quotes. -/
def escape (text : List Char) : List Char := text.flatMap escapeChar

/-- A text as a quoted literal. -/
def literal (text : List Char) : List Char := '"' :: escape text ++ ['"']

/-- A keyword and its text as lines of a PO text. A text of several lines starts with an
empty literal, and each of its lines is a literal on a line of its own. -/
def keywordLines (keyword text : String) : List Char :=
  let quoted := (Text.lines text.toList).map fun line => literal line ++ ['\n']
  let blank := literal [] ++ ['\n']
  keyword.toList ++ ' ' ::
    match quoted with
    | [] => blank
    | [line] => line
    | several => blank ++ several.flatten

end MessageCatalog.Po
