import MessageCatalog.Text.Visibility

set_option autoImplicit false

/-! # Quoting text in messages

Names, keys and characters that come from outside are shown in messages between quotes, in a form
that stays on one line and hides nothing: the quote and the backslash are escaped, so are the
usual controls, and every other hidden or combining character is written by its code point.

Which quote is escaped depends on what is quoted. A text stands between double quotes and leaves
single ones alone, and a single character stands between single quotes and leaves double ones alone.
-/

namespace MessageCatalog.Text

/-- A code point written in lower-case hexadecimal between braces. -/
def codeEscape (c : Char) : List Char :=
  ['\\', 'u', '\x7b'] ++ Nat.toDigits 16 c.toNat ++ ['\x7d']

/-- One character as it is written between quotes of the given kind. -/
def escapeQuoted (quote c : Char) : List Char :=
  if c = '\x00' then ['\\', '0']
  else if c = '\t' then ['\\', 't']
  else if c = '\r' then ['\\', 'r']
  else if c = '\n' then ['\\', 'n']
  else if c = '\\' || c = quote then ['\\', c]
  else if isCombining c || isHidden c then codeEscape c
  else [c]

/-- A text between double quotes. -/
def quoted (text : String) : String :=
  String.ofList ('"' :: text.toList.flatMap (escapeQuoted '"') ++ ['"'])

/-- A character between single quotes. -/
def quotedChar (c : Char) : String :=
  String.ofList ('\'' :: escapeQuoted '\'' c ++ ['\''])

end MessageCatalog.Text
