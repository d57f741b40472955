import MessageCatalog.Bytes
import MessageCatalog.Decimal
import MessageCatalog.Separated

set_option autoImplicit false

/-! # The metadata of a catalog

What a catalog stores under the empty key is its metadata: lines of the form `Name: value`. Two of
the values are looked for wherever they stand, since they share one line: the plural expression
after `plural=` and the number of forms after `nplurals=`.
-/

namespace MessageCatalog.Metadata

/-- The value that a line gives to a field, if it is a line of that field. -/
def valueOf? (name line : Bytes) : Option Bytes :=
  (Bytes.stripStart? name line).bind fun rest =>
    (Bytes.stripStart? [58] rest).map Bytes.trim

/-- The value of a field: of the lines with that name the first one counts. -/
def field? (metadata name : Bytes) : Option Bytes :=
  (Separated.split 10 metadata).findSome? (valueOf? name)

/-- A byte that ends the plural expression: a semicolon or a line break. -/
def endsExpression (b : UInt8) : Bool := b == 59 || b == 13 || b == 10

/-- The key of the plural expression, `plural=`. -/
def pluralKey : Bytes := [112, 108, 117, 114, 97, 108, 61]

/-- The key of the number of forms, `nplurals=`. -/
def countKey : Bytes := [110, 112, 108, 117, 114, 97, 108, 115, 61]

/-- The field that credits the translators, `Language-Team`. -/
def teamKey : Bytes := [76, 97, 110, 103, 117, 97, 103, 101, 45, 84, 101, 97, 109]

/-- The text of the plural expression. -/
def pluralExpression? (metadata : Bytes) : Option Bytes :=
  (Bytes.after? pluralKey metadata).map fun rest => rest.takeWhile fun b => !endsExpression b

/-- The number of plural forms, if digits follow the key and their value fits into 32 bits. -/
def pluralCount? (metadata : Bytes) : Option Nat :=
  (Bytes.after? countKey metadata).bind fun rest =>
    let digits := (Bytes.trim rest).takeWhile Bytes.isDigit
    let value := Decimal.valueUpTo UInt32.size (Bytes.digits digits)
    if digits.isEmpty || UInt32.size ≤ value then none else some value

end MessageCatalog.Metadata
