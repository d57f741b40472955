import MessageCatalog.Bytes
import MessageCatalog.Po.Literal
import MessageCatalog.Separated
import MessageCatalog.Text.Utf8

set_option autoImplicit false

/-! # Entries shown as text

The source of an entry holds up to three parts, `context 0x04 key 0x00 plural`, and its target holds
the forms with NULs between them. `Entry.ofStored` takes both apart, and an entry is shown
in PO syntax or as a JSON object.
-/

namespace MessageCatalog.Po

/-- A message of a catalog taken apart. -/
structure Entry where
  context : Option String
  id : String
  plural : Option String
  targets : List String
  deriving Repr, DecidableEq

/-- The parts before and after the first occurrence of a byte, if there is one. -/
def cutAt? (b : UInt8) (bytes : Bytes) : Option (Bytes × Bytes) :=
  match bytes.dropWhile (· != b) with
  | [] => none
  | _ :: rest => some (bytes.takeWhile (· != b), rest)

namespace Entry

/-- Takes a stored entry apart. The first byte four ends the context, the first NUL after it starts
the plural, and only the target of a plural message is made of forms. -/
def ofStored (source target : Bytes) : Entry :=
  let (context, key) := match cutAt? 4 source with
    | some (context, key) => (some context, key)
    | none => (none, source)
  match cutAt? 0 key with
  | some (id, plural) =>
      { context := context.map Utf8.lossy
        id := Utf8.lossy id
        plural := some (Utf8.lossy plural)
        targets := (Separated.split 0 target).map Utf8.lossy }
  | none =>
      { context := context.map Utf8.lossy
        id := Utf8.lossy key
        plural := none
        targets := [Utf8.lossy target] }

/-- The forms of a plural message from the number `index` on, in PO syntax. -/
def formLines : Nat → List String → List Char
  | _, [] => []
  | index, form :: rest =>
      keywordLines ("msgstr[" ++ toString index ++ "]") form ++ formLines (index + 1) rest

/-- The entry in PO syntax. -/
def toPo (e : Entry) : String :=
  String.ofList <|
    (match e.context with
      | some context => keywordLines "msgctxt" context
      | none => []) ++
    keywordLines "msgid" e.id ++
    match e.plural, e.targets with
    | some plural, forms => keywordLines "msgid_plural" plural ++ formLines 0 forms
    | none, target :: _ => keywordLines "msgstr" target
    | none, [] => []

end Entry

/-- Entries in PO syntax with a blank line between neighbours. -/
def listing (entries : List Entry) : String := "\n".intercalate (entries.map Entry.toPo)

/-! ## JSON -/

/-- How the members of a JSON object or array are set apart. -/
structure JsonLayout where
  indented : Bool
  deriving Repr, DecidableEq

namespace JsonLayout

/-- Everything on one line, without blanks. -/
def compact : JsonLayout := ⟨false⟩

/-- Each member on a line of its own, indented by two blanks for each level. -/
def pretty : JsonLayout := ⟨true⟩

/-- A line break before a member `depth` levels deep. -/
def lineBreak (l : JsonLayout) (depth : Nat) : String :=
  if l.indented then "\n" ++ String.ofList (List.replicate (2 * depth) ' ') else ""

/-- What stands between a name and its value. -/
def colon (l : JsonLayout) : String := if l.indented then ": " else ":"

/-- Members between brackets; `depth` is the depth of the members. -/
def bracketed (l : JsonLayout) (depth : Nat) (opening closing : String) (members : List String) :
    String :=
  if members.isEmpty then opening ++ closing
  else
    opening ++ l.lineBreak depth ++ ("," ++ l.lineBreak depth).intercalate members ++
      l.lineBreak (depth - 1) ++ closing

end JsonLayout

/-- A character in a JSON string. Quotes and backslashes are escaped, and so are controls, by a
letter if they have one and by four hexadecimal digits if not. -/
def jsonChar (c : Char) : List Char :=
  if c = '"' then ['\\', '"']
  else if c = '\\' then ['\\', '\\']
  else if c = '\x08' then ['\\', 'b']
  else if c = '\x0c' then ['\\', 'f']
  else if c = '\n' then ['\\', 'n']
  else if c = '\r' then ['\\', 'r']
  else if c = '\t' then ['\\', 't']
  else if c.toNat < 32 then ['\\', 'u', '0', '0'] ++ hexPair c.toNat
  else [c]

/-- A text as a JSON string. -/
def jsonString (text : String) : String :=
  String.ofList ('"' :: text.toList.flatMap jsonChar ++ ['"'])

/-- The entry as a JSON object. A missing context or plural is left out. -/
def Entry.toJson (l : JsonLayout) (e : Entry) : String :=
  let member := fun (name value : String) => jsonString name ++ l.colon ++ value
  let context := e.context.toList.map fun context => member "msgctxt" (jsonString context)
  let plural := e.plural.toList.map fun plural => member "msgid_plural" (jsonString plural)
  let forms := l.bracketed 2 "[" "]" (e.targets.map jsonString)
  l.bracketed 1 "\x7b" "\x7d"
    (context ++ [member "msgid" (jsonString e.id)] ++ plural ++ [member "msgstr" forms])

end MessageCatalog.Po
