import MessageCatalog.Draft
import MessageCatalog.Po.Message

set_option autoImplicit false

/-! # Compiling a PO text

The messages of a PO text become the messages of a catalog. The header goes in whatever it says. A
message that is not translated is left out, and so is one whose target is unconfirmed, unless it is
asked for. Of messages with the same context and key the last one wins, with a remark.
-/

namespace MessageCatalog.Po

/-- What to take into a catalog and how to write it. -/
structure CompileOptions where
  useFuzzy : Bool := false
  hashed : Bool := true
  order : Mo.ByteOrder := .little
  deriving Repr, DecidableEq

/-- How many messages were taken and left out. The header counts as neither. -/
structure Tally where
  translated : Nat := 0
  fuzzySkipped : Nat := 0
  untranslatedSkipped : Nat := 0
  deriving Repr, DecidableEq

/-- A catalog in the making: its draft, the tally, and the keys taken so far. -/
structure Compilation where
  draft : Draft
  tally : Tally := {}
  seen : List Bytes := []

namespace Message

/-- The key that a message is found under, without its plural. -/
def storedKey (m : Message) : Bytes :=
  let id := Utf8.encode (joined m.id)
  match m.context with
  | some context => Catalog.keyIn (Utf8.encode (joined context)) id
  | none => id

/-- The targets in UTF-8, one for each form. -/
def storedForms (m : Message) : List Bytes := m.targets.map fun t => Utf8.encode (joined t)

/-- No form is translated. -/
def isUntranslated (m : Message) : Bool := m.targets.all fun t => (joined t).isEmpty

end Message

namespace Compilation

/-- Nothing yet. -/
def start (options : CompileOptions) : Compilation :=
  { draft := (Draft.empty.withHashing options.hashed).withOrder options.order }

/-- The draft with a message under its key. -/
def store (d : Draft) (m : Message) : Draft :=
  match m.plural with
  | some plural => d.addPlural m.storedKey (Utf8.encode (joined plural)) m.storedForms
  | none => d.add m.storedKey (m.storedForms.headD [])

/-- Takes one message, or leaves it out. -/
def step (options : CompileOptions) (c : Compilation) (m : Message) : Logged Compilation :=
  if m.isHeader then pure { c with draft := c.draft.setMetadata m.storedForms.flatten }
  else if m.isUntranslated then
    pure { c with tally.untranslatedSkipped := c.tally.untranslatedSkipped + 1 }
  else if m.isFuzzy && !options.useFuzzy then
    pure { c with tally.fuzzySkipped := c.tally.fuzzySkipped + 1 }
  else do
    -- Only messages that were taken count as definitions, so one that was left out is no duplicate.
    if c.seen.contains m.storedKey then
      Logged.remark .warning ("duplicate message definition for " ++ Text.quoted (joined m.id) ++
        ", the last one wins")
    pure
      { draft := store c.draft m
        tally := { c.tally with translated := c.tally.translated + 1 }
        seen := m.storedKey :: c.seen }

/-- Takes messages one after another. -/
def run (options : CompileOptions) (c : Compilation) (messages : List Message) :
    Logged Compilation :=
  messages.foldlM (step options) c

end Compilation

/-- Compiles a PO text. -/
def compile (text : String) (options : CompileOptions) : Logged (Except Error (Draft × Tally)) := do
  let (messages, failure) := read text
  let c ← (Compilation.start options).run options messages
  match failure with
  | some e => pure (.error e)
  | none => pure (.ok (c.draft, c.tally))

end MessageCatalog.Po
