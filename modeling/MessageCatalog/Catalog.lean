import MessageCatalog.Mo.Image
import MessageCatalog.Plural.Rule
import MessageCatalog.ByteStream
import MessageCatalog.Overflow

set_option autoImplicit false

/-! # Loaded catalogs

A catalog is a catalog file that was checked, under the name it is shown by, together with the
plural rule of its metadata.

`ofBytes` loads a catalog from memory, `load` from a stream, and `ofFile` from a file. A stream is
read up to one byte past the largest accepted size, which is enough to tell that a file is too
large. If there is no word for that many bytes, the program ends before it reads any.
-/

namespace MessageCatalog

/-- Why a catalog could not be loaded. -/
inductive LoadError
  /-- There is no such file, or it is empty: the normal state of an untranslated language. -/
  | notFound
  | corrupt (defect : Mo.Defect)
  | unreadable (message : String)
  deriving Repr, DecidableEq

namespace LoadError

/-- The wording of a failed load. -/
def message : LoadError → String
  | notFound => "catalog not found"
  | corrupt defect => "invalid \".mo\" file: " ++ defect.message
  | unreadable message => "failed to read the catalog: " ++ message

/-- A failed load and what led to it, outermost first. -/
def causes : LoadError → List String
  | unreadable m => [(unreadable m).message, m]
  | e => [e.message]

/-- A failure to read ends a load: there is nothing there, or it cannot be read. -/
def ofRead (failure : ReadFailure) : LoadError :=
  if failure.notFound then .notFound else .unreadable failure.message

end LoadError

/-- What is accepted as a catalog. -/
structure LoadOptions where
  /-- The largest accepted size of a file in bytes. -/
  maxSize : Nat := 16 * 1024 * 1024
  /-- Refuse a file without a hash table whose keys are not in order. -/
  checkOrder : Bool := false
  deriving Repr, DecidableEq

/-- The smallest size of a catalog file in bytes. -/
def minSize : Nat := 32

/-- A checked catalog file, its name, and its plural rule. -/
structure Catalog where
  name : String
  image : Mo.Image
  rule : Plural.Rule
  deriving Repr, DecidableEq

namespace Catalog

/-- The key of a message in a context: context and message joined by the byte four. -/
def keyIn (context message : Bytes) : Bytes := context ++ 4 :: message

/-! ## Loading -/

/-- The checked file. -/
def check (data : Bytes) (options : LoadOptions) : Except LoadError Mo.Image := do
  if data.isEmpty then throw .notFound
  if data.length < minSize then throw (.corrupt .tooSmall)
  -- A file that is too large is not even looked at.
  if options.maxSize < data.length then throw (.corrupt .tooLarge)
  match Mo.normalize data with
  | (.error defect, _) => throw (.corrupt defect)
  | (.ok header, data) =>
      let image : Mo.Image := ⟨header, data.toArray⟩
      if options.checkOrder && !header.isHashed && !image.isAscending then
        throw (.corrupt .notAscending)
      return image

/-- The plural rule of a file: that of its metadata, or the default one if it has none. -/
def ruleOf (image : Mo.Image) : Logged Plural.Rule :=
  match image.metadata? with
  | none => pure Plural.Rule.default
  | some metadata => Plural.Rule.ofMetadata metadata

/-- Loads a catalog from memory. -/
def ofBytes (data : Bytes) (name : String) (options : LoadOptions) :
    Logged (Except LoadError Catalog) :=
  match check data options with
  | .error e => pure (.error e)
  | .ok image => do
      let rule ← ruleOf image
      return .ok ⟨name, image, rule⟩

/-- How many bytes are asked of a stream: one more than are accepted. -/
def readLimit (options : LoadOptions) : Checked Nat := addSizes options.maxSize 1

/-- Loads a catalog from a stream. -/
def load (stream : ByteStream) (name : String) (options : LoadOptions) :
    Checked (Except LoadError Catalog) := do
  let limit ← readLimit options
  match (stream.read limit).1 with
  | .error f => pure (.error (.ofRead f))
  | .ok data => ofBytes data name options

/-- Loads a catalog from a file, given the outcome of opening it. -/
def ofFile (file : Except ReadFailure ByteStream) (path : String) (options : LoadOptions) :
    Checked (Except LoadError Catalog) :=
  match file with
  | .error f => pure (.error (.ofRead f))
  | .ok stream => load stream path options

theorem value_load_of_lt {options : LoadOptions} (h : options.maxSize + 1 < UInt64.size)
    (stream : ByteStream) (name : String) :
    (load stream name options).value =
      .ok (match (stream.read (options.maxSize + 1)).1 with
        | .error f => .error (.ofRead f)
        | .ok data => (ofBytes data name options).value) := by
  rw [load, readLimit, Checked.value_bind_of_ok (value_addSizes_of_lt h)]
  cases (stream.read (options.maxSize + 1)).1 <;> rfl

/-- There is a word for the number of bytes that a load asks for by default. -/
theorem maxSize_default_lt : ({} : LoadOptions).maxSize + 1 < UInt64.size := by decide

/-- Nothing is loaded if there is no word for the number of bytes to ask for. -/
theorem value_load_of_le {options : LoadOptions} (h : UInt64.size ≤ options.maxSize + 1)
    (stream : ByteStream) (name : String) :
    (load stream name options).value = .error .addition :=
  Checked.value_bind_of_error (value_addSizes_of_le h) _

/-! ## Looking things up -/

variable (c : Catalog)

/-- The number of entries that the header declares. -/
def size : Nat := c.image.header.count

/-- What the catalog has for a message, with all its forms. -/
def lookup (message : Bytes) : Option Bytes := c.image.lookup message

/-- What the catalog has for a message in a context. -/
def lookupIn (context message : Bytes) : Option Bytes := c.lookup (keyIn context message)

/-- The one of the given forms that is used for a number. -/
def select (n : Int32) (forms : Bytes) : Bytes := c.rule.select n forms

/-- A field of the metadata. -/
def field? (name : Bytes) : Option Bytes :=
  c.image.metadata?.bind fun metadata => Metadata.field? metadata name

/-- The credits of the translators, empty if the catalog has none. -/
def credits : Bytes := (c.field? Metadata.teamKey).getD []

end Catalog

end MessageCatalog
