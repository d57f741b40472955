import MessageCatalog.Catalog
import MessageCatalog.Language
import MessageCatalog.Text.Quoted

set_option autoImplicit false

/-! # The active catalog

A program translates through at most one catalog at a time, the active one. Loading a catalog makes
it active; a load that fails leaves none active, not even the one before. Translating never fails:
what is not found, or stands for an empty text, stays as it is.
-/

namespace MessageCatalog

/-- The active catalog, if there is one. -/
structure Session where
  active : Option Catalog := none
  deriving Repr, DecidableEq

namespace Session

/-- Without an active catalog. -/
def empty : Session := {}

/-- A catalog is active. -/
def isLoaded (s : Session) : Bool := s.active.isSome

/-- With the given catalog active. -/
def install (_ : Session) (c : Catalog) : Session := ⟨some c⟩

/-- Without an active catalog. -/
def unload (s : Session) : Logged Session := do
  match s.active with
  | some c => Logged.remark .debug ("unloaded the catalog " ++ Text.quoted c.name)
  | none => pure ()
  pure empty

/-- The remark about a load. -/
def loadRemark (name : String) : Except LoadError Catalog → LogEntry
  | .ok c =>
      ⟨.info, "loaded the catalog " ++ Text.quoted name ++ ": " ++ toString c.size ++
        " entries, " ++ c.image.header.order.name ++ " byte order, " ++ c.image.searchName ++
        " lookups"⟩
  | .error .notFound => ⟨.debug, "catalog " ++ Text.quoted name ++ " not found"⟩
  | .error e =>
      ⟨.error, "failed to load the catalog " ++ Text.quoted name ++ ": " ++ e.message⟩

/-- After a load: with the loaded catalog active, or with none. -/
def finish (s : Session) (name : String) (result : Except LoadError Catalog) : Logged Session := do
  match result with
  | .ok c =>
      ⟨(), [loadRemark name result]⟩
      pure (s.install c)
  | .error _ =>
      -- The catalog before goes first, and then it is said why there is none.
      let s ← s.unload
      ⟨(), [loadRemark name result]⟩
      pure s

/-- Does a load, and then with the session what the result calls for. -/
def after (s : Session) (name : String) (loading : Checked (Except LoadError Catalog)) :
    Checked (Except LoadError Catalog × Session) := do
  let result ← loading
  let s ← s.finish name result
  pure (result, s)

/-- Loads a catalog from a stream. -/
def load (s : Session) (stream : ByteStream) (name : String) (options : LoadOptions) :
    Checked (Except LoadError Catalog × Session) :=
  s.after name (Catalog.load stream name options)

/-- Loads a catalog from a file, given the outcome of opening it. -/
def loadFile (s : Session) (file : Except ReadFailure ByteStream) (path : String)
    (options : LoadOptions) : Checked (Except LoadError Catalog × Session) :=
  s.after path (Catalog.ofFile file path options)

/-! ## Translating -/

/-- A target as text. An empty one counts as missing. -/
def decode? (target : Bytes) : Option String :=
  if target.isEmpty then none else some (Utf8.lossy target)

/-- What the active catalog has, or the fallback if there is no catalog or nothing in it. -/
def translate (s : Session) (find : Catalog → Option Bytes) (fallback : String) : String :=
  ((s.active.bind find).bind decode?).getD fallback

/-- The text that stands for an untranslated plural. -/
def untranslated (singular plural : String) (n : Int32) : String :=
  if n = 1 then singular else plural

/-- A message, translated. -/
def text (s : Session) (message : String) : String :=
  s.translate (fun c => c.lookup (Utf8.encode message)) message

/-- A message in a context, translated. -/
def textIn (s : Session) (context message : String) : String :=
  s.translate (fun c => c.lookupIn (Utf8.encode context) (Utf8.encode message)) message

/-- A message that speaks of a number of things, translated. -/
def plural (s : Session) (singular plural : String) (n : Int32) : String :=
  s.translate (fun c => (c.lookup (Utf8.encode singular)).map (c.select n))
    (untranslated singular plural n)

/-- A message in a context that speaks of a number of things, translated. -/
def pluralIn (s : Session) (context singular plural : String) (n : Int32) : String :=
  s.translate
    (fun c => (c.lookupIn (Utf8.encode context) (Utf8.encode singular)).map (c.select n))
    (untranslated singular plural n)

/-- The credits of the active catalog, empty if there is none. -/
def credits (s : Session) : String :=
  match s.active with
  | some c => Utf8.lossy c.credits
  | none => ""

/-! ## Preferred languages -/

/-- A session as the state of a search. -/
abbrev Loading := StateT Session Checked

/-- Loads the catalog of a language as a part of a search, and says whether that worked. -/
def tryLoad (file : String → Except ReadFailure ByteStream) (options : LoadOptions)
    (name : String) : Loading Bool := fun s => do
  let (result, s) ← s.loadFile (file name) name options
  pure (result.isOk, s)

/-- Searches the preferred languages for one with a catalog and makes that the active one. -/
def prefer (s : Session) (source : String) (languages : List String)
    (file : String → Except ReadFailure ByteStream) (options : LoadOptions) :
    Checked (Language.Selection × Session) := do
  let (selection, s) ← Language.select source (tryLoad file options) languages s
  (⟨(), selection.log source⟩ : Logged Unit)
  pure (selection, s)

end Session

end MessageCatalog
