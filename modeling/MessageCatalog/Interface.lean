import MessageCatalog.Session

set_option autoImplicit false

/-! # The interface for programs in C

Programs written in C reach the active catalog through calls that take pointers and lengths and
answer with a status. `perform` is what a `Call` does to a session. An argument is either bytes or a
null pointer with a length; null stands for the empty string and for nothing else. A value is
written only together with the status `ok`.
-/

namespace MessageCatalog.Interface

/-- The name and version under which the library introduces itself. -/
def version : String := "0.1.0"

/-- The line that starts a log. -/
def banner : LogEntry := ⟨.info, "MoLocale/gettext-mo-engine v" ++ version⟩

/-- How a call went. -/
inductive Status
  | ok
  | internal
  | invalidArgument
  | notFound
  | corrupt
  | unreadable
  | notLoaded
  deriving Repr, DecidableEq

namespace Status

/-- All of them, in the order of their codes. -/
def all : List Status :=
  [ok, internal, invalidArgument, notFound, corrupt, unreadable, notLoaded]

/-- The number by which a caller sees the status. -/
def code : Status → Nat
  | ok => 0
  | internal => 1
  | invalidArgument => 2
  | notFound => 3
  | corrupt => 4
  | unreadable => 5
  | notLoaded => 6

/-- The status with a code. -/
def ofCode? (code : Nat) : Option Status := all[code]?

/-- The name of the status in the header file. -/
def id : Status → String
  | ok => "MOLOCALE_OK"
  | internal => "MOLOCALE_ERR_GENERIC_RUST_PANIC"
  | invalidArgument => "MOLOCALE_ERR_INVALID_ARGUMENT"
  | notFound => "MOLOCALE_ERR_NOT_FOUND"
  | corrupt => "MOLOCALE_ERR_CORRUPT"
  | unreadable => "MOLOCALE_ERR_IO"
  | notLoaded => "MOLOCALE_ERR_NOT_LOADED"

/-- What the status means. -/
def description : Status → String
  | ok => "this isn't actually an error"
  | internal => "a generic Rust panic"
  | invalidArgument => "an argument is a null pointer or isn't valid UTF-8"
  | notFound => "the catalog or the message wasn't found"
  | corrupt => "the catalog is not a valid \".mo\" file"
  | unreadable => "failed to read the catalog"
  | notLoaded => "no catalog is loaded"

/-- The status of a load. -/
def ofLoad : Except LoadError Catalog → Status
  | .ok _ => ok
  | .error .notFound => notFound
  | .error (.corrupt _) => corrupt
  | .error (.unreadable _) => unreadable

end Status

/-- A pointer and a length. -/
inductive Argument
  | bytes (value : Bytes)
  | null (length : Nat)
  deriving Repr, DecidableEq

/-- The bytes of an argument. A null pointer has none, unless none are asked for. -/
def Argument.read? : Argument → Option Bytes
  | bytes value => some value
  | null 0 => some []
  | null (_ + 1) => none

/-- What a call writes for its caller. -/
inductive Value
  | bytes (value : Bytes)
  | flag (value : Bool)
  deriving Repr, DecidableEq

/-- The answer to a call: how it went, and what it wrote. -/
structure Reply where
  status : Status
  value : Option Value := none
  deriving Repr, DecidableEq

/-- A call with its arguments. -/
inductive Call
  /-- Loads a catalog from memory and makes it active. -/
  | loadMemory (data name : Argument)
  /-- Loads a catalog from a file and makes it active. -/
  | loadFile (path : Argument)
  /-- Leaves no catalog active. -/
  | unload
  /-- Asks whether a catalog is active. -/
  | isLoaded
  /-- Asks what the active catalog has for a message. -/
  | lookup (message : Argument)
  /-- Asks which of the given forms is used for a number. -/
  | pick (n : Int32) (forms : Argument)
  /-- Asks for the credits of the active catalog. -/
  | credits
  deriving Repr, DecidableEq

/-- The options that loads use. -/
def options : LoadOptions := {}

/-- The answer to a load. -/
def replyToLoad (loading : Checked (Except LoadError Catalog × Session)) :
    Checked (Reply × Session) := do
  let (result, s) ← loading
  pure ({ status := .ofLoad result }, s)

/-- The answer to a question about the active catalog. A bad argument is noticed before a missing
catalog. -/
def ask (s : Session) (argument : Argument) (question : Catalog → Bytes → Reply) : Reply :=
  match argument.read?, s.active with
  | none, _ => { status := .invalidArgument }
  | some _, none => { status := .notLoaded }
  | some bytes, some c => question c bytes

/-- The answer that a message was found, or that it was not. -/
def replyToLookup (found : Option Bytes) : Reply :=
  match found with
  | some target => { status := .ok, value := some (.bytes target) }
  | none => { status := .notFound }

/-- Performs a call. `file` is what opening a file leads to. -/
def perform (file : String → Except ReadFailure ByteStream) (s : Session) :
    Call → Checked (Reply × Session)
  | .loadMemory data name =>
      match data.read?, name.read? with
      | some data, some name => replyToLoad (s.load (.ofBytes data) (Utf8.lossy name) options)
      | _, _ => pure ({ status := .invalidArgument }, s)
  | .loadFile path =>
      match path.read?.bind Utf8.text? with
      | some path => replyToLoad (s.loadFile (file path) path options)
      | none => pure ({ status := .invalidArgument }, s)
  | .unload => do
      let s ← s.unload
      pure ({ status := .ok }, s)
  | .isLoaded => pure ({ status := .ok, value := some (.flag s.isLoaded) }, s)
  | .lookup message => pure (ask s message fun c message => replyToLookup (c.lookup message), s)
  | .pick n forms =>
      pure (ask s forms fun c forms => { status := .ok, value := some (.bytes (c.select n forms)) },
        s)
  | .credits =>
      pure (ask s (.bytes []) fun c _ => { status := .ok, value := some (.bytes c.credits) }, s)

end MessageCatalog.Interface
