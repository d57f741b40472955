import MessageCatalog.Command.Line
import MessageCatalog.Report
import MessageCatalog.Session

set_option autoImplicit false

/-! # Running commands

A command reads files and standard input, perhaps writes a file, prints something, and succeeds or
fails. `run` does that on any `Host`, which is whatever gives access to files: a directory in memory
as well as the file system.
-/

namespace MessageCatalog.Command

/-- Access to files and to standard input. -/
structure Host (m : Type → Type) where
  openFile : String → m (Except ReadFailure ByteStream)
  writeFile : String → Bytes → m (Except ReadFailure Unit)
  input : m Bytes

/-- How a run ended: the exit code, what was printed, and what was reported. -/
structure Outcome where
  code : Nat
  output : Bytes
  report : String
  deriving Repr, DecidableEq

/-- Why a command failed: the causes, outermost first. -/
abbrev Causes := List String

variable {m : Type → Type} [Monad m]

/-- A part of a command. It fails, or an overflow ends the program. -/
abbrev Attempt (m : Type → Type) := ExceptT Causes (ExceptT Overflow m)

/-- The wording for a catalog that could not be loaded. -/
def loadFailure (path : String) (e : LoadError) : Causes :=
  ("Failed to load the catalog " ++ Text.quoted path) :: e.causes

/-- Loads the catalog that a command works on. -/
def loadCatalog (host : Host m) (options : LoadOptions) (path : String) : Attempt m Catalog := do
  let file ← host.openFile path
  match (Catalog.ofFile file path options).value with
  | .error overflow => throwThe Overflow overflow
  | .ok (.ok c) => pure c
  | .ok (.error e) => throw (loadFailure path e)

/-- A line of output. -/
def line (text : String) : String := text ++ "\n"

/-! ## compile -/

/-- The name of an input in messages. -/
def inputName (path : String) : String := if path = "-" then "<stdin>" else path

/-- The bytes of a file or of standard input. -/
def readInput (host : Host m) (path : String) : m (Except ReadFailure Bytes) := do
  if path = "-" then return .ok (← host.input)
  else return (← host.openFile path).bind ByteStream.all

/-- The text of a PO file. -/
def readText (host : Host m) (path : String) : Attempt m String := do
  let failed := "Failed to read " ++ Text.quoted (inputName path)
  match (← (readInput host path : m (Except ReadFailure Bytes))) with
  | .error f => throw [failed, f.message]
  | .ok data =>
      match Utf8.text? data with
      | some text => pure text
      | none => throw [failed, "stream did not contain valid UTF-8"]

/-- Compiles a PO file. What is printed is the catalog itself, if it goes to standard output. -/
def compile (host : Host m) (input output : String) (options : Po.CompileOptions) :
    Attempt m Bytes := do
  let text ← readText host input
  match (Po.compile text options).value with
  | .error _ => throw ["Failed to parse " ++ Text.quoted (inputName input)]
  | .ok (draft, _) =>
      if output = "-" then return draft.write
      match (← host.writeFile output draft.write) with
      | .ok () => return []
      | .error f => throw ["Failed to write the compiled catalog", f.message]

/-! ## lookup -/

/-- The path of the catalog of a language in a directory. -/
def catalogPath (directory language : String) : String :=
  let file := language ++ ".mo"
  if file.startsWith "/" then file
  else if directory.endsWith "/" then directory ++ file
  else directory ++ "/" ++ file

/-- Tries to make the catalog of a language the active one. -/
def tryLanguage (host : Host m) (options : LoadOptions) (directory language : String) :
    StateT Session (ExceptT Overflow m) Bool := fun s => do
  let path := catalogPath directory language
  match (s.loadFile (← host.openFile path) path options).value with
  | .error overflow => throw overflow
  | .ok (result, s) => return (result.isOk, s)

/-- The session that a lookup translates with. -/
def sessionOf (host : Host m) (options : LoadOptions) : CatalogSource → Attempt m Session
  | .file path => do
      let c ← loadCatalog host options path
      return Session.empty.install c
  | .directory path languages source => do
      let search := Language.select source (tryLanguage host options path) languages
      let (_, s) ← search.run Session.empty
      return s

/-- What a lookup answers. -/
def answer (s : Session) (message : String) (context : Option String)
    (plural : Option (String × Int32)) : String :=
  match context, plural with
  | none, none => s.text message
  | some context, none => s.textIn context message
  | none, some (text, n) => s.plural message text n
  | some context, some (text, n) => s.pluralIn context message text n

/-! ## info -/

/-- The lines of a text without their line feeds, and without the carriage returns before them. -/
def plainLines (text : String) : List String :=
  (Text.lines text.toList).map fun chars =>
    match chars.reverse with
    | '\n' :: '\r' :: rest => String.ofList rest.reverse
    | '\n' :: rest => String.ofList rest.reverse
    | _ => String.ofList chars

/-- The header, the plural rule and the metadata of a catalog. -/
def describe (c : Catalog) : String :=
  let h := c.image.header
  line ("          File: " ++ c.name) ++
  line ("    Byte order: " ++ h.order.name) ++
  line ("      Revision: " ++ toString h.revision) ++
  line ("       Strings: " ++ toString h.count) ++
  line ("    Hash table: " ++ toString h.hashSize ++ " slots") ++
  line ("        Lookup: " ++ c.image.searchName) ++
  line ("  Plural forms: " ++ toString c.rule.count) ++
  line ("   Plural rule: " ++ c.rule.expr.print) ++
  line ("   Translators: " ++ Utf8.lossy c.credits) ++
  match c.image.metadata? with
  | some metadata => line "" ++ String.join ((plainLines (Utf8.lossy metadata)).map line)
  | none => ""

/-! ## dump -/

/-- The entries of a catalog, in PO syntax or as JSON objects. -/
def list (c : Catalog) (json : Option Po.JsonLayout) : String :=
  let entries := c.image.entries.map fun (source, target) => Po.Entry.ofStored source target
  match json with
  | none => Po.listing entries
  | some layout => String.join (entries.map fun e => line (e.toJson layout))

/-! ## plural -/

/-- The rule that a command works on. -/
def ruleOf (host : Host m) (options : LoadOptions) : RuleSource → Attempt m Plural.Rule
  | .expression text =>
      match Plural.Rule.parse (Utf8.encode text) Plural.Rule.default.count with
      | .ok rule => pure rule
      | .error _ => throw ["Failed to parse the plural expression"]
  | .file path => do
      let c ← loadCatalog host options path
      return c.rule

/-- A number and the form that a rule selects for it. -/
def selection (rule : Plural.Rule) (n : Int32) : String :=
  toString n.toInt ++ " => " ++ toString (rule.index n).toInt

/-! ## All commands -/

/-- Does what is asked for, and gives what is to be printed. -/
def perform (host : Host m) (options : LoadOptions) : Action → Attempt m Bytes
  | .compile input output compileOptions => compile host input output compileOptions
  | .lookup source message context plural => do
      let s ← sessionOf host options source
      return Utf8.encode (line (answer s message context plural))
  | .info path => do
      let c ← loadCatalog host options path
      return Utf8.encode (describe c)
  | .dump path json => do
      let c ← loadCatalog host options path
      return Utf8.encode (list c json)
  | .plural source number => do
      let rule ← ruleOf host options source
      return Utf8.encode (line (selection rule number))

/-- What is reported when a command fails. -/
def failureReport (causes : Causes) : String :=
  line ("ERROR: " ++ (Report.entry true "main" causes).message)

/-- Runs the program. A command line that is refused ends it with code two, and a command that
fails with code one. There is no outcome if an overflow ends it. -/
def run (host : Host m) (arguments : List String) : ExceptT Overflow m Outcome := do
  match Invocation.ofArguments? arguments with
  | none => return ⟨2, [], line "the command line was not understood"⟩
  | some invocation =>
      match (← (perform host invocation.options invocation.action).run) with
      | .ok output => return ⟨0, output, ""⟩
      | .error causes => return ⟨1, [], failureReport causes⟩

end MessageCatalog.Command
