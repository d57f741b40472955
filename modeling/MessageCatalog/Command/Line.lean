import MessageCatalog.Command.Arguments
import MessageCatalog.Po.Compile
import MessageCatalog.Po.Entry

set_option autoImplicit false

/-! # Command lines

The program compiles, inspects and queries catalogs by one of five commands.
`Invocation.ofArguments?` reads a command line: the name of a command, its options and positionals,
and the options that every command shares, which may stand before the name too. A command line that
does not say what to do is refused as a whole.
-/

namespace MessageCatalog.Command

/-- Where the catalog of a lookup comes from. -/
inductive CatalogSource
  | file (path : String)
  /-- A directory of catalogs named for their languages, the preferred languages, and the language
  of the untranslated texts. -/
  | directory (path : String) (languages : List String) (source : String)
  deriving Repr, DecidableEq

/-- Where a plural rule comes from. -/
inductive RuleSource
  | expression (text : String)
  | file (path : String)
  deriving Repr, DecidableEq

/-- What to do. A path that is a dash stands for standard input or output. -/
inductive Action
  /-- Compiles a PO file into a catalog. -/
  | compile (input output : String) (options : Po.CompileOptions)
  /-- Translates a message, which has a plural text and a number if a form is asked for. -/
  | lookup (source : CatalogSource) (message : String) (context : Option String)
      (plural : Option (String × Int32))
  /-- Shows the header and the metadata of a catalog. -/
  | info (path : String)
  /-- Lists the entries of a catalog, in PO syntax or as JSON. -/
  | dump (path : String) (json : Option Po.JsonLayout)
  /-- Shows the form that a plural rule selects for a number. -/
  | plural (source : RuleSource) (number : Int32)
  deriving Repr, DecidableEq

/-- A command line: what to do, and what to accept as a catalog. -/
structure Invocation where
  action : Action
  options : LoadOptions
  deriving Repr, DecidableEq

/-! ## Options -/

/-- An option with a value. -/
def valued (name : String) (letter : Option Char := none) : OptionSpec :=
  { name, letter, takesValue := true }

/-- An option without a value. -/
def flag (name : String) (letter : Option Char := none) : OptionSpec := { name, letter }

/-- The options of every command. -/
def sharedOptions : List OptionSpec :=
  [flag "verbose" (some 'v'), valued "max-catalog-size", flag "verify-sorted"]

/-- The commands: their names and what they take besides the shared options. -/
def commands : List (String × ArgumentSpec) :=
  [("compile",
    { options := [valued "output" (some 'o'), flag "use-fuzzy" (some 'f'), flag "no-hash",
        flag "big-endian"]
      positionals := [{ name := "PO_FILE" }] }),
   ("lookup",
    { options := [valued "catalog" (some 'c'), valued "locale-dir" (some 'd'),
        { valued "language" (some 'l') with repeatable := true }, valued "source-language",
        valued "context", valued "plural",
        { valued "count" (some 'n') with dashedValue := true }]
      positionals := [{ name := "MSGID" }] }),
   ("info", { options := [], positionals := [{ name := "MO_FILE" }] }),
   ("dump",
    { options := [flag "json" (some 'J'), flag "compact-output" (some 'c')]
      positionals := [{ name := "MO_FILE" }] }),
   ("plural",
    { options := [valued "expression" (some 'e'), valued "catalog" (some 'c')]
      positionals := [{ name := "N", dashedValue := true }] })]

/-- The arguments before the name of a command, the name, and the arguments after it. A value that
an option waits for is no name, even if it looks like one. -/
def splitName? (shared : ArgumentSpec) : Scan → List String → Option (Found × String × List String)
  | _, [] => none
  | s, argument :: rest =>
      if !s.trailing && s.waiting.isNone && (commands.lookup argument).isSome then
        some (s.found, argument, rest)
      else (s.step? shared argument).bind fun s => splitName? shared s rest

/-! ## Commands -/

/-- A path that may not be empty. -/
def path? (text : String) : Option String := if text.isEmpty then none else some text

/-- The value of an option that may be left out: `some none` if it is, `none` if its value is not
acceptable. -/
def optional? {α : Type} (f : Found) (name : String) (read? : String → Option α) :
    Option (Option α) :=
  match f.value? name with
  | none => some none
  | some text => (read? text).map some

/-- The only positional. -/
def positional? (f : Found) : Option String :=
  match f.positionals with
  | [value] => some value
  | _ => none

/-- What to accept as a catalog. Options after the name of the command go before those that stand
in front of it. -/
def loadOptions? (before after : Found) : Option LoadOptions := do
  -- Both values are read, so a bad one is refused even where the other one counts.
  let outer ← optional? before "max-catalog-size" byteCount?
  let inner ← optional? after "max-catalog-size" byteCount?
  return {
    maxSize := (inner.orElse fun _ => outer).getD ({} : LoadOptions).maxSize
    checkOrder := before.has "verify-sorted" || after.has "verify-sorted" }

/-- The command `compile`. -/
def compile? (f : Found) : Option Action := do
  let input ← positional? f
  let output ← f.value? "output"
  return .compile input output {
    useFuzzy := f.has "use-fuzzy"
    hashed := !f.has "no-hash"
    order := if f.has "big-endian" then .big else .little }

/-- The catalog of the command `lookup`: either a file or a directory, and a directory only
together with languages. -/
def catalogSource? (f : Found) : Option CatalogSource := do
  let file ← optional? f "catalog" path?
  let directory ← optional? f "locale-dir" path?
  match file, directory with
  | some path, none => return .file path
  | none, some path =>
      if f.has "language" then
        return .directory path (f.values "language") ((f.value? "source-language").getD "en")
      else none
  | _, _ => none

/-- The command `lookup`. A plural text needs a number. -/
def lookup? (f : Found) : Option Action := do
  let message ← positional? f
  let source ← catalogSource? f
  let count ← optional? f "count" int32?
  let plural ← match f.value? "plural", count with
    | none, _ => some none
    | some text, some n => some (some (text, n))
    | some _, none => none
  return .lookup source message (f.value? "context") plural

/-- The command `info`. -/
def info? (f : Found) : Option Action := do
  let path ← (positional? f).bind path?
  return .info path

/-- The command `dump`. Compact output is a way to write JSON. -/
def dump? (f : Found) : Option Action := do
  let path ← (positional? f).bind path?
  match f.has "json", f.has "compact-output" with
  | true, true => return .dump path (some .compact)
  | true, false => return .dump path (some .pretty)
  | false, false => return .dump path none
  | false, true => none

/-- The command `plural`: a rule from an expression or from a catalog, and one number. -/
def plural? (f : Found) : Option Action := do
  let number ← (positional? f).bind int32?
  let file ← optional? f "catalog" path?
  match f.value? "expression", file with
  | some text, none => return .plural (.expression text) number
  | none, some path => return .plural (.file path) number
  | _, _ => none

/-- The command with a name. -/
def action? (name : String) (f : Found) : Option Action :=
  match name with
  | "compile" => compile? f
  | "lookup" => lookup? f
  | "info" => info? f
  | "dump" => dump? f
  | "plural" => plural? f
  | _ => none

/-- Reads a command line. -/
def Invocation.ofArguments? (arguments : List String) : Option Invocation := do
  let shared : ArgumentSpec := { options := sharedOptions }
  let (before, name, rest) ← splitName? shared {} arguments
  let own ← commands.lookup name
  let spec := { own with options := own.options ++ sharedOptions }
  let after ← scan spec rest
  if before.check shared && after.check spec then
    let options ← loadOptions? before after
    let action ← action? name after
    return ⟨action, options⟩
  else none

end MessageCatalog.Command
