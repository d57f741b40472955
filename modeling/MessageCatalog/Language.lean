import MessageCatalog.Log
import MessageCatalog.Text.Quoted

set_option autoImplicit false

/-! # Choosing a language

A user prefers some languages, most wanted first. Each is tried under its own name and then under
its base name, which leaves out region, script and other specifiers. The search ends at the first
language that can be loaded, or at the language of the untranslated texts, which needs no catalog.
-/

namespace MessageCatalog.Language

/-- A character that starts a specifier. -/
def startsSpecifier (c : Char) : Bool := c == '-' || c == '_' || c == '.' || c == '@'

/-- The name of a language without specifiers, such as `pt` for `pt_BR`. -/
def base (language : String) : String :=
  String.ofList (language.toList.takeWhile fun c => !startsSpecifier c)

/-- The names to try for a language, in order. -/
def names (language : String) : List String :=
  if language.isEmpty then []
  else if base language = language || (base language).isEmpty then [language]
  else [language, base language]

/-- The outcome of a search. -/
inductive Selection
  | translated (language : String)
  /-- The language of the untranslated texts came first. -/
  | source
  | unavailable
  deriving Repr, DecidableEq

variable {m : Type → Type} [Monad m]

/-- Tries names one after another. -/
def selectName (source : String) (load : String → m Bool) : List String → m (Option Selection)
  | [] => pure none
  | name :: rest => do
      -- The source language needs no catalog, so nothing is loaded for it.
      if name = source then pure (some .source)
      else if (← load name) then pure (some (.translated name))
      else selectName source load rest

/-- Searches the preferred languages for one that can be loaded. -/
def select (source : String) (load : String → m Bool) : List String → m Selection
  | [] => pure .unavailable
  | language :: rest => do
      match (← selectName source load (names language)) with
      | some selection => pure selection
      | none => select source load rest

/-- What is remarked about an outcome. -/
def Selection.log (source : String) : Selection → List LogEntry
  | .source => [⟨.debug, "preferred language " ++ Text.quoted source ++ " is the source language"⟩]
  | _ => []

end MessageCatalog.Language
