import MessageCatalog.Log
import MessageCatalog.Separated

set_option autoImplicit false

/-! # Reporting errors

An error is reported with its causes: the outermost message first, and below it the chain of what
led to it. A single cause is only indented. Several causes are numbered, and the lines of one that
has more than one line stay below each other.
-/

namespace MessageCatalog.Report

/-- Text moved to the right: the first line starts with `lead`, and each of the others with as
many blanks. -/
def indented (lead text : String) : String :=
  let margin := "\n" ++ String.ofList (List.replicate lead.length ' ')
  lead ++ margin.intercalate ((Separated.split '\n' text.toList).map String.ofList)

/-- The number of a cause, set flush right in five columns. -/
def numbering (n : Nat) : String :=
  let digits := toString n
  String.ofList (List.replicate (5 - digits.length) ' ') ++ digits ++ ": "

/-- Numbered causes, each on a new line. -/
def numbered : Nat → List String → String
  | _, [] => ""
  | n, cause :: rest => "\n" ++ indented (numbering n) cause ++ numbered (n + 1) rest

/-- A message with its causes. -/
def render (message : String) : List String → String
  | [] => message
  | [cause] => message ++ "\n\nCaused by:\n" ++ indented "    " cause
  | causes => message ++ "\n\nCaused by:" ++ numbered 0 causes

/-- What an error is called that ends a program, or does not, in a thread. -/
def heading (critical : Bool) (thread : String) : String :=
  (if critical then "CRITICAL ERROR" else "non-critical error") ++ " in thread '" ++ thread ++ "'"

/-- The remark about an error with the given causes, outermost first. -/
def entry (critical : Bool) (thread : String) (causes : List String) : LogEntry :=
  ⟨if critical then .error else .warning, render (heading critical thread) causes⟩

end MessageCatalog.Report
