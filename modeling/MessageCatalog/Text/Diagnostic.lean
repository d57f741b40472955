import MessageCatalog.Text.Position

set_option autoImplicit false

/-! # Diagnostics for syntax errors

A syntax error is a message and a position. With the source at hand it is shown as the offending
line with a caret below the offending column; without it, or if the source has no such line, as
the message alone.
-/

namespace MessageCatalog.Text

/-- Something in a text that does not follow its syntax. -/
structure SyntaxError where
  position : Position
  message : String
  deriving Repr, DecidableEq

/-- A line without the carriage returns and line feeds at its end. -/
def trimLineEnd (line : List Char) : List Char :=
  (line.reverse.dropWhile fun c => c = '\r' || c = '\n').reverse

/-- A margin of the given width. -/
def spaces (width : Nat) : String := String.ofList (List.replicate width ' ')

namespace SyntaxError

/-- The first line of a diagnostic. -/
def heading (e : SyntaxError) (file : String) : String :=
  "Syntax error in " ++ file ++ ":" ++ toString e.position.line ++ ":" ++
    toString e.position.column ++ "\n"

/-- The error with the line it lies in. Columns are counted from one and the bar takes the place
of a separating blank, so the caret stands below the column. -/
def diagnostic (e : SyntaxError) (file source : String) : String :=
  match line? source.toList e.position.line with
  | none => e.heading file ++ e.message
  | some line =>
      let number := toString e.position.line
      let margin := spaces number.length
      e.heading file ++
        number ++ " | " ++ String.ofList (trimLineEnd line) ++ "\n" ++
        margin ++ " |" ++ spaces e.position.column ++ "^\n" ++
        margin ++ " = " ++ e.message

/-- The error on its own, when neither the file nor its text is known. -/
def summary (e : SyntaxError) : String := e.heading "<unknown>" ++ e.message

end SyntaxError

end MessageCatalog.Text
