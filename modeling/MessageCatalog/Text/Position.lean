set_option autoImplicit false

/-! # Positions and lines

A position says where in a text a character stands: by the bytes before it, by its number, and by
line and column. Only the byte index starts at zero; characters, lines and columns are counted
from one. The position that is all zeros lies before the first character.

`positions` pairs every character with its position, and that is the only place where lines are
counted. `lines` cuts a text into lines in a second way, without positions, and `line?` finds the
text of one line by its number.
-/

namespace MessageCatalog.Text

/-- A place in a text. -/
structure Position where
  byte : Nat
  char : Nat
  line : Nat
  column : Nat
  deriving Repr, DecidableEq, Inhabited

namespace Position

/-- Before the first character. -/
def origin : Position := ⟨0, 0, 0, 0⟩

/-- The first character. -/
def first : Position := ⟨0, 1, 1, 1⟩

/-- The position after a character: a line feed is the last character of its line. -/
def next (p : Position) (c : Char) : Position :=
  if c = '\n' then ⟨p.byte + c.utf8Size, p.char + 1, p.line + 1, 1⟩
  else ⟨p.byte + c.utf8Size, p.char + 1, p.line, p.column + 1⟩

/-- A place in a source of one line in which each byte counts as one column. -/
def inLine (byte : Nat) : Position := ⟨byte, byte, 1, byte + 1⟩

end Position

/-- A character and where it stands. -/
abbrev Placed := Position × Char

/-- The characters of a text that starts at a given position. -/
def positionsFrom (p : Position) : List Char → List Placed
  | [] => []
  | c :: rest => (p, c) :: positionsFrom (p.next c) rest

/-- The characters of a text with their positions. -/
def positions (text : List Char) : List Placed := positionsFrom .first text

/-- The lines of a text, each with the line feed that ends it. -/
def lines : List Char → List (List Char)
  | [] => []
  | c :: rest =>
      if c = '\n' then [c] :: lines rest
      else match lines rest with
        | [] => [[c]]
        | line :: more => (c :: line) :: more

/-- The line with a given number. It is cut before its line feed, unless the line feed is all
there is of it. -/
def line? (text : List Char) (number : Nat) : Option (List Char) :=
  match (positions text).dropWhile fun placed => placed.1.line ≠ number with
  | [] => none
  | (_, c) :: rest =>
      let more := rest.takeWhile fun placed => placed.2 ≠ '\n' && placed.1.line = number
      some (c :: more.map Prod.snd)

/-- Forgetting the positions gives the text back. -/
theorem map_snd_positionsFrom (p : Position) (text : List Char) :
    (positionsFrom p text).map Prod.snd = text := by
  induction text generalizing p with
  | nil => rfl
  | cons c rest ih => simp [positionsFrom, ih]

/-- No character is lost between the lines. -/
theorem flatten_lines (text : List Char) : (lines text).flatten = text := by
  induction text with
  | nil => rfl
  | cons c rest ih =>
    by_cases h : c = '\n'
    · simp [lines, h, ih]
    · simp only [lines, h, if_false]
      cases hl : lines rest with
      | nil => rw [hl] at ih; simp [← ih]
      | cons line more => rw [hl] at ih; simp [← ih]

end MessageCatalog.Text
