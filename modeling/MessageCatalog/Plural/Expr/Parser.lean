import MessageCatalog.Bytes
import MessageCatalog.Decimal
import MessageCatalog.Plural.Expr

set_option autoImplicit false

/-! # Reading plural expressions

The grammar, with blanks and tabs allowed before every token:

    ternary    := condition [ "?" ternary ":" ternary ]
    condition  := comparison { ( "&&" | "||" ) comparison }
    comparison := summand { ( "==" | "!=" | "<=" | ">=" | "<" | ">" ) summand }
    summand    := factor { ( "+" | "-" ) factor }
    factor     := atom { ( "*" | "/" | "%" ) atom }
    atom       := "(" ternary ")" | "n" | integer

Operators of one level associate to the left. A minus sign belongs to an integer if it stands
where an operand is expected and a digit follows it. Integers are clamped to 32 bits.

Reading never stops early. Where the text makes no sense a marker takes the place of the missing
part, and the first marker of the finished tree is the error that is reported. Two limits keep
the tree small: `ternary` nests at most `maxDepth` deep, and the node that would make the tree
larger than `maxNodes` is replaced by a marker.
-/

namespace MessageCatalog.Plural

/-- How deep the rule `ternary` may nest. -/
def maxDepth : Nat := 64

/-- How many nodes a tree may have. -/
def maxNodes : Nat := 1024

/-- What is left of a text, the number of bytes before it, and the nodes counted so far. -/
structure Cursor where
  rest : Bytes
  byte : Nat
  nodes : Nat
  deriving Repr, DecidableEq

namespace Cursor

/-- Before the first byte of a text. -/
def start (text : Bytes) : Cursor := ⟨text, 0, 0⟩

/-- Past the next `count` bytes. -/
def advance (c : Cursor) (count : Nat) : Cursor :=
  { c with rest := c.rest.drop count, byte := c.byte + count }

/-- A blank between tokens. -/
def isBlank (b : UInt8) : Bool := b == 32 || b == 9

/-- Past the blanks. -/
def skipBlanks (c : Cursor) : Cursor := c.advance (c.rest.takeWhile isBlank).length

/-- A marker for a fault found at the cursor. -/
def fault (c : Cursor) (f : Fault) : Expr := .invalid ⟨c.byte, f⟩

/-- Counts a node, and puts a marker in its place once there are too many. -/
def node (c : Cursor) (e : Expr) : Expr × Cursor :=
  let counted := { c with nodes := c.nodes + 1 }
  if maxNodes < counted.nodes then (c.fault .tooLong, counted) else (e, counted)

end Cursor

/-- The levels of the grammar that are chains of operators, tightest first. -/
inductive Level
  | factor | summand | comparison | condition
  deriving Repr, DecidableEq

/-- The operator of a level that a text starts with, and the number of its bytes. -/
def Level.operator? : Level → Bytes → Option (Operator × Nat)
  | .factor, 42 :: _ => some (.mul, 1)
  | .factor, 47 :: _ => some (.div, 1)
  | .factor, 37 :: _ => some (.rem, 1)
  | .summand, 43 :: _ => some (.add, 1)
  | .summand, 45 :: _ => some (.sub, 1)
  | .comparison, 61 :: 61 :: _ => some (.eq, 2)
  | .comparison, 33 :: 61 :: _ => some (.ne, 2)
  | .comparison, 60 :: 61 :: _ => some (.le, 2)
  | .comparison, 62 :: 61 :: _ => some (.ge, 2)
  | .comparison, 60 :: _ => some (.lt, 1)
  | .comparison, 62 :: _ => some (.gt, 1)
  | .condition, 38 :: 38 :: _ => some (.and, 2)
  | .condition, 124 :: 124 :: _ => some (.or, 2)
  | _, _ => none

/-- An integer clamped to 32 bits. -/
def clamp (value : Int) : Int32 :=
  if value < Int32.minValue.toInt then Int32.minValue
  else if Int32.maxValue.toInt < value then Int32.maxValue
  else Int32.ofInt value

theorem clamp_of_lt {value : Int} (h : value < Int32.minValue.toInt) :
    clamp value = Int32.minValue := if_pos h

theorem clamp_of_gt {value : Int} (h : Int32.maxValue.toInt < value) :
    clamp value = Int32.maxValue := by
  have : Int32.minValue.toInt = -2147483648 := by decide
  have : Int32.maxValue.toInt = 2147483647 := by decide
  rw [clamp, if_neg (by omega), if_pos h]

/-- Whatever does not fit into 32 bits is clamped alike, with either sign, so no literal has to be
counted any further. -/
theorem clamp_min (value : Nat) :
    clamp (min UInt32.size value : Nat) = clamp value ∧
      clamp (-(min UInt32.size value : Nat)) = clamp (-value) := by
  have hmin : Int32.minValue.toInt = -2147483648 := by decide
  have hmax : Int32.maxValue.toInt = 2147483647 := by decide
  have hsize : UInt32.size = 4294967296 := rfl
  rcases Nat.le_total value UInt32.size with h | h
  · simp [Nat.min_eq_right h]
  · rw [Nat.min_eq_left h]
    exact ⟨(clamp_of_gt (by omega)).trans (clamp_of_gt (by omega)).symm,
      (clamp_of_lt (by omega)).trans (clamp_of_lt (by omega)).symm⟩

/-- A rule of the grammar: it reads a tree and says where the text goes on. -/
abbrev Reader := Cursor → Expr × Cursor

/-- The operators and operands that follow a first operand. Every round reads an operator, so
there are no more rounds than bytes. -/
def chainFrom (operand : Reader) (level : Level) : Nat → Expr → Reader
  | 0, lhs, c => (lhs, c)
  | rounds + 1, lhs, c =>
      -- After a marker the text makes no sense, and nothing more is read at this level.
      if lhs.isInvalid then (lhs, c)
      else
        let c := c.skipBlanks
        match level.operator? c.rest with
        | none => (lhs, c)
        | some (op, width) =>
            let (rhs, c) := operand (c.advance width)
            let (lhs, c) := c.node (.binary op lhs rhs)
            chainFrom operand level rounds lhs c

/-- A chain of operators of one level. -/
def chain (operand : Reader) (level : Level) : Reader := fun c =>
  let (first, c) := operand c
  chainFrom operand level c.rest.length first c

/-- The digits at the cursor as a literal. -/
def integer (negative : Bool) : Reader := fun c =>
  let digits := c.rest.takeWhile Bytes.isDigit
  let value : Int := Decimal.valueUpTo UInt32.size (Bytes.digits digits)
  (c.advance digits.length).node (.literal (clamp (if negative then -value else value)))

/-- An atom, given the rule for what may stand in parentheses. -/
def atom (nested : Reader) : Reader := fun c =>
  let c := c.skipBlanks
  match c.rest with
  | [] => (c.fault .endOfText, c)
  | b :: rest =>
      if b = 40 then
        let (inner, c) := nested (c.advance 1)
        if inner.isInvalid then (inner, c)
        else
          let c := c.skipBlanks
          if c.rest.head? = some 41 then (inner, c.advance 1)
          else (c.fault .missingParenthesis, c)
      else if b = 110 then (c.advance 1).node .number
      else if Bytes.isDigit b then integer false c
      -- Only here, where an operand is expected, is a minus sign a part of an integer.
      else if b = 45 && rest.head?.any Bytes.isDigit then integer true (c.advance 1)
      else (c.fault .missingOperand, c)

/-- All four levels of operators over an atom. -/
def condition (nested : Reader) : Reader :=
  chain (chain (chain (chain (atom nested) .factor) .summand) .comparison) .condition

/-- The rule `ternary` where it may nest `depth` more times. -/
def ternary : Nat → Reader
  | 0 => fun c => (c.fault .tooDeep, c)
  | depth + 1 => fun c =>
      let (cond, c) := condition (ternary depth) c
      let c := c.skipBlanks
      if c.rest.head? = some 63 then
        let (ifTrue, c) := ternary depth (c.advance 1)
        let c := c.skipBlanks
        if c.rest.head? = some 58 then
          let (ifFalse, c) := ternary depth (c.advance 1)
          c.node (.conditional cond ifTrue ifFalse)
        -- The conditional is counted even though one of its branches is missing.
        else c.node (.conditional cond ifTrue (c.fault .missingColon))
      else (cond, c)

/-- A byte that ends an expression: a semicolon or a line break. -/
def isTerminator (b : UInt8) : Bool := b == 59 || b == 13 || b == 10

/-- Reads an expression. It ends at a terminator or with the text; what follows a terminator is
ignored. -/
def parse (text : Bytes) : Except Marker Expr :=
  let (e, c) := ternary maxDepth (.start text)
  match firstMarker? [e] with
  | some m => .error m
  | none =>
      let c := c.skipBlanks
      if c.rest.head?.all isTerminator then .ok e else .error ⟨c.byte, .trailingText⟩

end MessageCatalog.Plural
