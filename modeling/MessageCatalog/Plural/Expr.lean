import MessageCatalog.Text.Diagnostic

set_option autoImplicit false

/-! # Plural expressions

A text that speaks of `n` things has several forms. Which one is used is decided by an expression
in the number `n`, written in a small part of the syntax of C. This file holds the expressions:
their tree, their value, and their printed form.

Values are 32-bit words. Arithmetic wraps around, and a division or remainder by zero is zero, so
every expression has a value for every `n`.

A tree may hold *markers* in places where the text of an expression made no sense. `Expr.markers`
lists them from left to right. `firstMarker?` looks for the first one by a work list instead of
walking the whole tree.
-/

namespace MessageCatalog.Plural

/-- The binary operators. -/
inductive Operator
  | add | sub | mul | div | rem
  | eq | ne | lt | le | gt | ge
  | and | or
  deriving Repr, DecidableEq

/-- A truth value as a number. -/
def truth (b : Bool) : Int32 := if b then 1 else 0

namespace Operator

/-- How the operator is written. -/
def symbol : Operator → String
  | add => "+"
  | sub => "-"
  | mul => "*"
  | div => "/"
  | rem => "%"
  | eq => "=="
  | ne => "!="
  | lt => "<"
  | le => "<="
  | gt => ">"
  | ge => ">="
  | and => "&&"
  | or => "||"

/-- The value of the operator for the values of its operands. Division truncates towards zero and
a remainder has the sign of the dividend. -/
def apply (op : Operator) (l r : Int32) : Int32 :=
  match op with
  | add => l + r
  | sub => l - r
  | mul => l * r
  | div => if r = 0 then 0 else l / r
  | rem => if r = 0 then 0 else l % r
  | eq => truth (l = r)
  | ne => truth (l ≠ r)
  | lt => truth (l < r)
  | le => truth (l ≤ r)
  | gt => truth (r < l)
  | ge => truth (r ≤ l)
  | and => truth (l ≠ 0 ∧ r ≠ 0)
  | or => truth (l ≠ 0 ∨ r ≠ 0)

end Operator

/-- What can be wrong with the text of an expression. -/
inductive Fault
  | tooLong
  | tooDeep
  | missingColon
  | missingParenthesis
  | missingOperand
  | endOfText
  | trailingText
  /-- A reason given by whoever built the tree by hand. -/
  | other (reason : String)
  deriving Repr, DecidableEq

/-- The wording of a fault. -/
def Fault.message : Fault → String
  | tooLong => "expression is too long"
  | tooDeep => "expression is nested too deeply"
  | missingColon => "expected ':' of a conditional expression"
  | missingParenthesis => "expected ')'"
  | missingOperand => "expected an operand"
  | endOfText => "expected an operand, found the end of the expression"
  | trailingText => "unexpected character after the expression"
  | other reason => reason

/-- A fault and the byte of the text at which it was found. -/
structure Marker where
  byte : Nat
  fault : Fault
  deriving Repr, DecidableEq

/-- The error that a marker stands for. The text of an expression is one line in which each byte
is one column. -/
def Marker.error (m : Marker) : Text.SyntaxError := ⟨.inLine m.byte, m.fault.message⟩

/-- An expression in the number `n`. -/
inductive Expr
  | literal (value : Int32)
  | number
  | binary (op : Operator) (lhs rhs : Expr)
  | conditional (condition ifTrue ifFalse : Expr)
  | invalid (marker : Marker)
  deriving Repr, DecidableEq

namespace Expr

/-- The value of an expression. The second operand of a logical operator counts only if the first
one leaves the answer open, and a conditional has the value of the branch that is taken. -/
def eval (n : Int32) : Expr → Int32
  | literal value => value
  | number => n
  | binary .and lhs rhs => if lhs.eval n = 0 then 0 else truth (rhs.eval n ≠ 0)
  | binary .or lhs rhs => if lhs.eval n = 0 then truth (rhs.eval n ≠ 0) else 1
  | binary op lhs rhs => op.apply (lhs.eval n) (rhs.eval n)
  | conditional condition ifTrue ifFalse =>
      if condition.eval n = 0 then ifFalse.eval n else ifTrue.eval n
  | invalid _ => 0

/-- The expression in text. Every compound subexpression stands in parentheses, which shows how
operators were taken together. -/
def print : Expr → String
  | literal value => toString value.toInt
  | number => "n"
  | binary op lhs rhs => "(" ++ lhs.print ++ " " ++ op.symbol ++ " " ++ rhs.print ++ ")"
  | conditional condition ifTrue ifFalse =>
      "(" ++ condition.print ++ " ? " ++ ifTrue.print ++ " : " ++ ifFalse.print ++ ")"
  | invalid m => "<invalid at " ++ toString m.byte ++ ": " ++ m.fault.message ++ ">"

/-- The number of nodes of the tree. -/
def size : Expr → Nat
  | literal _ | number | invalid _ => 1
  | binary _ lhs rhs => 1 + lhs.size + rhs.size
  | conditional condition ifTrue ifFalse => 1 + condition.size + ifTrue.size + ifFalse.size

/-- The markers of the tree from left to right. -/
def markers : Expr → List Marker
  | literal _ | number => []
  | binary _ lhs rhs => lhs.markers ++ rhs.markers
  | conditional condition ifTrue ifFalse =>
      condition.markers ++ ifTrue.markers ++ ifFalse.markers
  | invalid m => [m]

/-- The tree is nothing but a marker. -/
def isInvalid : Expr → Bool
  | invalid _ => true
  | _ => false

/-- The number of nodes of several trees. -/
def totalSize : List Expr → Nat
  | [] => 0
  | e :: rest => e.size + totalSize rest

end Expr

/-- The first marker of a list of trees: the head of the list is looked at, and its subtrees take
its place in the list, leftmost first. -/
def firstMarker? : List Expr → Option Marker
  | [] => none
  | .literal _ :: rest => firstMarker? rest
  | .number :: rest => firstMarker? rest
  | .binary _ lhs rhs :: rest => firstMarker? (lhs :: rhs :: rest)
  | .conditional condition ifTrue ifFalse :: rest =>
      firstMarker? (condition :: ifTrue :: ifFalse :: rest)
  | .invalid m :: _ => some m
termination_by stack => Expr.totalSize stack
decreasing_by all_goals simp only [Expr.totalSize, Expr.size]; omega

/-- The work list finds the first of all markers. -/
theorem firstMarker?_eq_head? (stack : List Expr) :
    firstMarker? stack = (stack.flatMap Expr.markers).head? := by
  fun_induction firstMarker? stack with
  | case1 => rfl
  | case2 value rest ih => simpa [Expr.markers] using ih
  | case3 rest ih => simpa [Expr.markers] using ih
  | case4 op lhs rhs rest ih => simpa [Expr.markers] using ih
  | case5 condition ifTrue ifFalse rest ih => simpa [Expr.markers] using ih
  | case6 m rest => rfl

end MessageCatalog.Plural
