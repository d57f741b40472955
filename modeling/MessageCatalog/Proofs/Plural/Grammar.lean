import MessageCatalog.Plural.Expr.Parser
import MessageCatalog.Text.Utf8
import Mathlib.Data.List.DropRight

set_option autoImplicit false

/-! # The grammar of plural expressions

The grammar that `Plural.parse` reads, as an inductive relation between texts and trees:
`Derives s depth word e` says that `word` is derived from the nonterminal `s`, that `e` is the tree
of the derivation, and that the derivation nests `depth` times through `ternary`. The relation says
nothing about how a text is read. It leaves open where a word ends in a longer text, and a chain of
operators is a left recursion instead of a loop.

    ternary    := condition | condition "?" ternary ":" ternary
    level      := operand of the level | level operator operand of the level
    atom       := "(" ternary ")" | "n" | ["-"] digits
-/

namespace MessageCatalog.Plural

/-! ## Nonterminals and operators -/

inductive Nonterminal
  | ternary
  | level (l : Level)
  | atom
  deriving DecidableEq

/-- What the operators of a level stand between: the chains of the next tighter level. -/
def Level.operand : Level → Nonterminal
  | .condition => .level .comparison
  | .comparison => .level .summand
  | .summand => .level .factor
  | .factor => .atom

def Operator.level : Operator → Level
  | .and | .or => .condition
  | .eq | .ne | .lt | .le | .gt | .ge => .comparison
  | .add | .sub => .summand
  | .mul | .div | .rem => .factor

/-- The bytes that an operator is written with. -/
def Operator.spelling (op : Operator) : Bytes := Utf8.encode op.symbol

/-- A token, and blanks and tabs before it. -/
def Spaced (token word : Bytes) : Prop :=
  ∃ blanks, (∀ b ∈ blanks, Cursor.isBlank b = true) ∧ word = blanks ++ token

/-! ## Derivations -/

/-- `word` is derived from the nonterminal, with the given nesting of `ternary` and the given
tree. -/
inductive Derives : Nonterminal → Nat → Bytes → Expr → Prop
  | number {word : Bytes} (h : Spaced [110] word) : Derives .atom 0 word .number
  -- A literal is the exact value of its digits, clamped.
  | integer {digits word : Bytes} (negative : Bool) (hne : digits ≠ [])
      (hdigits : ∀ d ∈ digits, Bytes.isDigit d = true)
      (h : Spaced ((if negative then [45] else []) ++ digits) word) :
      Derives .atom 0 word (.literal (clamp
        (if negative then -(Decimal.value (Bytes.digits digits) : Int)
          else Decimal.value (Bytes.digits digits))))
  | parentheses {opening inner closing : Bytes} {depth : Nat} {e : Expr}
      (hopening : Spaced [40] opening) (hinner : Derives .ternary depth inner e)
      (hclosing : Spaced [41] closing) :
      Derives .atom depth (opening ++ inner ++ closing) e
  | operand {l : Level} {depth : Nat} {word : Bytes} {e : Expr}
      (h : Derives l.operand depth word e) : Derives (.level l) depth word e
  | operation {op : Operator} {i j : Nat} {left sign right : Bytes} {lhs rhs : Expr}
      (hleft : Derives (.level op.level) i left lhs) (hsign : Spaced op.spelling sign)
      (hright : Derives op.level.operand j right rhs) :
      Derives (.level op.level) (max i j) (left ++ sign ++ right) (.binary op lhs rhs)
  | plain {depth : Nat} {word : Bytes} {e : Expr}
      (h : Derives (.level .condition) depth word e) : Derives .ternary (depth + 1) word e
  | conditional {i j k : Nat} {first question second colon third : Bytes}
      {condition ifTrue ifFalse : Expr}
      (hcondition : Derives (.level .condition) i first condition)
      (hquestion : Spaced [63] question) (hifTrue : Derives .ternary j second ifTrue)
      (hcolon : Spaced [58] colon) (hifFalse : Derives .ternary k third ifFalse) :
      Derives .ternary (max i (max j k) + 1) (first ++ question ++ second ++ colon ++ third)
        (.conditional condition ifTrue ifFalse)

variable {s : Nonterminal} {depth : Nat} {word : Bytes} {e : Expr}

theorem Derives.markers_eq_nil (h : Derives s depth word e) : e.markers = [] := by
  induction h with
  | number | integer => rfl
  | parentheses _ _ _ ih | operand _ ih | plain _ ih => exact ih
  | operation _ _ _ ihl ihr => rw [Expr.markers, ihl, ihr]; rfl
  | conditional _ _ _ _ _ ihc iht ihf => rw [Expr.markers, ihc, iht, ihf]; rfl

theorem isInvalid_eq_false (h : e.markers = []) : e.isInvalid = false := by
  cases e with
  | invalid m => simp [Expr.markers] at h
  | literal | number | binary | conditional => rfl

/-! ## Blanks -/

abbrev dropBlanks (text : Bytes) : Bytes := text.dropWhile Cursor.isBlank

theorem dropBlanks_append {blanks : Bytes} (h : ∀ b ∈ blanks, Cursor.isBlank b = true)
    (rest : Bytes) : dropBlanks (blanks ++ rest) = dropBlanks rest :=
  List.dropWhile_append_of_pos h

theorem dropBlanks_spaced {b : UInt8} {token rest : Bytes} (h : Spaced (b :: token) word)
    (hb : Cursor.isBlank b = false) : dropBlanks (word ++ rest) = b :: (token ++ rest) := by
  obtain ⟨blanks, hblanks, rfl⟩ := h
  rw [List.append_assoc, dropBlanks_append hblanks, List.cons_append]
  exact List.dropWhile_cons_of_neg (by simp [hb])

theorem rest_skipBlanks (c : Cursor) : c.skipBlanks.rest = dropBlanks c.rest := by
  have h : c.rest.takeWhile Cursor.isBlank ++ dropBlanks c.rest = c.rest :=
    List.takeWhile_append_dropWhile
  calc c.skipBlanks.rest
      = (c.rest.takeWhile Cursor.isBlank ++ dropBlanks c.rest).drop
          (c.rest.takeWhile Cursor.isBlank).length := by rw [h]; rfl
    _ = dropBlanks c.rest := List.drop_left

theorem rest_advance {c : Cursor} {token rest : Bytes} (h : c.rest = token ++ rest) :
    (c.advance token.length).rest = rest := by
  show c.rest.drop token.length = rest
  rw [h, List.drop_left]

theorem rest_advance_one {c : Cursor} {b : UInt8} {rest : Bytes} (h : c.rest = b :: rest) :
    (c.advance 1).rest = rest := by
  show c.rest.drop 1 = rest
  rw [h]
  rfl

theorem dropBlanks_dropBlanks (text : Bytes) : dropBlanks (dropBlanks text) = dropBlanks text :=
  List.dropWhile_idempotent _ _

theorem exists_blanks (text : Bytes) :
    ∃ blanks, (∀ b ∈ blanks, Cursor.isBlank b = true) ∧ text = blanks ++ dropBlanks text :=
  ⟨text.takeWhile Cursor.isBlank, fun _ hb => List.mem_takeWhile_imp hb,
    List.takeWhile_append_dropWhile.symm⟩

/-! ## Operators in a text -/

/-- An operator is recognized, unless an equals sign behind it makes it another one. -/
theorem operator?_spelling (op : Operator) {rest : Bytes} (h : rest.head? ≠ some 61) :
    op.level.operator? (op.spelling ++ rest) = some (op, op.spelling.length) := by
  have hrest : ∀ tail, rest ≠ 61 :: tail := fun tail e => h (by rw [e]; rfl)
  cases op with
  | lt =>
      show Level.operator? .comparison (60 :: rest) = some (.lt, 1)
      simp [Level.operator?]
  | gt =>
      show Level.operator? .comparison (62 :: rest) = some (.gt, 1)
      simp [Level.operator?]
  | _ => rfl

/-- What is recognized as an operator is its spelling. -/
theorem eq_spelling_append {l : Level} {text : Bytes} {op : Operator} {width : Nat}
    (h : l.operator? text = some (op, width)) :
    op.level = l ∧ width = op.spelling.length ∧ text = op.spelling ++ text.drop width := by
  revert h
  fun_cases Level.operator? l text with
  | case14 => simp
  | _ =>
      intro h
      obtain ⟨rfl, rfl⟩ := Prod.mk.inj (Option.some.inj h)
      exact ⟨rfl, rfl, rfl⟩

theorem dropBlanks_sign {op : Operator} {sign : Bytes} (h : Spaced op.spelling sign)
    (rest : Bytes) : dropBlanks (sign ++ rest) = op.spelling ++ rest := by
  cases op <;> exact dropBlanks_spaced h rfl

/-! ## The first byte of a word -/

theorem Spaced.head?_ne {b : UInt8} {token : Bytes} (h : Spaced (b :: token) word) (hb : b ≠ 61)
    (rest : Bytes) : (word ++ rest).head? ≠ some 61 := by
  obtain ⟨blanks, hblanks, rfl⟩ := h
  cases blanks with
  | nil => simpa using hb
  | cons a blanks =>
      have ha := hblanks a List.mem_cons_self
      rintro h
      obtain rfl : a = 61 := by simpa using h
      exact absurd ha (by decide)

/-- No word starts with an equals sign. -/
theorem Derives.head?_ne (h : Derives s depth word e) (rest : Bytes) :
    (word ++ rest).head? ≠ some 61 := by
  induction h generalizing rest with
  | number h => exact h.head?_ne (by decide) rest
  | @integer digits word negative hne hdigits h =>
      cases negative with
      | true => exact Spaced.head?_ne h (by decide) rest
      | false =>
          obtain ⟨d, digits, rfl⟩ := List.exists_cons_of_ne_nil hne
          refine Spaced.head?_ne h ?_ rest
          rintro rfl
          exact absurd (hdigits 61 List.mem_cons_self) (by decide)
  | parentheses hopening =>
      rw [List.append_assoc, List.append_assoc]
      exact hopening.head?_ne (by decide) _
  | operand _ ih | plain _ ih => exact ih rest
  | operation _ _ _ ih =>
      rw [List.append_assoc, List.append_assoc]
      exact ih _
  | conditional _ _ _ _ _ ih =>
      simp only [List.append_assoc]
      exact ih _

end MessageCatalog.Plural
