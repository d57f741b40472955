import MessageCatalog.Plural.Rule
import MessageCatalog.Proofs.Plural.Completeness
import MessageCatalog.Proofs.Text.Numeral

set_option autoImplicit false

/-! # Printed expressions

`Expr.print` puts every compound expression in parentheses, which makes its text an atom of the
grammar (`derives_print`), and an atom may stand as an operand of any level. So a printed tree is
read as the same tree, as long as it keeps to the limits of `parse`. Parentheses and the branches
of a conditional nest through `ternary`; how often they do so in a printed tree is its `nesting`.
-/

namespace MessageCatalog.Plural

variable {s : Nonterminal} {l : Level} {depth : Nat} {word : Bytes} {e : Expr}

/-- How deep the printed tree nests: once for the parentheses around a compound expression, and
once more for each branch of a conditional. -/
def Expr.nesting : Expr → Nat
  | literal _ | number | invalid _ => 0
  | binary _ lhs rhs => 1 + max lhs.nesting rhs.nesting
  | conditional condition ifTrue ifFalse =>
      1 + max condition.nesting (max (1 + ifTrue.nesting) (1 + ifFalse.nesting))

/-! ## Where an atom may stand -/

/-- A blank may stand before any word. -/
theorem Derives.blank (h : Derives s depth word e) : Derives s depth (32 :: word) e := by
  have hspaced : ∀ {token word : Bytes}, Spaced token word → Spaced token (32 :: word) := by
    rintro token _ ⟨blanks, hblanks, rfl⟩
    refine ⟨32 :: blanks, fun b hb => ?_, rfl⟩
    rcases List.mem_cons.1 hb with rfl | hb
    · rfl
    · exact hblanks b hb
  induction h with
  | number h => exact .number (hspaced h)
  | integer negative hne hdigits h => exact .integer negative hne hdigits (hspaced h)
  | parentheses hopening hinner hclosing _ =>
      exact .parentheses (hspaced hopening) hinner hclosing
  | operand _ ih => exact .operand ih
  | operation _ hsign hright ih _ => exact .operation ih hsign hright
  | plain _ ih => exact .plain ih
  | conditional _ hquestion hifTrue hcolon hifFalse ih _ _ =>
      exact .conditional ih hquestion hifTrue hcolon hifFalse

theorem Derives.operand_of_atom (h : Derives .atom depth word e) (l : Level) :
    Derives l.operand depth word e := by
  cases l with
  | factor => exact h
  | summand => exact .operand h
  | comparison => exact .operand (l := .summand) (.operand h)
  | condition =>
      exact .operand (l := .comparison) (.operand (l := .summand) (.operand h))

theorem Derives.level_of_atom (h : Derives .atom depth word e) (l : Level) :
    Derives (.level l) depth word e := .operand (h.operand_of_atom l)

theorem Derives.ternary_of_atom (h : Derives .atom depth word e) :
    Derives .ternary (depth + 1) word e := .plain (h.level_of_atom .condition)

/-- A chain of any level is a condition. -/
theorem Derives.condition_of_level (h : Derives (.level l) depth word e) :
    Derives (.level .condition) depth word e := by
  cases l with
  | factor =>
      exact .operand (l := .condition) (.operand (l := .comparison) (.operand (l := .summand) h))
  | summand => exact .operand (l := .condition) (.operand (l := .comparison) h)
  | comparison => exact .operand (l := .condition) h
  | condition => exact h

/-! ## Literals -/

theorem clamp_toInt (value : Int32) : clamp value.toInt = value := by
  have hmin : Int32.minValue.toInt ≤ value.toInt := by
    have : Int32.minValue.toInt = -2147483648 := by decide
    have := Int32.le_toInt value
    omega
  have hmax : value.toInt ≤ Int32.maxValue.toInt := by
    have : Int32.maxValue.toInt = 2147483647 := by decide
    have := Int32.toInt_lt value
    omega
  rw [clamp, if_neg (by omega), if_neg (by omega), Int32.ofInt_toInt]

/-- A number is printed as its digits, with a minus sign before those of a negative one. -/
theorem encode_toString_int (value : Int) :
    Utf8.encode (toString value) =
      (if value < 0 then [45] else []) ++ Decimal.bytes value.natAbs := by
  cases value with
  | ofNat n =>
      rw [if_neg (Int.not_lt.2 (Int.natCast_nonneg n) : ¬ Int.ofNat n < 0)]
      rfl
  | negSucc n =>
      rw [if_pos (by omega)]
      show Utf8.encode ("-" ++ toString (n + 1)) = _
      rw [Utf8.encode_append]
      rfl

theorem derives_literal (value : Int32) :
    Derives .atom 0 (Utf8.encode (Expr.literal value).print) (.literal value) := by
  have hvalue : (if decide (value.toInt < 0) = true
      then -(Decimal.value (Bytes.digits (Decimal.bytes value.toInt.natAbs)) : Int)
      else Decimal.value (Bytes.digits (Decimal.bytes value.toInt.natAbs))) = value.toInt := by
    rw [Decimal.value_digits_bytes]
    by_cases h : value.toInt < 0
    · rw [if_pos (by simpa using h)]
      omega
    · rw [if_neg (by simpa using h)]
      omega
  have h := Derives.integer (decide (value.toInt < 0)) (Decimal.bytes_ne_nil value.toInt.natAbs)
    (fun _ => Decimal.isDigit_of_mem_bytes) ⟨[], by simp, rfl⟩
  rw [hvalue, clamp_toInt] at h
  have hprint : Utf8.encode (Expr.literal value).print = [] ++
      ((if decide (value.toInt < 0) = true then [45] else []) ++
        Decimal.bytes value.toInt.natAbs) := by
    show Utf8.encode (toString value.toInt) = _
    simp only [encode_toString_int, List.nil_append, decide_eq_true_eq]
  rw [hprint]
  exact h

/-! ## Compound expressions -/

theorem encode_print_binary (op : Operator) (lhs rhs : Expr) :
    Utf8.encode (Expr.binary op lhs rhs).print =
      [40] ++ (Utf8.encode lhs.print ++ 32 :: op.spelling ++ 32 :: Utf8.encode rhs.print) ++
        [41] := by
  have hopening : Utf8.encode "(" = [40] := by decide
  have hblank : Utf8.encode " " = [32] := by decide
  have hclosing : Utf8.encode ")" = [41] := by decide
  show Utf8.encode ("(" ++ lhs.print ++ " " ++ op.symbol ++ " " ++ rhs.print ++ ")") = _
  simp only [Utf8.encode_append, Operator.spelling, hopening, hblank, hclosing,
    List.cons_append, List.nil_append, List.append_assoc]

theorem encode_print_conditional (condition ifTrue ifFalse : Expr) :
    Utf8.encode (Expr.conditional condition ifTrue ifFalse).print =
      [40] ++ (Utf8.encode condition.print ++ [32, 63] ++ 32 :: Utf8.encode ifTrue.print ++
        [32, 58] ++ 32 :: Utf8.encode ifFalse.print) ++ [41] := by
  have hopening : Utf8.encode "(" = [40] := by decide
  have hquestion : Utf8.encode " ? " = [32, 63, 32] := by decide
  have hcolon : Utf8.encode " : " = [32, 58, 32] := by decide
  have hclosing : Utf8.encode ")" = [41] := by decide
  show Utf8.encode ("(" ++ condition.print ++ " ? " ++ ifTrue.print ++ " : " ++ ifFalse.print ++
    ")") = _
  simp only [Utf8.encode_append, hopening, hquestion, hcolon, hclosing,
    List.cons_append, List.nil_append, List.append_assoc]

theorem spaced_self (token : Bytes) : Spaced token token := ⟨[], by simp, rfl⟩

theorem spaced_blank (token : Bytes) : Spaced token (32 :: token) :=
  ⟨[32], by simp [Cursor.isBlank], rfl⟩

/-- **A printed tree is an atom**, whatever stands around it. -/
theorem derives_print (h : e.markers = []) :
    Derives .atom e.nesting (Utf8.encode e.print) e := by
  induction e with
  | literal value => exact derives_literal value
  | number => exact .number (spaced_self _)
  | binary op lhs rhs ihl ihr =>
      obtain ⟨hl, hr⟩ := markers_binary h
      have hoperation : Derives (.level op.level) _ _ (.binary op lhs rhs) :=
        .operation ((ihl hl).level_of_atom op.level) (spaced_blank _)
          ((ihr hr).operand_of_atom op.level).blank
      rw [encode_print_binary, Expr.nesting, Nat.add_comm]
      exact .parentheses (spaced_self _) (.plain hoperation.condition_of_level) (spaced_self _)
  | conditional condition ifTrue ifFalse ihc iht ihf =>
      obtain ⟨hc, ht, hf⟩ := markers_conditional h
      have hconditional := Derives.conditional ((ihc hc).level_of_atom .condition)
        (spaced_blank [63]) (iht ht).ternary_of_atom.blank (spaced_blank [58])
        (ihf hf).ternary_of_atom.blank
      rw [encode_print_conditional, Expr.nesting, Nat.add_comm 1 (max _ _),
        Nat.add_comm 1 ifTrue.nesting, Nat.add_comm 1 ifFalse.nesting]
      exact .parentheses (spaced_self _) hconditional (spaced_self _)
  | invalid m => simp [Expr.markers] at h

/-! ## Reading what was printed -/

/-- **Reading undoes printing.** A tree without markers that keeps to the limits is read from its
printed form as it is, whatever its literals are, and the rule that is read chooses the same form
as the tree for every number. -/
theorem parse_print (e : Expr) (hmarkers : e.markers = []) (hsize : e.size ≤ maxNodes)
    (hnesting : e.nesting < maxDepth) :
    parse (Utf8.encode e.print) = .ok e ∧
      ∀ count : Nat, ∃ rule : Rule, Rule.parse (Utf8.encode e.print) count = .ok rule ∧
        ∀ n, rule.index n = e.eval n := by
  have hparse : parse (Utf8.encode e.print ++ ([] ++ [])) = .ok e :=
    parse_of_derives hnesting (derives_print hmarkers).ternary_of_atom hsize (by simp) rfl
  rw [List.append_nil, List.append_nil] at hparse
  refine ⟨hparse, fun count => ⟨⟨e, count⟩, ?_, fun n => rfl⟩⟩
  rw [Rule.parse, hparse]
  rfl

/-- A minus sign between operands stands next to one that belongs to a literal. -/
def belowLowest : Expr :=
  .conditional (.binary .lt (.binary .sub .number (.literal Int32.minValue)) (.literal (-1)))
    (.literal 0) .number

theorem parse_print_belowLowest :
    belowLowest.markers = [] ∧ belowLowest.size ≤ maxNodes ∧ belowLowest.nesting < maxDepth ∧
      belowLowest.print = "(((n - -2147483648) < -1) ? 0 : n)" ∧
      parse (Utf8.encode belowLowest.print) = .ok belowLowest := by
  have hmarkers : belowLowest.markers = [] := rfl
  have hsize : belowLowest.size ≤ maxNodes := by decide
  have hnesting : belowLowest.nesting < maxDepth := by decide
  exact ⟨hmarkers, hsize, hnesting, by decide +kernel,
    (parse_print belowLowest hmarkers hsize hnesting).1⟩

end MessageCatalog.Plural
