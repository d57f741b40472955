import MessageCatalog.Plural.Rule
import MessageCatalog.Proofs.Plural.Terminators

set_option autoImplicit false

/-! # The expression of a header

A header is cut at the first terminator behind `plural=` before the expression is parsed. Since
`parse` stops there by itself, this changes nothing, and nothing that is written behind the
terminator has a part in the expression (`parsedAlike_cut`). The number of forms is not a part of
it: `nplurals=` may stand anywhere in the header.
-/

/-! ## Searching -/

namespace MessageCatalog.Bytes

variable {needle front rest : Bytes} {i : Nat}

theorem isPrefixOf_append (h : needle.length ≤ front.length) (rest : Bytes) :
    needle.isPrefixOf (front ++ rest) = needle.isPrefixOf front := by
  rw [Bool.eq_iff_iff, List.isPrefixOf_iff_prefix, List.isPrefixOf_iff_prefix,
    List.prefix_iff_eq_take, List.prefix_iff_eq_take, List.take_append_of_le_length h]

/-- Where something was found does not depend on what follows it. -/
theorem indexOf?_append (h : indexOf? needle (front ++ rest) = some i)
    (hle : i + needle.length ≤ front.length) (rest' : Bytes) :
    indexOf? needle (front ++ rest') = some i := by
  induction front generalizing i with
  | nil =>
      have hzero : i + needle.length = 0 := Nat.le_zero.1 hle
      obtain ⟨rfl, hneedle⟩ := Nat.add_eq_zero_iff.1 hzero
      obtain rfl := List.length_eq_zero_iff.1 hneedle
      cases rest' <;> rfl
  | cons b front ih =>
      have hshort : needle.length ≤ (b :: front).length := by omega
      rw [List.cons_append, indexOf?, ← List.cons_append, isPrefixOf_append hshort] at h
      rw [List.cons_append, indexOf?, ← List.cons_append, isPrefixOf_append hshort]
      split at h
      next hprefix =>
          rw [if_pos hprefix]
          exact h
      next hprefix =>
          obtain ⟨j, hj, rfl⟩ := Option.map_eq_some_iff.1 h
          rw [if_neg hprefix, ih hj (by rw [List.length_cons] at hle; omega)]
          rfl

theorem after?_append (h : after? needle (front ++ rest) = some rest) (hne : rest ≠ [])
    (rest' : Bytes) : after? needle (front ++ rest') = some rest' := by
  obtain ⟨i, hi, hdrop⟩ := Option.map_eq_some_iff.1 h
  have hlength : i + needle.length = front.length := by
    have hpos := List.length_pos_iff.2 hne
    have hdrop := congrArg List.length hdrop
    rw [List.length_drop, List.length_append] at hdrop
    omega
  rw [after?, indexOf?_append hi (Nat.le_of_eq hlength), Option.map_some, hlength, List.drop_left]

end MessageCatalog.Bytes

namespace MessageCatalog.Plural

variable {metadata metadata' : Bytes}

/-! ## Rules of headers -/

/-- Headers are cut at the same bytes at which `parse` stops. -/
theorem pluralExpression?_eq (metadata : Bytes) : Metadata.pluralExpression? metadata =
    (Bytes.after? Metadata.pluralKey metadata).map upToEnd := rfl

/-- The headers are the same up to the terminator of the plural expression, with it. -/
def AgreeToTerminator (metadata metadata' : Bytes) : Prop :=
  ∃ front text t behind behind',
    metadata = front ++ (text ++ t :: behind) ∧ metadata' = front ++ (text ++ t :: behind') ∧
    Bytes.after? Metadata.pluralKey metadata = some (text ++ t :: behind) ∧
    (∀ b ∈ text, Metadata.endsExpression b = false) ∧ Metadata.endsExpression t = true

theorem pluralExpression?_of_agree (h : AgreeToTerminator metadata metadata') :
    Metadata.pluralExpression? metadata = Metadata.pluralExpression? metadata' := by
  obtain ⟨front, text, t, behind, behind', rfl, rfl, hafter, htext, ht⟩ := h
  have hcut : ∀ behind, upToEnd (text ++ t :: behind) = text := by
    intro behind
    have hstop : upToEnd (t :: behind) = [] :=
      List.takeWhile_cons_of_neg (by rw [show isTerminator t = true from ht]; decide)
    rw [upToEnd_append htext, hstop, List.append_nil]
  rw [pluralExpression?_eq, pluralExpression?_eq, hafter,
    Bytes.after?_append hafter (List.append_ne_nil_of_right_ne_nil _ (List.cons_ne_nil _ _)),
    Option.map_some, Option.map_some, hcut, hcut]

/-- The rule of a header comes from its expression and its count. -/
theorem value_ofMetadata (metadata : Bytes) :
    (Rule.ofMetadata metadata).value =
      match (Metadata.pluralExpression? metadata).map parse with
      | some (.ok e) => ⟨e, (Metadata.pluralCount? metadata).getD Rule.default.count⟩
      | _ => Rule.default := by
  unfold Rule.ofMetadata Rule.parse
  cases Metadata.pluralExpression? metadata with
  | none => rfl
  | some text =>
      dsimp only [Option.map_some]
      cases parse text with
      | error m => rfl
      | ok e => rfl

/-- **What is behind a terminator is not read.** It makes no difference whether a text is cut at its
first terminator, and headers that agree up to there have rules with the same expression. The rules
themselves are the same if the headers declare the same number of forms: that number is looked up
in the whole header. -/
theorem parsedAlike_cut :
    (∀ text, ParsedAlike text (text.takeWhile fun b => !Metadata.endsExpression b)) ∧
      ∀ metadata metadata', AgreeToTerminator metadata metadata' →
        (Rule.ofMetadata metadata).value.expr = (Rule.ofMetadata metadata').value.expr ∧
          (Metadata.pluralCount? metadata = Metadata.pluralCount? metadata' →
            (Rule.ofMetadata metadata).value = (Rule.ofMetadata metadata').value) := by
  refine ⟨fun text => parsedAlike_of_upToEnd (upToEnd_upToEnd text).symm, ?_⟩
  intro metadata metadata' h
  rw [value_ofMetadata, value_ofMetadata, pluralExpression?_of_agree h]
  constructor
  · cases (Metadata.pluralExpression? metadata').map parse with
    | none => rfl
    | some result => cases result <;> rfl
  · intro hcount
    rw [hcount]

/-- `plural=n;` with and without a number of forms behind it. -/
theorem agreeToTerminator_count :
    AgreeToTerminator (Utf8.encode "plural=n;") (Utf8.encode "plural=n;nplurals=3") := by
  refine ⟨Metadata.pluralKey, [110], 59, [], Utf8.encode "nplurals=3", ?_, ?_, ?_, ?_, rfl⟩
  · decide
  · decide
  · decide
  · intro b hb
    rw [List.mem_singleton.1 hb]
    rfl

theorem parsedAlike_cut_count :
    AgreeToTerminator (Utf8.encode "plural=n;") (Utf8.encode "plural=n;nplurals=3") ∧
      (Rule.ofMetadata (Utf8.encode "plural=n;")).value.expr =
        (Rule.ofMetadata (Utf8.encode "plural=n;nplurals=3")).value.expr :=
  ⟨agreeToTerminator_count, (parsedAlike_cut.2 _ _ agreeToTerminator_count).1⟩

/-- The number of forms is another one: it is declared behind the terminator. -/
theorem count_ofMetadata_ne :
    AgreeToTerminator (Utf8.encode "plural=n;") (Utf8.encode "plural=n;nplurals=3") ∧
      (Rule.ofMetadata (Utf8.encode "plural=n;")).value = ⟨.number, 2⟩ ∧
      (Rule.ofMetadata (Utf8.encode "plural=n;nplurals=3")).value = ⟨.number, 3⟩ := by
  have hparse : parse [110] = .ok .number := by
    rw [parse_eq]
    rfl
  have hexpr : Metadata.pluralExpression? (Utf8.encode "plural=n;") = some [110] := by decide
  have hcount : Metadata.pluralCount? (Utf8.encode "plural=n;nplurals=3") = some 3 := by decide
  refine ⟨agreeToTerminator_count, ?_, ?_⟩
  · rw [value_ofMetadata, hexpr, Option.map_some, hparse]
    rfl
  · rw [value_ofMetadata, ← pluralExpression?_of_agree agreeToTerminator_count, hexpr,
      Option.map_some, hparse, hcount]
    rfl

end MessageCatalog.Plural
