import MessageCatalog.Proofs.Plural.Markers

set_option autoImplicit false

/-! # What stands behind an expression

`parse` takes a terminator for the end of its text. No rule of the grammar looks behind it
(`IsBlind`), so texts that agree up to their terminators are parsed alike
(`parsedAlike_of_upToEnd`). Only the wording of an error may tell them apart, since a missing
operand at the end of a text is reported as the end.
-/

namespace MessageCatalog.Plural

variable {l : Level} {operand nested : Reader} {text text' taken : Bytes} {e e' lhs lhs' : Expr}
variable {c c' c₁ c₂ : Cursor} {b : UInt8} {n : Nat}

/-! ## Up to the terminator -/

/-- The part of a text before its first terminator. -/
def upToEnd (text : Bytes) : Bytes := text.takeWhile fun b => !isTerminator b

theorem IsAccepted.isTerminator_eq_false (h : IsAccepted b) : isTerminator b = false := by
  obtain ⟨-, hreturn, hfeed, hsemicolon⟩ := h
  simp [isTerminator, hreturn, hfeed, hsemicolon]

theorem isTerminator_eq_false_of_isBlank (b : UInt8) (h : Cursor.isBlank b = true) :
    isTerminator b = false := (isAccepted_of_isBlank h).isTerminator_eq_false

theorem isTerminator_eq_false_of_isDigit (b : UInt8) (h : Bytes.isDigit b = true) :
    isTerminator b = false := (isAccepted_of_isDigit h).isTerminator_eq_false

theorem upToEnd_append (h : ∀ b ∈ taken, isTerminator b = false) (rest : Bytes) :
    upToEnd (taken ++ rest) = taken ++ upToEnd rest :=
  List.takeWhile_append_of_pos fun b hb => by simp [h b hb]

theorem upToEnd_cons (h : isTerminator b = false) (rest : Bytes) :
    upToEnd (b :: rest) = b :: upToEnd rest := List.takeWhile_cons_of_pos (by simp [h])

theorem head?_upToEnd (h : isTerminator b = false) :
    (upToEnd text).head? = some b ↔ text.head? = some b := by
  rw [upToEnd, List.head?_takeWhile, Option.filter_eq_some_iff]
  simp [h]

theorem isTerminator_eq_false_of_mem (h : b ∈ upToEnd text) : isTerminator b = false := by
  unfold upToEnd at h
  simpa using List.mem_takeWhile_imp h

theorem any_head?_upToEnd {select : UInt8 → Bool}
    (h : ∀ b, select b = true → isTerminator b = false) (text : Bytes) :
    (upToEnd text).head?.any select = text.head?.any select := by
  cases text with
  | nil => rfl
  | cons b rest =>
      cases hb : isTerminator b with
      | false => rw [upToEnd_cons hb]; rfl
      | true =>
          have hselect : select b = false := by
            by_contra hs
            rw [h b (by simpa using hs)] at hb
            cases hb
          simp [upToEnd, hb, hselect]

theorem all_isTerminator_head? (text : Bytes) :
    text.head?.all isTerminator = (upToEnd text).isEmpty := by
  cases text with
  | nil => rfl
  | cons b rest =>
      cases hb : isTerminator b with
      | true => simp [upToEnd, hb]
      | false => simp [upToEnd, hb]

/-- A run of bytes that are no terminators is found in what is left as well. -/
theorem takeWhile_upToEnd {select : UInt8 → Bool}
    (h : ∀ b, select b = true → isTerminator b = false) (text : Bytes) :
    (upToEnd text).takeWhile select = text.takeWhile select := by
  rw [upToEnd, List.takeWhile_takeWhile]
  congr
  funext b
  cases hb : select b with
  | true => simp [h b hb]
  | false => simp

theorem upToEnd_upToEnd (text : Bytes) : upToEnd (upToEnd text) = upToEnd text :=
  takeWhile_upToEnd (fun b hb => by simpa using hb) text

theorem drop_upToEnd (h : n ≤ (upToEnd text).length) :
    (upToEnd text).drop n = upToEnd (text.drop n) := by
  induction n generalizing text with
  | zero => rfl
  | succ n ih =>
      cases text with
      | nil => rfl
      | cons b rest =>
          cases hb : isTerminator b with
          | true => simp [upToEnd, hb] at h
          | false =>
              rw [upToEnd_cons hb] at h ⊢
              exact ih (Nat.le_of_succ_le_succ h)

/-- An operator that stands in a text is recognized, or a longer one with the same start. -/
theorem operator?_ne_none (op : Operator) (rest : Bytes) :
    op.level.operator? (op.spelling ++ rest) ≠ none := by
  by_cases hrest : rest.head? = some 61
  · obtain ⟨tail, rfl⟩ := List.head?_eq_some_iff.1 hrest
    cases op <;> exact Option.some_ne_none _
  · rw [operator?_spelling op hrest]
    exact Option.some_ne_none _

/-- Whether an operator is there can be seen before the terminator. -/
theorem operator?_upToEnd (l : Level) (text : Bytes) :
    l.operator? (upToEnd text) = l.operator? text := by
  have hshort : ∀ rest, (∀ tail, rest ≠ 61 :: tail) → (upToEnd rest).head? ≠ some 61 := by
    intro rest hrest hhead
    obtain ⟨tail, htail⟩ := List.head?_eq_some_iff.1 ((head?_upToEnd rfl).1 hhead)
    exact hrest tail htail
  cases hop : l.operator? text with
  | none =>
      have hsplit : upToEnd text ++ text.dropWhile (fun b => !isTerminator b) = text :=
        List.takeWhile_append_dropWhile
      rw [Option.eq_none_iff_forall_ne_some]
      rintro ⟨op, width⟩ hop'
      obtain ⟨rfl, -, htext⟩ := eq_spelling_append hop'
      rw [htext, List.append_assoc] at hsplit
      exact operator?_ne_none op _ (hsplit ▸ hop)
  | some found =>
      revert hop
      fun_cases Level.operator? l text with
      | case10 rest hrest =>
          rintro ⟨⟩
          exact operator?_spelling .lt (hshort rest hrest)
      | case11 rest hrest =>
          rintro ⟨⟩
          exact operator?_spelling .gt (hshort rest hrest)
      | case14 =>
          intro hop
          cases hop
      | _ => exact id

/-! ## Cursors before the same text -/

namespace Cursor

/-- The cursor in a text that ends with its terminator. -/
def cut (c : Cursor) : Cursor := { c with rest := upToEnd c.rest }

theorem byte_of_cut (h : c.cut = c'.cut) : c.byte = c'.byte := by
  show c.cut.byte = c'.cut.byte
  rw [h]

theorem nodes_of_cut (h : c.cut = c'.cut) : c.nodes = c'.nodes := by
  show c.cut.nodes = c'.cut.nodes
  rw [h]

theorem rest_of_cut (h : c.cut = c'.cut) : upToEnd c.rest = upToEnd c'.rest := by
  show c.cut.rest = c'.cut.rest
  rw [h]

theorem cut_advance (hn : n ≤ (upToEnd c.rest).length) : (c.advance n).cut = c.cut.advance n := by
  rw [cut, advance, ← drop_upToEnd hn]
  rfl

/-- Two cursors before the same text are so after a step that stays in it. -/
theorem advance_of_cut (h : c.cut = c'.cut) (hn : n ≤ (upToEnd c.rest).length) :
    (c.advance n).cut = (c'.advance n).cut := by
  rw [cut_advance hn, h, cut_advance (rest_of_cut h ▸ hn)]

theorem head?_of_cut (h : c.cut = c'.cut) (hb : isTerminator b = false) :
    c.rest.head? = some b ↔ c'.rest.head? = some b := by
  rw [← head?_upToEnd hb, rest_of_cut h, head?_upToEnd hb]

theorem advance_one_of_cut (h : c.cut = c'.cut) (hhead : c.rest.head? = some b)
    (hb : isTerminator b = false) : (c.advance 1).cut = (c'.advance 1).cut := by
  refine advance_of_cut h ?_
  obtain ⟨tail, htail⟩ := List.head?_eq_some_iff.1 hhead
  rw [htail, upToEnd_cons hb]
  exact Nat.succ_le_succ (Nat.zero_le _)

theorem takeWhile_of_cut {select : UInt8 → Bool}
    (hselect : ∀ b, select b = true → isTerminator b = false) (h : c.cut = c'.cut) :
    c.rest.takeWhile select = c'.rest.takeWhile select := by
  rw [← takeWhile_upToEnd hselect, rest_of_cut h, takeWhile_upToEnd hselect]

/-- A run of bytes of one kind is left behind by both cursors. -/
theorem advance_run_of_cut {select : UInt8 → Bool}
    (hselect : ∀ b, select b = true → isTerminator b = false) (h : c.cut = c'.cut) :
    (c.advance (c.rest.takeWhile select).length).cut =
      (c'.advance (c'.rest.takeWhile select).length).cut := by
  rw [← takeWhile_of_cut hselect h]
  refine advance_of_cut h ?_
  rw [← takeWhile_upToEnd hselect]
  exact (List.takeWhile_prefix _).length_le

theorem skipBlanks_of_cut (h : c.cut = c'.cut) : c.skipBlanks.cut = c'.skipBlanks.cut :=
  advance_run_of_cut isTerminator_eq_false_of_isBlank h

theorem operator?_of_cut (h : c.cut = c'.cut) (l : Level) :
    l.operator? c.rest = l.operator? c'.rest := by
  rw [← operator?_upToEnd, rest_of_cut h, operator?_upToEnd]

end Cursor

/-! ## Trees that differ in their faults -/

/-- The tree with one and the same fault at all markers. -/
def Expr.blur : Expr → Expr
  | .literal value => .literal value
  | .number => .number
  | .binary op lhs rhs => .binary op lhs.blur rhs.blur
  | .conditional condition ifTrue ifFalse =>
      .conditional condition.blur ifTrue.blur ifFalse.blur
  | .invalid m => .invalid ⟨m.byte, .endOfText⟩

theorem isInvalid_blur (e : Expr) : e.blur.isInvalid = e.isInvalid := by
  cases e <;> rfl

theorem isInvalid_of_blur (h : e.blur = e'.blur) : e.isInvalid = e'.isInvalid := by
  rw [← isInvalid_blur, h, isInvalid_blur]

theorem blur_binary (op : Operator) {rhs rhs' : Expr} (hl : lhs.blur = lhs'.blur)
    (hr : rhs.blur = rhs'.blur) :
    (Expr.binary op lhs rhs).blur = (Expr.binary op lhs' rhs').blur := by
  rw [Expr.blur, hl, hr, Expr.blur]

theorem blur_conditional {condition condition' ifTrue ifTrue' ifFalse ifFalse' : Expr}
    (hcondition : condition.blur = condition'.blur) (hifTrue : ifTrue.blur = ifTrue'.blur)
    (hifFalse : ifFalse.blur = ifFalse'.blur) :
    (Expr.conditional condition ifTrue ifFalse).blur =
      (Expr.conditional condition' ifTrue' ifFalse').blur := by
  rw [Expr.blur, hcondition, hifTrue, hifFalse, Expr.blur]

/-- The markers are still there, each at its byte. -/
theorem byte_markers_blur (e : Expr) :
    e.blur.markers.map Marker.byte = e.markers.map Marker.byte := by
  induction e with
  | literal | number | invalid => rfl
  | binary op lhs rhs ihl ihr =>
      simp only [Expr.blur, Expr.markers, List.map_append, ihl, ihr]
  | conditional condition ifTrue ifFalse ihc iht ihf =>
      simp only [Expr.blur, Expr.markers, List.map_append, ihc, iht, ihf]

theorem blur_of_markers (h : e.markers = []) : e.blur = e := by
  induction e with
  | literal | number => rfl
  | invalid => cases h
  | binary op lhs rhs ihl ihr =>
      obtain ⟨hl, hr⟩ := markers_binary h
      rw [Expr.blur, ihl hl, ihr hr]
  | conditional condition ifTrue ifFalse ihc iht ihf =>
      obtain ⟨hc, ht, hf⟩ := markers_conditional h
      rw [Expr.blur, ihc hc, iht ht, ihf hf]

/-- The same tree up to its faults was read, and the cursors are before the same text. -/
structure Alike (r r' : Expr × Cursor) : Prop where
  tree : r.1.blur = r'.1.blur
  cut : r.2.cut = r'.2.cut

/-- The rule does not look behind a terminator. -/
def IsBlind (reader : Reader) : Prop := ∀ c c', c.cut = c'.cut → Alike (reader c) (reader c')

theorem alike_fault (h : c.cut = c'.cut) (f f' : Fault) :
    Alike (c.fault f, c) (c'.fault f', c') := by
  refine ⟨?_, h⟩
  show Expr.invalid ⟨c.byte, _⟩ = .invalid ⟨c'.byte, _⟩
  rw [Cursor.byte_of_cut h]

theorem alike_node (he : e.blur = e'.blur) (h : c.cut = c'.cut) :
    Alike (c.node e) (c'.node e') := by
  have hcounted : (c.node e).2.cut = (c'.node e').2.cut := by
    rw [node_snd, node_snd, Cursor.cut, Cursor.cut, Cursor.byte_of_cut h, Cursor.nodes_of_cut h,
      Cursor.rest_of_cut h]
  refine ⟨?_, hcounted⟩
  unfold Cursor.node
  dsimp only
  rw [Cursor.nodes_of_cut h]
  split
  · exact (alike_fault h .tooLong .tooLong).tree
  · exact he

/-! ## Chains -/

/-- A cursor that has gone on has no more before its terminator. -/
theorem Passes.length_upToEnd_le (h : Passes c c') :
    (upToEnd c'.rest).length ≤ (upToEnd c.rest).length := by
  obtain ⟨taken, hrest, -, htaken⟩ := h
  rw [hrest, upToEnd_append (fun b hb => (htaken b hb).isTerminator_eq_false), List.length_append]
  exact Nat.le_add_left _ _

/-- An operator stands before the terminator, and less is left behind it. -/
theorem length_upToEnd_operator {op : Operator} {width : Nat}
    (hop : l.operator? c.rest = some (op, width)) :
    width ≤ (upToEnd c.rest).length ∧
      (upToEnd (c.advance width).rest).length < (upToEnd c.rest).length := by
  have hspelling : ∀ b ∈ op.spelling, isTerminator b = false :=
    fun b hb => (isAccepted_spelling op b hb).isTerminator_eq_false
  have hpos : 0 < op.spelling.length := by cases op <;> decide
  obtain ⟨-, rfl, htext⟩ := eq_spelling_append hop
  have hcut : upToEnd c.rest = op.spelling ++ upToEnd (c.advance op.spelling.length).rest := by
    conv => lhs; rw [htext]
    exact upToEnd_append hspelling _
  rw [hcut, List.length_append]
  omega

/-- With a round for every byte before the terminator, more rounds change nothing. -/
theorem chainFrom_succ (hoperand : IsMarked operand) {rounds : Nat}
    (h : (upToEnd c.rest).length ≤ rounds) :
    chainFrom operand l (rounds + 1) lhs c = chainFrom operand l rounds lhs c := by
  induction rounds generalizing lhs c with
  | zero =>
      have hend : upToEnd c.rest = [] := List.length_eq_zero_iff.1 (Nat.le_zero.1 h)
      have hskip : c.skipBlanks = c := by
        rw [Cursor.skipBlanks, ← takeWhile_upToEnd isTerminator_eq_false_of_isBlank, hend]
        rfl
      have hop : l.operator? c.rest = none := by
        rw [← operator?_upToEnd, hend]
        cases l <;> rfl
      unfold chainFrom
      dsimp only
      rw [hskip, hop, ite_self]
  | succ rounds ih =>
      conv => lhs; unfold chainFrom
      conv => rhs; unfold chainFrom
      dsimp only
      split
      · rfl
      · split
        · rfl
        · next op width hop =>
            -- The round takes an operator away, so the bound holds for what is left.
            refine ih ?_
            have hblanks := (passes_skipBlanks c).length_upToEnd_le
            have hsign := (length_upToEnd_operator hop).2
            have hrhs := (hoperand (c.skipBlanks.advance width)).passes.length_upToEnd_le
            have hnode := (passes_node (operand (c.skipBlanks.advance width)).2
              (.binary op lhs (operand (c.skipBlanks.advance width)).1)).length_upToEnd_le
            omega

theorem chainFrom_of_le (hoperand : IsMarked operand) {rounds rounds' : Nat}
    (h : (upToEnd c.rest).length ≤ rounds) (hle : rounds ≤ rounds') :
    chainFrom operand l rounds' lhs c = chainFrom operand l rounds lhs c := by
  induction rounds', hle using Nat.le_induction with
  | base => rfl
  | succ rounds' hle ih => rw [chainFrom_succ hoperand (h.trans hle), ih]

theorem alike_chainFrom (hoperand : IsBlind operand) {rounds : Nat} (hlhs : lhs.blur = lhs'.blur)
    (h : c.cut = c'.cut) :
    Alike (chainFrom operand l rounds lhs c) (chainFrom operand l rounds lhs' c') := by
  induction rounds generalizing lhs lhs' c c' with
  | zero => exact ⟨hlhs, h⟩
  | succ rounds ih =>
      unfold chainFrom
      dsimp only
      rw [isInvalid_of_blur hlhs]
      split
      · exact ⟨hlhs, h⟩
      · have hblanks := Cursor.skipBlanks_of_cut h
        rw [Cursor.operator?_of_cut hblanks]
        split
        · exact ⟨hlhs, hblanks⟩
        · next op width hop =>
            rw [← Cursor.operator?_of_cut hblanks] at hop
            have hsign := Cursor.advance_of_cut hblanks (length_upToEnd_operator hop).1
            have hrhs := hoperand _ _ hsign
            have hnode := alike_node (blur_binary op hlhs hrhs.tree) hrhs.cut
            exact ih hnode.tree hnode.cut

theorem isBlind_chain (hoperand : IsBlind operand) (hmarked : IsMarked operand) :
    IsBlind (chain operand l) := by
  intro c c' h
  have hfirst := hoperand c c' h
  have hrounds : ∀ lhs c, chainFrom operand l c.rest.length lhs c =
      chainFrom operand l (upToEnd c.rest).length lhs c := fun lhs c =>
    chainFrom_of_le hmarked (Nat.le_refl _) (List.takeWhile_prefix _).length_le
  unfold chain
  dsimp only
  rw [hrounds, hrounds, Cursor.rest_of_cut hfirst.cut]
  exact alike_chainFrom hoperand hfirst.tree hfirst.cut

/-! ## The other rules -/

theorem isBlind_integer (negative : Bool) : IsBlind (integer negative) := by
  intro c c' h
  unfold integer
  dsimp only
  refine alike_node ?_ (Cursor.advance_run_of_cut isTerminator_eq_false_of_isDigit h)
  rw [Cursor.takeWhile_of_cut isTerminator_eq_false_of_isDigit h]

/-- At the end of the text there is no operand, whichever end it is. -/
theorem atom_of_end (nested : Reader) (hend : upToEnd c.skipBlanks.rest = []) :
    ∃ f, atom nested c = (c.skipBlanks.fault f, c.skipBlanks) := by
  unfold atom
  dsimp only
  generalize c.skipBlanks = c₁ at hend ⊢
  split
  next => exact ⟨.endOfText, rfl⟩
  next b rest hrest =>
      have hb : isTerminator b = true := by
        by_contra hb
        rw [Bool.not_eq_true] at hb
        rw [hrest, upToEnd_cons hb] at hend
        cases hend
      obtain rfl | rfl | rfl : b = 59 ∨ b = 13 ∨ b = 10 := by
        simpa [isTerminator, or_assoc] using hb
      all_goals exact ⟨.missingOperand, rfl⟩

/-- In front of the same byte the same alternative is taken. -/
theorem alike_atom_of_byte (hnested : IsBlind nested) (h : c.skipBlanks.cut = c'.skipBlanks.cut)
    (hhead : c.skipBlanks.rest.head? = some b) (hb : isTerminator b = false) :
    Alike (atom nested c) (atom nested c') := by
  unfold atom
  dsimp only
  generalize c.skipBlanks = c₁, c'.skipBlanks = c₂ at h hhead ⊢
  obtain ⟨rest, hrest⟩ := List.head?_eq_some_iff.1 hhead
  obtain ⟨rest', hrest'⟩ := List.head?_eq_some_iff.1 ((Cursor.head?_of_cut h hb).1 hhead)
  have hnext := Cursor.advance_one_of_cut h hhead hb
  have hdigit : rest.head?.any Bytes.isDigit = rest'.head?.any Bytes.isDigit := by
    have hrests := Cursor.rest_of_cut hnext
    rw [rest_advance_one hrest, rest_advance_one hrest'] at hrests
    rw [← any_head?_upToEnd isTerminator_eq_false_of_isDigit, hrests,
      any_head?_upToEnd isTerminator_eq_false_of_isDigit]
  rw [hrest, hrest']
  dsimp only
  rw [hdigit]
  split
  next =>
      have hinner := hnested _ _ hnext
      have hblanks := Cursor.skipBlanks_of_cut hinner.cut
      have hclose := Cursor.head?_of_cut (b := 41) hblanks rfl
      rw [isInvalid_of_blur hinner.tree]
      split
      next => exact hinner
      next =>
          simp only [hclose]
          split
          next hparenthesis =>
              exact ⟨hinner.tree,
                Cursor.advance_one_of_cut hblanks (hclose.2 hparenthesis) rfl⟩
          next => exact alike_fault hblanks _ _
  split
  next => exact alike_node rfl hnext
  split
  next => exact isBlind_integer false _ _ h
  split
  next => exact isBlind_integer true _ _ hnext
  next => exact alike_fault h _ _

theorem isBlind_atom (hnested : IsBlind nested) : IsBlind (atom nested) := by
  intro c c' h
  have hblanks := Cursor.skipBlanks_of_cut h
  cases htext : upToEnd c.skipBlanks.rest with
  | nil =>
      -- One cursor may be at the end of its text and the other one at a terminator.
      obtain ⟨f, hatom⟩ := atom_of_end nested htext
      obtain ⟨f', hatom'⟩ := atom_of_end nested (Cursor.rest_of_cut hblanks ▸ htext)
      rw [hatom, hatom']
      exact alike_fault hblanks f f'
  | cons b tail =>
      have hb : isTerminator b = false := isTerminator_eq_false_of_mem (htext ▸ List.mem_cons_self)
      exact alike_atom_of_byte hnested hblanks ((head?_upToEnd hb).1 (by rw [htext]; rfl)) hb

theorem isBlind_condition (hnested : IsBlind nested) (hmarked : IsMarked nested) :
    IsBlind (condition nested) := by
  have hatom := isMarked_atom hmarked
  have hfactor := isMarked_chain (l := .factor) hatom
  have hsummand := isMarked_chain (l := .summand) hfactor
  exact isBlind_chain (isBlind_chain (isBlind_chain (isBlind_chain (isBlind_atom hnested) hatom)
    hfactor) hsummand) (isMarked_chain hsummand)

/-- **No rule looks behind a terminator.** -/
theorem isBlind_ternary (outer : Nat) : IsBlind (ternary outer) := by
  induction outer with
  | zero => exact fun c c' h => alike_fault h _ _
  | succ outer ih =>
      intro c c' h
      unfold ternary
      dsimp only
      have hcondition := isBlind_condition ih (isMarked_ternary outer) c c' h
      generalize condition (ternary outer) c = first, condition (ternary outer) c' = first'
        at hcondition ⊢
      have hblanks := Cursor.skipBlanks_of_cut hcondition.cut
      have hsign := Cursor.head?_of_cut (b := 63) hblanks rfl
      simp only [hsign]
      split
      next hquestion =>
          have hifTrue := ih _ _ (Cursor.advance_one_of_cut hblanks (hsign.2 hquestion) rfl)
          generalize ternary outer (first.2.skipBlanks.advance 1) = second,
            ternary outer (first'.2.skipBlanks.advance 1) = second' at hifTrue ⊢
          have hblanks := Cursor.skipBlanks_of_cut hifTrue.cut
          have hsign := Cursor.head?_of_cut (b := 58) hblanks rfl
          simp only [hsign]
          split
          next hcolon =>
              have hifFalse := ih _ _ (Cursor.advance_one_of_cut hblanks (hsign.2 hcolon) rfl)
              exact alike_node (blur_conditional hcondition.tree hifTrue.tree hifFalse.tree)
                hifFalse.cut
          next =>
              have hfault := (alike_fault hblanks .missingColon .missingColon).tree
              exact alike_node (blur_conditional hcondition.tree hifTrue.tree hfault) hblanks
      next => exact ⟨hcondition.tree, hblanks⟩

/-! ## The whole text -/

/-- Both texts are read as the same tree, or both are refused at the same byte. -/
def ParsedAlike (text text' : Bytes) : Prop :=
  (∃ e, parse text = .ok e ∧ parse text' = .ok e) ∨
    ∃ m m', parse text = .error m ∧ parse text' = .error m' ∧ m.byte = m'.byte

/-- Texts that agree up to their terminators are parsed alike. -/
theorem parsedAlike_of_upToEnd (h : upToEnd text = upToEnd text') : ParsedAlike text text' := by
  have hstart : (Cursor.start text).cut = (Cursor.start text').cut := by
    rw [Cursor.cut, Cursor.cut, Cursor.start, Cursor.start, h]
  have hread := isBlind_ternary maxDepth _ _ hstart
  rw [ParsedAlike, parse_eq, parse_eq]
  generalize ternary maxDepth (.start text) = result, ternary maxDepth (.start text') = result'
    at hread ⊢
  have hbyte :
      result.1.markers.head?.map Marker.byte = result'.1.markers.head?.map Marker.byte := by
    rw [← List.head?_map, ← List.head?_map, ← byte_markers_blur, hread.tree, byte_markers_blur]
  cases hm : result.1.markers.head? with
  | some m =>
      rw [hm] at hbyte
      obtain ⟨m', hm', hbyte⟩ := Option.map_eq_some_iff.1 hbyte.symm
      rw [hm']
      exact .inr ⟨m, m', rfl, rfl, hbyte.symm⟩
  | none =>
      have hm' : result'.1.markers.head? = none := by
        rw [hm] at hbyte
        exact Option.map_eq_none_iff.1 hbyte.symm
      have htree : result.1 = result'.1 := by
        rw [List.head?_eq_none_iff] at hm hm'
        rw [← blur_of_markers hm, hread.tree, blur_of_markers hm']
      have hblanks := Cursor.skipBlanks_of_cut hread.cut
      rw [hm']
      dsimp only
      rw [all_isTerminator_head?, all_isTerminator_head?, Cursor.rest_of_cut hblanks, htree]
      split
      · exact .inl ⟨_, rfl, rfl⟩
      · exact .inr ⟨_, _, rfl, rfl, Cursor.byte_of_cut hblanks⟩

end MessageCatalog.Plural
