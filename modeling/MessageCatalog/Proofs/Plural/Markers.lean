import MessageCatalog.Proofs.Plural.Soundness

set_option autoImplicit false

/-! # Where markers stand

`parse` goes on after an error, so a text may be read further than to its first fault. It never goes
past a byte that is not part of a token or a blank, though, and these are all of ASCII and neither
semicolons nor line breaks (`IsAccepted`). Every rule moves its cursor over such bytes only
(`Passes`) and leaves markers at none but cursors that it has been at (`Marks`). So the error that
is reported in the end has only accepted bytes before it (`accepted_of_parse`).
-/

namespace MessageCatalog.Plural

variable {l : Level} {operand nested : Reader} {text token : Bytes} {e lhs : Expr} {b : UInt8}
variable {c c' c₁ c₂ : Cursor} {m : Marker}

/-! ## Bytes that a cursor passes -/

/-- A byte of a token, or a blank, is of ASCII and does not end the expression. -/
def IsAccepted (b : UInt8) : Prop := b < 128 ∧ b ≠ 13 ∧ b ≠ 10 ∧ b ≠ 59

instance : DecidablePred IsAccepted := fun b =>
  inferInstanceAs (Decidable (b < 128 ∧ b ≠ 13 ∧ b ≠ 10 ∧ b ≠ 59))

theorem isAccepted_of_isBlank (h : Cursor.isBlank b = true) : IsAccepted b := by
  obtain rfl | rfl : b = 32 ∨ b = 9 := by simpa [Cursor.isBlank] using h
  · decide
  · decide

theorem isAccepted_of_isDigit (h : Bytes.isDigit b = true) : IsAccepted b := by
  obtain ⟨hlow, hhigh⟩ : 48 ≤ b ∧ b ≤ 57 := by simpa [Bytes.isDigit] using h
  unfold IsAccepted
  refine ⟨UInt8.lt_of_le_of_lt hhigh (by decide), ?_, ?_, ?_⟩
  · rintro rfl
    exact absurd hlow (by decide)
  · rintro rfl
    exact absurd hlow (by decide)
  · rintro rfl
    exact absurd hhigh (by decide)

theorem isAccepted_spelling (op : Operator) : ∀ b ∈ op.spelling, IsAccepted b := by
  have hall : op.spelling.all (fun b => IsAccepted b) = true := by cases op <;> rfl
  simpa using hall

/-- Between the two cursors lie accepted bytes. -/
def Passes (c c' : Cursor) : Prop :=
  ∃ taken, c.rest = taken ++ c'.rest ∧ c'.byte = c.byte + taken.length ∧
    ∀ b ∈ taken, IsAccepted b

theorem Passes.refl (c : Cursor) : Passes c c := ⟨[], rfl, rfl, nofun⟩

theorem Passes.trans (h : Passes c c₁) (h' : Passes c₁ c₂) : Passes c c₂ := by
  obtain ⟨taken, hrest, hbyte, htaken⟩ := h
  obtain ⟨taken', hrest', hbyte', htaken'⟩ := h'
  refine ⟨taken ++ taken', ?_, ?_, ?_⟩
  · rw [hrest, hrest', List.append_assoc]
  · rw [hbyte', hbyte, List.length_append, Nat.add_assoc]
  · intro b hb
    exact (List.mem_append.1 hb).elim (htaken b) (htaken' b)

theorem Passes.byte_le (h : Passes c c') : c.byte ≤ c'.byte := by
  obtain ⟨taken, -, hbyte, -⟩ := h
  omega

theorem passes_advance {rest : Bytes} (h : c.rest = token ++ rest)
    (htoken : ∀ b ∈ token, IsAccepted b) : Passes c (c.advance token.length) :=
  ⟨token, by rw [rest_advance h, h], rfl, htoken⟩

theorem passes_byte (h : c.rest.head? = some b) (hb : IsAccepted b) : Passes c (c.advance 1) := by
  obtain ⟨rest, hrest⟩ := List.head?_eq_some_iff.1 h
  have htoken : ∀ b' ∈ [b], IsAccepted b' := by simpa using hb
  exact passes_advance hrest htoken

/-- A run of accepted bytes of one kind. -/
theorem passes_run {select : UInt8 → Bool} (h : ∀ b, select b = true → IsAccepted b)
    (c : Cursor) : Passes c (c.advance (c.rest.takeWhile select).length) :=
  passes_advance List.takeWhile_append_dropWhile.symm fun b hb => h b (List.mem_takeWhile_imp hb)

theorem passes_skipBlanks (c : Cursor) : Passes c c.skipBlanks :=
  passes_run (fun _ => isAccepted_of_isBlank) c

theorem passes_operator {op : Operator} {width : Nat} (h : l.operator? c.rest = some (op, width)) :
    Passes c (c.advance width) := by
  obtain ⟨-, rfl, htext⟩ := eq_spelling_append h
  exact passes_advance htext (isAccepted_spelling op)

theorem passes_node (c : Cursor) (e : Expr) : Passes c (c.node e).2 := by
  rw [node_snd]
  exact ⟨[], rfl, rfl, nofun⟩

/-! ## Markers behind accepted bytes -/

/-- From the one cursor to the other a tree was read, and its markers are not behind the second
one. -/
structure Marks (c : Cursor) (e : Expr) (c' : Cursor) : Prop where
  passes : Passes c c'
  markers_le : ∀ m ∈ e.markers, m.byte ≤ c'.byte

/-- What the rule reads is marked nowhere but where the cursor has been. -/
def IsMarked (reader : Reader) : Prop := ∀ c, Marks c (reader c).1 (reader c).2

theorem Marks.before (h : Marks c₁ e c') (hpasses : Passes c c₁) : Marks c e c' :=
  ⟨hpasses.trans h.passes, h.markers_le⟩

theorem Marks.after (h : Marks c e c₁) (hpasses : Passes c₁ c') : Marks c e c' :=
  ⟨h.passes.trans hpasses, fun m hm => (h.markers_le m hm).trans hpasses.byte_le⟩

theorem marks_fault (h : Passes c c') (f : Fault) : Marks c (c'.fault f) c' := by
  refine ⟨h, fun m hm => ?_⟩
  obtain rfl : m = ⟨c'.byte, f⟩ := by simpa [Cursor.fault, Expr.markers] using hm
  exact Nat.le_refl _

theorem Marks.node (h : Marks c e c') : Marks c (c'.node e).1 (c'.node e).2 := by
  refine ⟨h.passes.trans (passes_node c' e), ?_⟩
  rw [node_snd]
  unfold Cursor.node
  dsimp only
  split
  · exact (marks_fault h.passes .tooLong).markers_le
  · exact h.markers_le

theorem Marks.leaf (h : Passes c c') (he : e.markers = []) : Marks c e c' :=
  ⟨h, by rw [he]; exact nofun⟩

/-! ## The rules -/

theorem Marks.binary {op : Operator} {rhs : Expr} (hlhs : Marks c lhs c₁) (hrhs : Marks c₁ rhs c') :
    Marks c (.binary op lhs rhs) c' := by
  refine ⟨hlhs.passes.trans hrhs.passes, fun m hm => ?_⟩
  rcases List.mem_append.1 hm with hm | hm
  · exact (hlhs.after hrhs.passes).markers_le m hm
  · exact hrhs.markers_le m hm

theorem marks_chainFrom (hoperand : IsMarked operand) {rounds : Nat} (hlhs : Marks c lhs c₁) :
    Marks c (chainFrom operand l rounds lhs c₁).1 (chainFrom operand l rounds lhs c₁).2 := by
  induction rounds generalizing lhs c₁ with
  | zero => exact hlhs
  | succ rounds ih =>
      unfold chainFrom
      dsimp only
      split
      · exact hlhs
      · have hblanks := hlhs.after (passes_skipBlanks c₁)
        split
        · exact hblanks
        · next op width hop =>
            have hrhs := (hoperand (c₁.skipBlanks.advance width)).before (passes_operator hop)
            exact ih (hblanks.binary hrhs).node

theorem isMarked_chain (hoperand : IsMarked operand) : IsMarked (chain operand l) :=
  fun c => marks_chainFrom hoperand (hoperand c)

theorem isMarked_integer (negative : Bool) : IsMarked (integer negative) :=
  fun c => (Marks.leaf (passes_run (fun _ => isAccepted_of_isDigit) c) rfl).node

theorem isMarked_atom (hnested : IsMarked nested) : IsMarked (atom nested) := by
  intro c
  have hstart := passes_skipBlanks c
  unfold atom
  dsimp only
  generalize c.skipBlanks = c₁ at hstart ⊢
  split
  next => exact marks_fault hstart .endOfText
  next b rest hrest =>
      have hhead : c₁.rest.head? = some b := by rw [hrest]; rfl
      split
      next hb =>
          have hopen := hstart.trans (passes_byte hhead (by rw [hb]; decide))
          have hinner := (hnested (c₁.advance 1)).before hopen
          have hblanks := hinner.after (passes_skipBlanks _)
          split
          next => exact hinner
          next =>
              split
              next hclose => exact hblanks.after (passes_byte hclose (by decide))
              next => exact marks_fault hblanks.passes .missingParenthesis
      split
      next hb => exact (Marks.leaf (hstart.trans (passes_byte hhead (by rw [hb]; decide))) rfl).node
      split
      next => exact (isMarked_integer false c₁).before hstart
      split
      next hb =>
          obtain ⟨rfl, -⟩ : b = 45 ∧ rest.head?.any Bytes.isDigit = true := by simpa using hb
          exact (isMarked_integer true _).before (hstart.trans (passes_byte hhead (by decide)))
      next => exact marks_fault hstart .missingOperand

theorem isMarked_condition (hnested : IsMarked nested) : IsMarked (condition nested) :=
  isMarked_chain (isMarked_chain (isMarked_chain (isMarked_chain (isMarked_atom hnested))))

theorem Marks.conditional {condition ifTrue ifFalse : Expr} (hcondition : Marks c condition c₁)
    (hifTrue : Marks c₁ ifTrue c₂) (hifFalse : Marks c₂ ifFalse c') :
    Marks c (.conditional condition ifTrue ifFalse) c' := by
  have hpasses := hifTrue.passes.trans hifFalse.passes
  refine ⟨hcondition.passes.trans hpasses, fun m hm => ?_⟩
  rcases List.mem_append.1 hm with hm | hm
  · rcases List.mem_append.1 hm with hm | hm
    · exact (hcondition.after hpasses).markers_le m hm
    · exact (hifTrue.after hifFalse.passes).markers_le m hm
  · exact hifFalse.markers_le m hm

/-- **No rule goes past a byte that is not accepted.** -/
theorem isMarked_ternary (outer : Nat) : IsMarked (ternary outer) := by
  induction outer with
  | zero => exact fun c => marks_fault (.refl c) .tooDeep
  | succ outer ih =>
      intro c
      unfold ternary
      dsimp only
      have hcondition := (isMarked_condition ih c).after (passes_skipBlanks _)
      split
      next hquestion =>
          have hifTrue := ((ih _).before (passes_byte hquestion (by decide))).after
            (passes_skipBlanks _)
          split
          next hcolon =>
              have hifFalse := (ih _).before (passes_byte hcolon (by decide))
              exact (hcondition.conditional hifTrue hifFalse).node
          next =>
              exact (hcondition.conditional hifTrue (marks_fault (.refl _) .missingColon)).node
      next => exact hcondition

/-! ## The error of a text -/

theorem Passes.exists_split (h : Passes (.start text) c) {byte : Nat} (hle : byte ≤ c.byte) :
    ∃ accepted rest, text = accepted ++ rest ∧ accepted.length = byte ∧
      ∀ b ∈ accepted, IsAccepted b := by
  obtain ⟨taken, hrest, hbyte, htaken⟩ := h
  have hlength : c.byte = taken.length := hbyte.trans (Nat.zero_add _)
  refine ⟨taken.take byte, taken.drop byte ++ c.rest, ?_, ?_, ?_⟩
  · rw [← List.append_assoc, List.take_append_drop]
    exact hrest
  · exact List.length_take_of_le (hlength ▸ hle)
  · exact fun b hb => htaken b (List.mem_of_mem_take hb)

/-- Before the error that is reported there are only accepted bytes. -/
theorem accepted_of_parse (h : parse text = .error m) :
    ∃ accepted rest, text = accepted ++ rest ∧ accepted.length = m.byte ∧
      ∀ b ∈ accepted, IsAccepted b := by
  rw [parse_eq] at h
  have hmarks := isMarked_ternary maxDepth (.start text)
  generalize ternary maxDepth (.start text) = result at h hmarks
  split at h
  next first hfirst =>
      obtain rfl := Except.error.inj h
      have hmem : first ∈ result.1.markers := List.mem_of_mem_head? (Option.mem_def.2 hfirst)
      exact hmarks.passes.exists_split (hmarks.markers_le first hmem)
  next =>
      split at h
      · cases h
      · obtain rfl := Except.error.inj h
        exact (hmarks.passes.trans (passes_skipBlanks _)).exists_split (Nat.le_refl _)

end MessageCatalog.Plural
