import Mathlib.Data.List.DropRight
import MessageCatalog.Text.Position

set_option autoImplicit false

/-! # Places in a text

`positions` counts along as it walks through a text. What it counts can be told from the characters
in front of a position alone (`placeAfter`): their bytes, their number, the line feeds among them,
and the characters behind the last of these. `ArePlaced front chars` says that the characters stand
where they do in a text that starts with `front`. It holds of all characters of a text
(`arePlaced_positions`) and of every part of them that is cut out (`arePlaced_append_iff`).

A part of a text can also be cut out by its bytes (`slice?`). That fails where a character would be
cut in two, so it succeeds between the positions of characters (`slice?_byteCount`).
-/

namespace MessageCatalog.Text

variable {front before after : List Char} {chars chars' : List Placed} {c : Char} {p : Position}

/-! ## Bytes -/

/-- The number of bytes of some characters in UTF-8. -/
def byteCount (chars : List Char) : Nat := (String.ofList chars).utf8ByteSize

theorem byteCount_append (chars chars' : List Char) :
    byteCount (chars ++ chars') = byteCount chars + byteCount chars' := by
  rw [byteCount, String.ofList_append, String.utf8ByteSize_append]
  rfl

theorem byteCount_singleton (c : Char) : byteCount [c] = c.utf8Size := by
  rw [byteCount, ← String.singleton_eq_ofList, String.utf8ByteSize_singleton]

theorem byteCount_cons (c : Char) (chars : List Char) :
    byteCount (c :: chars) = c.utf8Size + byteCount chars := by
  rw [← byteCount_singleton, ← byteCount_append, List.singleton_append]

/-- The bytes of the characters at the start of a text end at a character boundary. -/
theorem isValid_byteCount {text : String} (h : text.toList = before ++ after) :
    (⟨byteCount before⟩ : String.Pos.Raw).IsValid text := by
  refine String.Pos.Raw.isValid_iff_exists_append.2
    ⟨String.ofList before, String.ofList after, ?_, rfl⟩
  rw [← String.ofList_append, ← h, String.ofList_toList]

/-! ## Places -/

/-- The position of a character, told from the characters before it. -/
def placeAfter (before : List Char) : Position where
  byte := byteCount before
  char := 1 + before.length
  line := 1 + before.count '\n'
  column := 1 + (before.rtakeWhile (· ≠ '\n')).length

/-- A position in a text at which there is a character. -/
def IsPlaceIn (text : List Char) (p : Position) : Prop :=
  ∃ before c after, text = before ++ c :: after ∧ p = placeAfter before

theorem placeAfter_nil : placeAfter [] = .first := rfl

/-- The next character is one further on. -/
theorem next_placeAfter (before : List Char) (c : Char) :
    (placeAfter before).next c = placeAfter (before ++ [c]) := by
  unfold Position.next placeAfter
  by_cases h : c = '\n'
  · rw [if_pos h, byteCount_append, byteCount_singleton, List.length_append, List.count_append,
      List.rtakeWhile_concat_neg _ _ _ (by simp [h]), h]
    rfl
  · have hcount : [c].count '\n' = 0 := List.count_eq_zero.2 (by simp [Ne.symm h])
    rw [if_neg h, byteCount_append, byteCount_singleton, List.length_append, List.count_append,
      hcount, List.rtakeWhile_concat_pos _ _ _ (by simp [h]), List.length_append]
    rfl

/-! ## Characters in their places -/

/-- The characters stand where they do in a text that goes on with them after `front`. -/
def ArePlaced (front : List Char) (chars : List Placed) : Prop :=
  positionsFrom (placeAfter front) (chars.map Prod.snd) = chars

theorem arePlaced_nil (front : List Char) : ArePlaced front [] := rfl

theorem arePlaced_cons_iff :
    ArePlaced front ((p, c) :: chars) ↔ p = placeAfter front ∧ ArePlaced (front ++ [c]) chars := by
  unfold ArePlaced
  rw [List.map_cons, positionsFrom, next_placeAfter, List.cons.injEq, Prod.mk.injEq]
  exact ⟨fun h => ⟨h.1.1.symm, h.2⟩, fun h => ⟨⟨h.1.symm, rfl⟩, h.2⟩⟩

theorem arePlaced_append_iff :
    ArePlaced front (chars ++ chars') ↔
      ArePlaced front chars ∧ ArePlaced (front ++ chars.map Prod.snd) chars' := by
  induction chars generalizing front with
  | nil => simp [arePlaced_nil]
  | cons placed chars ih =>
      obtain ⟨p, c⟩ := placed
      rw [List.cons_append, arePlaced_cons_iff, arePlaced_cons_iff, ih, and_assoc, List.map_cons,
        List.append_assoc, List.singleton_append]

/-- All characters of a text are placed. -/
theorem arePlaced_positions (text : List Char) : ArePlaced [] (positions text) := by
  unfold ArePlaced positions
  rw [map_snd_positionsFrom, placeAfter_nil]

/-! ## The ends of characters -/

/-- Where the character at a position ends. -/
def Position.endIn (text : List Char) (p : Position) : Nat :=
  p.byte + (text[p.char - 1]?).elim 0 Char.utf8Size

theorem endIn_placeAfter (before after : List Char) (c : Char) :
    (placeAfter before).endIn (before ++ c :: after) = byteCount (before ++ [c]) := by
  have hchar : (before ++ c :: after)[(placeAfter before).char - 1]? = some c := by
    rw [show (placeAfter before).char - 1 = before.length from Nat.add_sub_cancel_left 1 _,
      List.getElem?_append_right (Nat.le_refl _), Nat.sub_self]
    rfl
  rw [Position.endIn, hchar, byteCount_append, byteCount_singleton]
  rfl

/-! ## Slices -/

/-- A text in two parts, the first of them of so many bytes. There are no such parts if a character
would be cut in two, or if there are not so many bytes. -/
def splitBytes? : Nat → List Char → Option (List Char × List Char)
  | 0, text => some ([], text)
  | _ + 1, [] => none
  | count + 1, c :: text =>
      if c.utf8Size ≤ count + 1 then
        (splitBytes? (count + 1 - c.utf8Size) text).map fun parts => (c :: parts.1, parts.2)
      else none

/-- The part of a text between two byte offsets. -/
def slice? (text : List Char) (start stop : Nat) : Option (List Char) :=
  if start ≤ stop then
    (splitBytes? start text).bind fun parts =>
      (splitBytes? (stop - start) parts.2).map Prod.fst
  else none

theorem splitBytes?_append (before after : List Char) :
    splitBytes? (byteCount before) (before ++ after) = some (before, after) := by
  induction before with
  | nil => cases after <;> rfl
  | cons c before ih =>
      have hc := c.utf8Size_pos
      have hcount := byteCount_cons c before
      obtain ⟨count, hsucc⟩ : ∃ count, byteCount (c :: before) = count + 1 :=
        ⟨byteCount (c :: before) - 1, by omega⟩
      have hrest : count + 1 - c.utf8Size = byteCount before := by omega
      rw [hsucc, List.cons_append, splitBytes?, if_pos (by omega), hrest, ih]
      rfl

/-- Whole characters can be cut out by their bytes. -/
theorem slice?_byteCount (before part after : List Char) :
    slice? (before ++ part ++ after) (byteCount before) (byteCount (before ++ part)) =
      some part := by
  rw [slice?, byteCount_append, if_pos (Nat.le_add_right _ _), List.append_assoc,
    splitBytes?_append, Nat.add_sub_cancel_left, Option.bind_some, splitBytes?_append]
  rfl

end MessageCatalog.Text
