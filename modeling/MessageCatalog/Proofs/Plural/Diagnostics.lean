import MessageCatalog.Proofs.Plural.Markers
import MessageCatalog.Proofs.Text.FirstLine
import MessageCatalog.Proofs.Text.Utf8

set_option autoImplicit false

/-! # The caret of a diagnostic

A marker counts bytes, and a diagnostic prints characters of the lossily decoded text. The two agree
because only accepted bytes stand before a marker: each of them is decoded to one character, and
none of them breaks the line or is left out of it. `pointsAt_of_parse` puts this together for every
text that is refused, whatever else is in it.
-/

namespace MessageCatalog.Plural

variable {src accepted : Bytes} {m : Marker}

/-- The line that the diagnostic of an error in a plural expression shows. -/
def shownLine (src : Bytes) : List Char := Text.firstLine (Utf8.lossy src).toList

/-- A marker that points at the offending byte, and a diagnostic that points at its character. -/
structure PointsAt (src : Bytes) (m : Marker) : Prop where
  byte_le : m.byte ≤ src.length
  /-- Whatever stands before the marker was accepted. -/
  accepted : ∀ b ∈ src.take m.byte, IsAccepted b
  /-- The bytes before the marker are decoded one by one, and the rest without them. -/
  decoded : (Utf8.lossy src).toList = (src.take m.byte).map (fun b => Char.ofNat b.toNat) ++
    (Utf8.lossy (src.drop m.byte)).toList
  /-- The diagnostic shows the first line and a caret in the given column. -/
  diagnostic : src ≠ [] → ∀ file, m.error.diagnostic file (Utf8.lossy src) =
    m.error.heading file ++ "1 | " ++ String.ofList (shownLine src) ++ "\n" ++
      "  |" ++ Text.spaces (m.byte + 1) ++ "^\n" ++ "  = " ++ m.fault.message
  /-- The line starts with the characters of the accepted bytes ... -/
  left : (shownLine src).take m.byte = (src.take m.byte).map fun b => Char.ofNat b.toNat
  /-- ... and as wide as they are with the bar is what stands to the left of the caret. -/
  width : ("1 | " ++ String.ofList ((shownLine src).take m.byte)).length =
    ("  |" ++ Text.spaces (m.byte + 1)).length
  /-- The caret is under the character that was found, or under the end of the line for a line
  feed. -/
  under : ∀ c, (Utf8.lossy (src.drop m.byte)).toList.head? = some c →
    ¬ Text.IsLeftOut (Utf8.lossy src).toList m.byte →
      (shownLine src ++ ['\n'])[m.byte]? = some c
  /-- If what was found is left out it is a carriage return. -/
  leftOut : Text.IsLeftOut (Utf8.lossy src).toList m.byte →
    (Utf8.lossy (src.drop m.byte)).toList.head? = some '\r'

/-- A byte that is accepted is not a line break, and neither is its character. -/
theorem IsAccepted.char_ne {b : UInt8} (h : IsAccepted b) :
    Char.ofNat b.toNat ≠ '\n' ∧ Char.ofNat b.toNat ≠ '\r' := by
  obtain ⟨-, hreturn, hfeed, -⟩ := h
  exact ⟨fun hc => hfeed (Utf8.ofNat_toNat_inj.1 hc), fun hc => hreturn (Utf8.ofNat_toNat_inj.1 hc)⟩

/-- Accepted bytes are shown at the start of the line. -/
theorem shownLine_append (h : ∀ b ∈ accepted, IsAccepted b) (rest : Bytes) :
    shownLine (accepted ++ rest) =
      accepted.map (fun b => Char.ofNat b.toNat) ++ shownLine rest := by
  rw [shownLine, Utf8.toList_lossy_append (fun b hb => (h b hb).1), Text.firstLine_append]
  · rfl
  · intro c hc
    obtain ⟨b, hb, rfl⟩ := List.mem_map.1 hc
    exact (h b hb).char_ne

/-- The margin of the caret is as wide as some characters behind the line number. -/
theorem length_margin (shown : List Char) : ("1 | " ++ String.ofList shown).length =
    ("  |" ++ Text.spaces (shown.length + 1)).length := by
  have hfront : "1 | ".length = 4 := rfl
  have hbar : "  |".length = 3 := rfl
  rw [String.length_append, String.length_append, hfront, hbar, Text.spaces, String.length_ofList,
    String.length_ofList, List.length_replicate]
  omega

/-- **A refused text is refused at a byte that its diagnostic points at.** -/
theorem pointsAt_of_parse (h : parse src = .error m) : PointsAt src m := by
  obtain ⟨accepted, rest, rfl, hlength, haccepted⟩ := accepted_of_parse h
  have htake : (accepted ++ rest).take m.byte = accepted := by rw [← hlength, List.take_left]
  have hdrop : (accepted ++ rest).drop m.byte = rest := by rw [← hlength, List.drop_left]
  have hdecoded := Utf8.toList_lossy_append (fun b hb => (haccepted b hb).1) rest
  have hshown := shownLine_append haccepted rest
  have hmap : (accepted.map fun b => Char.ofNat b.toNat).length = m.byte := by
    rw [List.length_map, hlength]
  have hfound : (Utf8.lossy (accepted ++ rest)).toList[m.byte]? =
      (Utf8.lossy rest).toList.head? := by
    rw [hdecoded, List.getElem?_append_right (Nat.le_of_eq hmap), hmap, Nat.sub_self,
      ← List.head?_eq_getElem?]
  have hleft : (shownLine (accepted ++ rest)).take m.byte =
      accepted.map fun b => Char.ofNat b.toNat := by
    rw [hshown, List.take_left' hmap]
  constructor
  case byte_le =>
    rw [List.length_append, hlength]
    exact Nat.le_add_right _ _
  case accepted => rwa [htake]
  case decoded => rw [htake, hdrop, hdecoded]
  case diagnostic =>
    intro hsrc file
    have hsource : (Utf8.lossy (accepted ++ rest)).toList ≠ [] := by
      rw [Utf8.lossy, String.toList_ofList]
      exact fun hnil => Utf8.decode_ne_nil hsrc (List.map_eq_nil_iff.1 hnil)
    exact Text.diagnostic_of_line_one rfl hsource file
  case left => rw [htake, hleft]
  case width => rw [hleft, length_margin, hmap]
  case under =>
    intro c hc hnot
    rw [hdrop] at hc
    refine Text.getElem?_firstLine ?_ hnot ?_
    · show m.byte ≤ (shownLine (accepted ++ rest)).length
      rw [hshown, List.length_append, hmap]
      exact Nat.le_add_right _ _
    · rw [hfound, hc]
  case leftOut =>
    intro hleftOut
    rw [hdrop, ← hfound]
    exact Text.getElem?_of_isLeftOut hleftOut

/-- In `n ?1 \xc3` with a line break behind it the colon is missing at a byte that is not UTF-8. -/
theorem pointsAt_of_parse_illFormed :
    parse [110, 32, 63, 49, 32, 195, 13, 10] = .error ⟨5, .missingColon⟩ ∧
      PointsAt [110, 32, 63, 49, 32, 195, 13, 10] ⟨5, .missingColon⟩ := by
  have hparse : parse [110, 32, 63, 49, 32, 195, 13, 10] = .error ⟨5, .missingColon⟩ := by
    rw [parse_eq]
    rfl
  exact ⟨hparse, pointsAt_of_parse hparse⟩

end MessageCatalog.Plural
