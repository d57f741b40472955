import MessageCatalog.Proofs.Po.Scanning
import MessageCatalog.Proofs.Text.Places

set_option autoImplicit false

/-! # Literals that cannot be read back

Every text can be written as a literal, but not every literal that is written can be read. A control
character for which there is no letter is written as a backslash, an `x` and two digits, and the
reader knows no escape with an `x`. So a literal is read back if its text is writable
(`scan_literal_of_isWritable`), and otherwise it is refused at the first such `x`
(`scan_literal_of_not_isWritable`). `scan_literal` puts both together.
-/

namespace MessageCatalog.Po

open Text (Position Placed placeAfter ArePlaced)

variable {chars : List Placed} {text front back : List Char} {c : Char} {last p q : Position}

/-! ## Escapes with an `x` -/

theorem escapeChar_of_not_isWritable (hc : ¬ IsWritable c) :
    escapeChar c = '\\' :: 'x' :: hexPair c.toNat := by
  simp only [IsWritable, List.mem_cons, List.not_mem_nil, or_false, not_or, Nat.not_le] at hc
  obtain ⟨hcode, hb, ht, hn, hf, hr⟩ := hc
  have hquote : c ≠ '"' := by
    rintro rfl
    exact absurd hcode (by decide)
  have hslash : c ≠ '\\' := by
    rintro rfl
    exact absurd hcode (by decide)
  rw [escapeChar, if_neg hb, if_neg ht, if_neg hn, if_neg hf, if_neg hr, if_neg hquote,
    if_neg hslash, if_pos hcode]

theorem readBody_x : readBody last ((p, '\\') :: (q, 'x') :: chars) =
    .error ⟨q, .unknownEscape 'x'⟩ := by
  rw [readBody.eq_def]
  rfl

/-! ## Scanning a literal -/

theorem scan_eq_stringToken (text : List Char) :
    ∃ chars, (Position.first, '"') :: chars = Text.positions (literal text) ∧
      chars.map Prod.snd = escape text ++ ['"'] ∧
      scan (String.ofList (literal text)) = match stringToken .first chars with
        | .done => ([], none)
        | .failed e => ([], some e)
        | .token t more => (t :: (scanFrom more).1, (scanFrom more).2) := by
  refine ⟨Text.positionsFrom (Position.first.next '"') (escape text ++ ['"']), rfl,
    Text.map_snd_positionsFrom _ _, ?_⟩
  rw [scan, String.toList_ofList, scanFrom_eq]
  rfl

/-- The literal of a writable text is one token, which holds the text. -/
theorem scan_literal_of_isWritable (htext : ∀ c ∈ text, IsWritable c) :
    ∃ t, scan (String.ofList (literal text)) = ([t], none) ∧
      t.lexeme = .text (String.ofList text) := by
  obtain ⟨chars, -, hchars, hscan⟩ := scan_eq_stringToken text
  obtain ⟨body, hbody, rfl, hrest⟩ := readBody_escape htext .first hchars
  have hend : scanFrom body.rest = ([], none) := by
    rw [List.map_eq_nil_iff.1 hrest]
    exact scanFrom_eq []
  rw [hscan, stringToken, hbody]
  simp only [hend]
  exact ⟨_, rfl, rfl⟩

/-- The literal of any other text is refused at the `x` of its first character that is not
writable. -/
theorem scan_literal_of_not_isWritable (hfront : ∀ c ∈ front, IsWritable c)
    (hc : ¬ IsWritable c) :
    scan (String.ofList (literal (front ++ c :: back))) =
      ([], some ⟨placeAfter ('"' :: escape front ++ ['\\']), .unknownEscape 'x'⟩) := by
  obtain ⟨chars, hplaced, hchars, hscan⟩ := scan_eq_stringToken (front ++ c :: back)
  have hescape : escape (front ++ c :: back) =
      escape front ++ '\\' :: 'x' :: (hexPair c.toNat ++ escape back) := by
    rw [escape, List.flatMap_append, List.flatMap_cons, escapeChar_of_not_isWritable hc]
    rfl
  rw [hescape, List.append_assoc] at hchars
  obtain ⟨first, chars₁, rfl, hfirst, h₁⟩ := List.map_eq_append_iff.1 hchars
  obtain ⟨p, chars₂, rfl, h₂⟩ := exists_placed h₁
  obtain ⟨q, chars₃, rfl, -⟩ := exists_placed h₂
  -- Where the `x` stands is told from the characters in front of it.
  have hq : q = placeAfter ('"' :: escape front ++ ['\\']) := by
    have h : ArePlaced [] ((.first, '"') :: (first ++ (p, '\\') :: (q, 'x') :: chars₃)) := by
      rw [hplaced]
      exact Text.arePlaced_positions _
    have h := (Text.arePlaced_append_iff.1 (Text.arePlaced_cons_iff.1 h).2).2
    have h := (Text.arePlaced_cons_iff.1 (Text.arePlaced_cons_iff.1 h).2).1
    rw [h, hfirst]
    rfl
  obtain ⟨last', hread⟩ := readBody_append hfront hfirst .first ((p, '\\') :: (q, 'x') :: chars₃)
  rw [hscan, stringToken, hread, readBody_x, ← hq]
  rfl

/-- **Which literals are read back.** The literal of a text is read as one string, which is the
text, exactly if all characters of the text are writable. If they are not, the literal is refused
at the `x` of the escape of the first that is not. -/
theorem scan_literal (text : String) :
    ((∃ t, scan (String.ofList (literal text.toList)) = ([t], none) ∧ t.lexeme = .text text) ↔
        ∀ c ∈ text.toList, IsWritable c) ∧
      ∀ front c back, text.toList = front ++ c :: back → (∀ d ∈ front, IsWritable d) →
        ¬ IsWritable c →
        scan (String.ofList (literal text.toList)) =
          ([], some ⟨placeAfter ('"' :: escape front ++ ['\\']), .unknownEscape 'x'⟩) := by
  have hrefused : ∀ front c back, text.toList = front ++ c :: back →
      (∀ d ∈ front, IsWritable d) → ¬ IsWritable c →
      scan (String.ofList (literal text.toList)) =
        ([], some ⟨placeAfter ('"' :: escape front ++ ['\\']), .unknownEscape 'x'⟩) := by
    intro front c back htext hfront hc
    rw [htext]
    exact scan_literal_of_not_isWritable hfront hc
  refine ⟨⟨?_, ?_⟩, hrefused⟩
  · rintro ⟨t, hscan, -⟩ c hmem
    by_contra hc
    have hfind : (text.toList.find? fun c => ¬ IsWritable c).isSome := by
      rw [List.find?_isSome]
      exact ⟨c, hmem, by simpa using hc⟩
    obtain ⟨d, hd⟩ := Option.isSome_iff_exists.1 hfind
    obtain ⟨hd, front, back, htext, hfront⟩ := List.find?_eq_some_iff_append.1 hd
    rw [hrefused front d back htext (by simpa using hfront) (by simpa using hd)] at hscan
    cases hscan
  · intro htext
    have h := scan_literal_of_isWritable htext
    rwa [String.ofList_toList] at h

/-- A quote, a line break and a tab are read back, and a bell behind them is not. -/
theorem scan_literal_bell :
    (∃ t, scan (String.ofList (literal "\"\n\t".toList)) = ([t], none) ∧
        t.lexeme = .text "\"\n\t") ∧
      "\"\n\t\x07".toList = "\"\n\t".toList ++ '\x07' :: [] ∧
      (∀ d ∈ "\"\n\t".toList, IsWritable d) ∧ ¬ IsWritable '\x07' ∧
      scan (String.ofList (literal "\"\n\t\x07".toList)) =
        ([], some ⟨⟨8, 9, 1, 9⟩, .unknownEscape 'x'⟩) := by
  have hwritable : ∀ d ∈ "\"\n\t".toList, IsWritable d := by simp [IsWritable]
  have hbell : ¬ IsWritable '\x07' := by decide
  have hread := (scan_literal "\"\n\t").1.2 hwritable
  have hrefused := (scan_literal "\"\n\t\x07").2 "\"\n\t".toList '\x07' [] rfl hwritable hbell
  exact ⟨hread, rfl, hwritable, hbell, hrefused⟩

/-- The literal of a control character is not read as a string. -/
theorem scan_literal_control_ne :
    String.ofList (literal "\x01".toList) = "\"\\x01\"" ∧
      ¬ ∃ t, scan (String.ofList (literal "\x01".toList)) = ([t], none) ∧
        t.lexeme = .text "\x01" := by
  refine ⟨by decide, ?_⟩
  rintro ⟨t, hscan, -⟩
  have hrefused : scan (String.ofList (literal ([] ++ '\x01' :: []))) = _ :=
    scan_literal_of_not_isWritable nofun (by decide)
  rw [show "\x01".toList = [] ++ '\x01' :: [] from rfl, hrefused] at hscan
  cases hscan

end MessageCatalog.Po
