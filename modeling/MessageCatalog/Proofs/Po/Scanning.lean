import MessageCatalog.Po.Literal
import MessageCatalog.Po.Token
import MessageCatalog.Proofs.Text.Numeral

set_option autoImplicit false

/-! # Scanning what was written

`Spells word lexemes` says that the scanner reads the lexemes off the word and goes on behind it,
whatever follows and wherever in a text the word stands. White space spells nothing, a keyword with
a blank behind it spells the keyword, and a literal spells its text, as long as the text has no
control characters but those that a letter stands for after a backslash. Words are put together
by `Spells.append`.
-/

namespace MessageCatalog.Po

open Text (Position Placed)

variable {chars chars' more : List Placed} {rest word : List Char} {c d : Char} {p : Position}

/-! ## Characters in their places -/

/-- The first character of a text has a place. -/
theorem exists_placed (h : chars.map Prod.snd = c :: rest) :
    ∃ p chars', chars = (p, c) :: chars' ∧ chars'.map Prod.snd = rest := by
  obtain ⟨⟨p, c'⟩, chars', rfl, rfl, hrest⟩ := List.map_eq_cons_iff.1 h
  exact ⟨p, chars', rfl, hrest⟩

/-- A run of characters of one kind, and the character that ends it. -/
theorem exists_run (select : Char → Bool) (h : chars.map Prod.snd = word ++ c :: rest)
    (hword : ∀ d ∈ word, select d = true) (hc : select c = false) :
    ∃ run p chars', run.map Prod.snd = word ∧ chars'.map Prod.snd = rest ∧
      chars.takeWhile (fun placed => select placed.2) = run ∧
      chars.dropWhile (fun placed => select placed.2) = (p, c) :: chars' := by
  have htake : (chars.takeWhile fun placed => select placed.2).map Prod.snd = word := by
    have := List.takeWhile_map (f := Prod.snd) (p := select) (l := chars)
    rw [h, List.takeWhile_append_of_pos hword, List.takeWhile_cons_of_neg (by simp [hc]),
      List.append_nil] at this
    exact this.symm
  have hdrop : (chars.dropWhile fun placed => select placed.2).map Prod.snd = c :: rest := by
    have := List.dropWhile_map (f := Prod.snd) (p := select) (l := chars)
    rw [h, List.dropWhile_append_of_pos hword, List.dropWhile_cons_of_neg (by simp [hc])] at this
    exact this.symm
  obtain ⟨p, chars', hchars', hrest⟩ := exists_placed hdrop
  exact ⟨_, p, chars', htake, hrest, rfl, hchars'⟩

/-! ## One token after another -/

/-- The scanner does with the next token what the token asks for. -/
theorem scanFrom_eq (chars : List Placed) :
    scanFrom chars = match readToken chars with
      | .done => ([], none)
      | .failed e => ([], some e)
      | .token t more => (t :: (scanFrom more).1, (scanFrom more).2) := by
  rw [scanFrom]
  split <;> next h => rw [h]

/-- White space makes no difference to what is scanned. -/
theorem scanFrom_space (hc : isSpace c = true) : scanFrom ((p, c) :: chars) = scanFrom chars := by
  have h : readToken ((p, c) :: chars) = readToken chars := by
    unfold readToken
    rw [List.dropWhile_cons_of_pos (by exact hc)]
  rw [scanFrom_eq, h, ← scanFrom_eq]

/-- The scanner reads the lexemes off the word and goes on behind it. -/
def Spells (word : List Char) (lexemes : List Lexeme) : Prop :=
  ∀ (chars : List Placed) (rest : List Char), chars.map Prod.snd = word ++ rest →
    ∃ tokens chars', chars'.map Prod.snd = rest ∧ tokens.map Token.lexeme = lexemes ∧
      scanFrom chars = (tokens ++ (scanFrom chars').1, (scanFrom chars').2)

variable {u v : List Char} {ls ms : List Lexeme}

theorem spells_nil : Spells [] [] := fun chars _ h => ⟨[], chars, h, rfl, rfl⟩

theorem Spells.append (hu : Spells u ls) (hv : Spells v ms) : Spells (u ++ v) (ls ++ ms) := by
  intro chars rest h
  rw [List.append_assoc] at h
  obtain ⟨first, chars₁, h₁, rfl, hscan⟩ := hu chars (v ++ rest) h
  obtain ⟨second, chars₂, h₂, rfl, hscan'⟩ := hv chars₁ rest h₁
  refine ⟨first ++ second, chars₂, h₂, List.map_append, ?_⟩
  rw [hscan, hscan', List.append_assoc]

theorem spells_flatMap {α : Type} {l : List α} {f : α → List Char} {g : α → List Lexeme}
    (h : ∀ a ∈ l, Spells (f a) (g a)) : Spells (l.flatMap f) (l.flatMap g) := by
  induction l with
  | nil => exact spells_nil
  | cons a rest ih =>
      rw [List.flatMap_cons, List.flatMap_cons]
      exact (h a List.mem_cons_self).append (ih fun b hb => h b (List.mem_cons_of_mem a hb))

theorem spells_space (hc : isSpace c = true) : Spells [c] [] := by
  intro chars rest h
  obtain ⟨p, chars', rfl, hrest⟩ := exists_placed h
  exact ⟨[], chars', hrest, rfl, scanFrom_space hc⟩

/-- A word that is one token, with the blank that sets it apart. -/
theorem spells_of_readToken {b : Char} {l : Lexeme} (hb : isSpace b = true)
    (h : ∀ chars rest, chars.map Prod.snd = word ++ b :: rest → ∃ t chars',
      readToken chars = .token t chars' ∧ chars'.map Prod.snd = b :: rest ∧ t.lexeme = l) :
    Spells (word ++ [b]) [l] := by
  intro chars rest hchars
  rw [List.append_assoc, List.singleton_append] at hchars
  obtain ⟨t, chars', hread, hchars', rfl⟩ := h chars rest hchars
  obtain ⟨p, chars'', rfl, hrest⟩ := exists_placed hchars'
  refine ⟨[t], chars'', hrest, rfl, ?_⟩
  rw [scanFrom_eq, hread]
  show (t :: (scanFrom ((p, b) :: chars'')).1, (scanFrom ((p, b) :: chars'')).2) = _
  rw [scanFrom_space hb, List.singleton_append]

/-! ## Literals -/

/-- A character that a literal can hold: it is no control character, or a letter stands for it
after a backslash both when it is written and when it is read. -/
def IsWritable (c : Char) : Prop := 32 ≤ c.toNat ∨ c ∈ ['\x08', '\t', '\n', '\x0c', '\r']

instance : DecidablePred IsWritable := fun c => by unfold IsWritable; infer_instance

/-- A character is written as an escape that stands for it, or as itself if that is no sign of a
literal. -/
theorem escapeChar_cases (hc : IsWritable c) :
    (∃ d, escapeChar c = ['\\', d] ∧ d ≠ '\n' ∧ unescape? d = some c) ∨
      (escapeChar c = [c] ∧ c ≠ '\n' ∧ c ≠ '"' ∧ c ≠ '\\') := by
  by_cases hsign : c ∈ ['\x08', '\t', '\n', '\x0c', '\r', '"', '\\']
  · left
    simp only [List.mem_cons, List.not_mem_nil, or_false] at hsign
    obtain rfl | rfl | rfl | rfl | rfl | rfl | rfl := hsign
    · exact ⟨'b', rfl, by decide, rfl⟩
    · exact ⟨'t', rfl, by decide, rfl⟩
    · exact ⟨'n', rfl, by decide, rfl⟩
    · exact ⟨'f', rfl, by decide, rfl⟩
    · exact ⟨'r', rfl, by decide, rfl⟩
    · exact ⟨'"', rfl, by decide, rfl⟩
    · exact ⟨'\\', rfl, by decide, rfl⟩
  · right
    simp only [IsWritable, List.mem_cons, List.not_mem_nil, or_false, not_or] at hc hsign
    obtain ⟨hb, ht, hn, hf, hr, hquote, hslash⟩ := hsign
    have hcode : ¬ c.toNat < 32 := by
      rcases hc with hc | hc | hc | hc | hc | hc
      · omega
      all_goals contradiction
    refine ⟨?_, hn, hquote, hslash⟩
    rw [escapeChar, if_neg hb, if_neg ht, if_neg hn, if_neg hf, if_neg hr, if_neg hquote,
      if_neg hslash, if_neg hcode]

theorem readBody_quote {last : Position} :
    readBody last ((p, '"') :: chars) = .ok ⟨[], p, chars⟩ := by
  rw [readBody.eq_def]
  rfl

theorem readBody_escaped {last q : Position} {u : Char} (hd : d ≠ '\n')
    (hstands : unescape? d = some u) :
    readBody last ((p, '\\') :: (q, d) :: chars) = (readBody q chars).map (Body.cons u) := by
  rw [readBody.eq_def]
  simp only [hstands, if_neg hd]
  rfl

theorem readBody_plain {last : Position} (hn : c ≠ '\n') (hquote : c ≠ '"') (hslash : c ≠ '\\') :
    readBody last ((p, c) :: chars) = (readBody p chars).map (Body.cons c) := by
  rw [readBody.eq_def]
  simp only [if_neg hn, if_neg hquote, if_neg hslash]

/-- A body with a text in front. -/
def Body.prepend (text : List Char) (b : Body) : Body := { b with value := text ++ b.value }

/-- A writable text at the start of a body is read, and whatever comes behind it is left to be read
as if nothing had come before. -/
theorem readBody_append {text : List Char} (htext : ∀ c ∈ text, IsWritable c)
    {first : List Placed} (hfirst : first.map Prod.snd = escape text) (last : Position)
    (chars : List Placed) :
    ∃ last', readBody last (first ++ chars) = (readBody last' chars).map (Body.prepend text) := by
  induction text generalizing first last with
  | nil =>
      obtain rfl := List.map_eq_nil_iff.1 hfirst
      refine ⟨last, ?_⟩
      rw [List.nil_append]
      cases readBody last chars <;> rfl
  | cons c text ih =>
      obtain ⟨hc, htext⟩ := List.forall_mem_cons.1 htext
      have hmap : ∀ result : Except Error Body,
          (result.map (Body.prepend text)).map (Body.cons c) =
            result.map (Body.prepend (c :: text)) := by
        intro result
        cases result <;> rfl
      rw [escape, List.flatMap_cons] at hfirst
      rcases escapeChar_cases hc with ⟨d, hesc, hd, hstands⟩ | ⟨hesc, hn, hquote, hslash⟩
      · rw [hesc] at hfirst
        obtain ⟨p, first₁, rfl, h₁⟩ := exists_placed hfirst
        obtain ⟨q, first₂, rfl, h₂⟩ := exists_placed h₁
        obtain ⟨last', hread⟩ := ih htext h₂ q
        refine ⟨last', ?_⟩
        rw [List.cons_append, List.cons_append, readBody_escaped hd hstands, hread, hmap]
      · rw [hesc] at hfirst
        obtain ⟨p, first₁, rfl, h₁⟩ := exists_placed hfirst
        obtain ⟨last', hread⟩ := ih htext h₁ p
        refine ⟨last', ?_⟩
        rw [List.cons_append, readBody_plain hn hquote hslash, hread, hmap]

/-- The text of a literal is read back. -/
theorem readBody_escape {text : List Char} (htext : ∀ c ∈ text, IsWritable c) (last : Position)
    (h : chars.map Prod.snd = escape text ++ '"' :: rest) :
    ∃ body, readBody last chars = .ok body ∧ body.value = text ∧ body.rest.map Prod.snd = rest := by
  obtain ⟨first, chars₁, rfl, hfirst, h₁⟩ := List.map_eq_append_iff.1 h
  obtain ⟨p, chars₂, rfl, hrest⟩ := exists_placed h₁
  obtain ⟨last', hread⟩ := readBody_append htext hfirst last ((p, '"') :: chars₂)
  rw [hread, readBody_quote]
  exact ⟨_, rfl, List.append_nil text, hrest⟩

/-- A literal at the end of a line. -/
theorem spells_literal {text : List Char} (htext : ∀ c ∈ text, IsWritable c) :
    Spells (literal text ++ ['\n']) [.text (String.ofList text)] := by
  refine spells_of_readToken rfl fun chars rest h => ?_
  rw [literal, List.cons_append, List.cons_append, List.append_assoc] at h
  obtain ⟨p, chars₁, rfl, h₁⟩ := exists_placed h
  obtain ⟨body, hbody, rfl, hrest⟩ := readBody_escape htext p h₁
  have hread : readToken ((p, '"') :: chars₁) = stringToken p chars₁ := rfl
  rw [hread, stringToken, hbody]
  exact ⟨_, _, rfl, hrest, rfl⟩

/-! ## Keywords -/

theorem readToken_keyword (hc : startsWord c = true) :
    readToken ((p, c) :: chars) = keywordToken p c chars := by
  have hspace : isSpace c = false := by
    rw [← Bool.not_eq_true]
    intro hspace
    simp only [isSpace, Bool.or_eq_true, beq_iff_eq] at hspace
    obtain ((((rfl | rfl) | rfl) | rfl) | rfl) | rfl := hspace <;> cases hc
  have hcomment : c ≠ '#' := by rintro rfl; cases hc
  have hquote : c ≠ '"' := by rintro rfl; cases hc
  unfold readToken
  rw [List.dropWhile_cons_of_neg (by simp [hspace])]
  simp only [if_neg hcomment, if_neg hquote, if_pos hc]

theorem toList_of_keyword {text : String} {l : Lexeme} (h : keyword text = .ok l) :
    ∃ c letters, text.toList = c :: letters ∧ startsWord c = true ∧
      ∀ d ∈ letters, isWordChar d = true := by
  have hwords : text ∈ ["msgctxt", "msgid", "msgid_plural", "msgstr"] := by
    unfold keyword at h
    split at h
    · cases h
    all_goals grind
  simp only [List.mem_cons, List.not_mem_nil, or_false] at hwords
  obtain rfl | rfl | rfl | rfl := hwords <;>
    exact ⟨'m', _, rfl, rfl, List.all_eq_true.1 (by decide)⟩

/-- A keyword before a blank. -/
theorem spells_keyword {text : String} {l : Lexeme} (hkeyword : keyword text = .ok l) :
    Spells (text.toList ++ [' ']) [l] := by
  refine spells_of_readToken rfl fun chars rest h => ?_
  -- The word is read again from the letters that stand in the text.
  obtain ⟨c, word, hword, hstart, hletters⟩ := toList_of_keyword hkeyword
  rw [hword] at h
  obtain ⟨p, chars₁, rfl, h₁⟩ := exists_placed h
  obtain ⟨letters, q, chars₂, rfl, h₂, htake, hdrop⟩ := exists_run isWordChar h₁ hletters rfl
  rw [← String.ofList_toList (s := text), hword] at hkeyword
  rw [readToken_keyword hstart, keywordToken]
  simp only [htake, hkeyword, hdrop]
  have hrest : ((q, ' ') :: chars₂).map Prod.snd = ' ' :: rest := congrArg (List.cons ' ') h₂
  cases l <;> exact ⟨_, _, rfl, hrest, rfl⟩

/-- The index of a form, if it fits into 64 bits. -/
theorem formToken_numeral {index : Nat} (hindex : index < UInt64.size) {start last : Position}
    (h : chars.map Prod.snd = Decimal.numeral index ++ ']' :: rest) :
    ∃ t chars', formToken start last chars = .token t chars' ∧ chars'.map Prod.snd = rest ∧
      t.lexeme = .msgstrForm index := by
  obtain ⟨digits, p, chars', hdigits, hrest, htake, hdrop⟩ :=
    exists_run Char.isDigit h (fun _ => Decimal.isDigit_of_mem_numeral) rfl
  have hne : digits.isEmpty = false := by
    rw [List.isEmpty_eq_false_iff]
    rintro rfl
    exact Nat.toDigits_ne_nil hdigits.symm
  have hvalue : Decimal.valueUpTo UInt64.size (digits.map fun placed => placed.2.toNat - 48) =
      index := by
    have hcodes : digits.map (fun placed => placed.2.toNat - 48) =
        (Decimal.numeral index).map fun c => c.toNat - 48 := by
      rw [← hdigits, List.map_map]
      rfl
    rw [Decimal.valueUpTo_eq, hcodes, Decimal.value_numeral, Nat.min_eq_right (by omega)]
  refine ⟨⟨start, p, .msgstrForm index⟩, chars', ?_, hrest, rfl⟩
  have hfits : ¬ UInt64.size ≤ index := by omega
  unfold formToken
  simp only [htake, hdrop, hvalue, hne, hfits, Bool.false_or, decide_false, Bool.false_eq_true,
    if_false]

/-- The keyword of a form before a blank. -/
theorem spells_formKeyword {index : Nat} (hindex : index < UInt64.size) :
    Spells (("msgstr[" ++ toString index ++ "]").toList ++ [' ']) [.msgstrForm index] := by
  refine spells_of_readToken rfl fun chars rest h => ?_
  have hword : chars.map Prod.snd =
      'm' :: (['s', 'g', 's', 't', 'r'] ++
        '[' :: (Decimal.numeral index ++ ']' :: ' ' :: rest)) := by
    rw [h, String.toList_append, String.toList_append, Decimal.toList_toString, List.append_assoc]
    rfl
  obtain ⟨p, chars₁, rfl, h₁⟩ := exists_placed hword
  obtain ⟨letters, q, chars₂, hletters, h₂, htake, hdrop⟩ :=
    exists_run isWordChar h₁ (List.all_eq_true.1 (by decide)) rfl
  have hkeyword : keyword (String.ofList ('m' :: letters.map Prod.snd)) = .ok .msgstr := by
    rw [hletters]
    rfl
  rw [readToken_keyword rfl, keywordToken]
  simp only [htake, hkeyword, hdrop]
  exact formToken_numeral hindex h₂

end MessageCatalog.Po
