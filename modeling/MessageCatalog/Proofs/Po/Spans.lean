import MessageCatalog.Po.Token
import MessageCatalog.Proofs.Po.Scanning
import MessageCatalog.Proofs.Text.Places

set_option autoImplicit false

/-! # Where tokens stand

Scanning loses nothing of a text. `IsLaidOut` says how a text is made up: white space, the
characters of a token, white space again, and so on up to the end of the text or to the character
at which an error was found. Each reader takes the characters up to the position that it names
(`ReadsTo`), so every run of the scanner lays its text out like that (`isLaidOut_scanFrom`). What
the spans of the tokens have to do with each other and with the text is read off the layout
(`isLossless_scan`).
-/

namespace MessageCatalog.Po

open Text (Position Placed placeAfter IsPlaceIn ArePlaced byteCount)

variable {chars rest : List Placed} {last start stop p : Position} {c d : Char} {t : Token}

/-! ## What a reader takes -/

/-- Some characters are taken, the last of them at `stop`, and the rest is left. If none is taken,
then `stop` is the position of the character before. -/
def ReadsTo (last : Position) (chars : List Placed) (stop : Position) (rest : List Placed) : Prop :=
  ∃ taken, chars = taken ++ rest ∧ stop = lastOf last taken

theorem lastOf_cons (last p : Position) (c : Char) (chars : List Placed) :
    lastOf last ((p, c) :: chars) = lastOf p chars := by
  unfold lastOf
  rw [List.getLast?_cons]
  cases chars.getLast? <;> rfl

theorem lastOf_append (last : Position) (chars chars' : List Placed) :
    lastOf last (chars ++ chars') = lastOf (lastOf last chars) chars' := by
  induction chars generalizing last with
  | nil => rfl
  | cons placed chars ih =>
      obtain ⟨p, c⟩ := placed
      rw [List.cons_append, lastOf_cons, lastOf_cons, ih]

theorem readsTo_nil (last : Position) (chars : List Placed) : ReadsTo last chars last chars :=
  ⟨[], rfl, rfl⟩

theorem ReadsTo.cons (h : ReadsTo p chars stop rest) :
    ReadsTo last ((p, c) :: chars) stop rest := by
  obtain ⟨taken, rfl, rfl⟩ := h
  exact ⟨(p, c) :: taken, rfl, (lastOf_cons last p c taken).symm⟩

/-- A run of characters of one kind. -/
theorem readsTo_run (select : Placed → Bool) (last : Position) (chars : List Placed) :
    ReadsTo last chars (lastOf last (chars.takeWhile select)) (chars.dropWhile select) :=
  ⟨_, List.takeWhile_append_dropWhile.symm, rfl⟩

theorem ReadsTo.trans {middle : Position} {more : List Placed}
    (h : ReadsTo last chars middle more) (h' : ReadsTo middle more stop rest) :
    ReadsTo last chars stop rest := by
  obtain ⟨taken, rfl, rfl⟩ := h
  obtain ⟨taken', rfl, rfl⟩ := h'
  exact ⟨taken ++ taken', (List.append_assoc _ _ _).symm, (lastOf_append _ _ _).symm⟩

/-- A reader that starts behind `last` ends with a token or with an error at the last character
that it took. -/
def Step.IsReadFrom (start last : Position) (chars : List Placed) : Step → Prop
  | .done => False
  | .failed e => ∃ rest, ReadsTo last chars e.position rest
  | .token t rest => t.start = start ∧ ReadsTo last chars t.stop rest

/-- A reader may leave the rest of a token to another one. -/
theorem Step.IsReadFrom.after {step : Step} {middle : Position} {more : List Placed}
    (h : step.IsReadFrom start middle more) (hfirst : ReadsTo last chars middle more) :
    step.IsReadFrom start last chars := by
  cases step with
  | done => exact h
  | failed e =>
      obtain ⟨rest, hrest⟩ := h
      exact ⟨rest, hfirst.trans hrest⟩
  | token t rest => exact ⟨h.1, hfirst.trans h.2⟩

/-! ## The readers -/

/-- The same for the reader of a string. -/
def IsBodyFrom (last : Position) (chars : List Placed) : Except Error Body → Prop
  | .error e => ∃ rest, ReadsTo last chars e.position rest
  | .ok body => ReadsTo last chars body.stop body.rest

variable {result : Except Error Body}

theorem IsBodyFrom.cons (h : IsBodyFrom p chars result) :
    IsBodyFrom last ((p, c) :: chars) result := by
  cases result with
  | error e =>
      obtain ⟨rest, h⟩ := h
      exact ⟨rest, h.cons⟩
  | ok body => exact ReadsTo.cons h

theorem IsBodyFrom.map (h : IsBodyFrom last chars result) (u : Char) :
    IsBodyFrom last chars (result.map (Body.cons u)) := by
  cases result <;> exact h

/-- A string ends at its closing quote, and an error in it is at the last character before the one
that is missing. -/
theorem isBodyFrom_readBody (last : Position) (chars : List Placed) :
    IsBodyFrom last chars (readBody last chars) := by
  fun_induction readBody last chars with
  | case1 last => exact ⟨[], readsTo_nil last []⟩
  | case2 last p rest => exact ⟨_, readsTo_nil last _⟩
  | case3 last p rest => exact (readsTo_nil p rest).cons
  | case4 last p => exact ⟨[], (readsTo_nil p []).cons⟩
  | case5 last p q more hn hquote ih => exact ih.cons.cons
  | case6 last p q d more hd u hu hn hquote ih => exact (ih.map u).cons.cons
  | case7 last p q d more => exact ⟨more, (readsTo_nil q more).cons.cons⟩
  | case8 last p d rest hn hquote hslash ih => exact (ih.map d).cons

theorem isReadFrom_stringToken (start : Position) (chars : List Placed) :
    (stringToken start chars).IsReadFrom start start chars := by
  have h := isBodyFrom_readBody start chars
  unfold stringToken
  cases hbody : readBody start chars with
  | error e =>
      rw [hbody] at h
      exact h
  | ok body =>
      rw [hbody] at h
      exact ⟨rfl, h⟩

theorem isReadFrom_commentToken (start last : Position) (kind : CommentKind)
    (chars : List Placed) : (commentToken start last kind chars).IsReadFrom start last chars :=
  ⟨rfl, readsTo_run _ last chars⟩

theorem isReadFrom_formToken (start last : Position) (chars : List Placed) :
    (formToken start last chars).IsReadFrom start last chars := by
  have hdigits := readsTo_run (fun placed => placed.2.isDigit) last chars
  simp only [formToken]
  split
  · exact ⟨_, hdigits⟩
  · split
    · rename_i p more hmore
      rw [hmore] at hdigits
      exact ⟨rfl, hdigits.trans (readsTo_nil p more).cons⟩
    · exact ⟨_, hdigits⟩

theorem isReadFrom_keywordToken (start : Position) (c : Char) (chars : List Placed) :
    (keywordToken start c chars).IsReadFrom start start chars := by
  have hletters := readsTo_run (fun placed => isWordChar placed.2) start chars
  simp only [keywordToken]
  split
  · exact ⟨_, hletters⟩
  · rename_i p index _ hindex
    rw [hindex] at hletters
    have hbracket := hletters.trans (readsTo_nil p index).cons
    exact (isReadFrom_formToken start p index).after hbracket
  · exact ⟨rfl, hletters⟩

/-- The scanner skips white space, and the next character starts a token or is an error. -/
theorem readToken_cases (chars : List Placed) :
    ∃ gap more, chars = gap ++ more ∧ (∀ c ∈ gap.map Prod.snd, isSpace c = true) ∧
      (more = [] ∧ readToken chars = .done ∨
        ∃ p c rest, more = (p, c) :: rest ∧ (readToken chars).IsReadFrom p p rest) := by
  let blank : Placed → Bool := fun placed => isSpace placed.2
  have hgap : ∀ placed ∈ chars.takeWhile blank, blank placed = true :=
    fun _ h => List.mem_takeWhile_imp h
  refine ⟨chars.takeWhile blank, chars.dropWhile blank, List.takeWhile_append_dropWhile.symm,
    List.forall_mem_map.2 hgap, ?_⟩
  simp only [readToken]
  split
  · rename_i hmore
    exact .inl ⟨hmore, rfl⟩
  · rename_i p c rest hmore
    refine .inr ⟨p, c, rest, hmore, ?_⟩
    split
    · split
      · rename_i q d more
        split
        · exact (isReadFrom_commentToken p q _ more).after (readsTo_nil q more).cons
        · exact isReadFrom_commentToken p p .translator _
      · exact isReadFrom_commentToken p p .translator []
    · split
      · exact isReadFrom_stringToken p rest
      · split
        · exact isReadFrom_keywordToken p c rest
        · exact ⟨rest, readsTo_nil p rest⟩

/-! ## The layout of a text -/

/-- How a text is made up behind `front`: white space, the characters of a token, white space, and
so on. The last character of a token is `d`. If there is an error, it is at a character behind the
last token. -/
inductive IsLaidOut (text : List Char) : List Char → List Token → Option Error → Prop
  | done {front gap : List Char} (htext : text = front ++ gap)
      (hgap : ∀ c ∈ gap, isSpace c = true) : IsLaidOut text front [] none
  | failed {front gap word rest : List Char} {d : Char} {e : Error}
      (htext : text = front ++ gap ++ word ++ d :: rest)
      (hposition : e.position = placeAfter (front ++ gap ++ word)) :
      IsLaidOut text front [] (some e)
  | token {front gap word rest : List Char} {d : Char} {t : Token} {tokens : List Token}
      {failure : Option Error} (htext : text = front ++ gap ++ word ++ d :: rest)
      (hgap : ∀ c ∈ gap, isSpace c = true) (hstart : t.start = placeAfter (front ++ gap))
      (hstop : t.stop = placeAfter (front ++ gap ++ word))
      (hrest : IsLaidOut text (front ++ gap ++ word ++ [d]) tokens failure) :
      IsLaidOut text front (t :: tokens) failure

variable {text front before after : List Char} {tokens : List Token} {failure : Option Error}

/-- Where the last of some characters stands. -/
theorem exists_word {taken : List Placed} (h : ArePlaced front ((p, c) :: taken)) :
    ∃ word d, ((p, c) :: taken).map Prod.snd = word ++ [d] ∧
      lastOf p taken = placeAfter (front ++ word) := by
  obtain rfl | ⟨init, ⟨q, d⟩, rfl⟩ := List.eq_nil_or_concat taken
  · refine ⟨[], c, rfl, ?_⟩
    rw [List.append_nil]
    exact (Text.arePlaced_cons_iff.1 h).1
  · rw [List.concat_eq_append] at h ⊢
    rw [← List.cons_append, Text.arePlaced_append_iff] at h
    refine ⟨((p, c) :: init).map Prod.snd, d, by simp, ?_⟩
    rw [lastOf_append, lastOf_cons]
    exact (Text.arePlaced_cons_iff.1 h.2).1

/-- What stands behind white space, up to the position that a reader went to. -/
theorem exists_layout {gap : List Placed} (h : ArePlaced front (gap ++ (p, c) :: chars))
    (hreads : ReadsTo p chars stop rest) :
    ∃ word d, (gap ++ (p, c) :: chars).map Prod.snd =
        gap.map Prod.snd ++ word ++ d :: rest.map Prod.snd ∧
      p = placeAfter (front ++ gap.map Prod.snd) ∧
      stop = placeAfter (front ++ gap.map Prod.snd ++ word) ∧
      ArePlaced (front ++ gap.map Prod.snd ++ word ++ [d]) rest := by
  obtain ⟨taken, rfl, rfl⟩ := hreads
  obtain ⟨-, h⟩ := Text.arePlaced_append_iff.1 h
  obtain ⟨hp, -⟩ := Text.arePlaced_cons_iff.1 h
  rw [← List.cons_append, Text.arePlaced_append_iff] at h
  obtain ⟨word, d, hword, hstop⟩ := exists_word h.1
  have hrest := h.2
  rw [hword, ← List.append_assoc] at hrest
  refine ⟨word, d, ?_, hp, hstop, hrest⟩
  rw [List.map_append, ← List.cons_append, List.map_append, hword, List.append_assoc,
    List.append_assoc, List.singleton_append]

/-- **Every run lays its text out.** -/
theorem isLaidOut_scanFrom (htext : text = front ++ chars.map Prod.snd)
    (h : ArePlaced front chars) :
    IsLaidOut text front (scanFrom chars).1 (scanFrom chars).2 := by
  induction hn : chars.length using Nat.strong_induction_on generalizing front chars with
  | _ n ih =>
    rw [scanFrom_eq]
    obtain ⟨gap, more, rfl, hgap, ⟨rfl, hdone⟩ | ⟨p, c, chars, rfl, hread⟩⟩ := readToken_cases chars
    · rw [hdone]
      rw [List.append_nil] at htext
      exact .done htext hgap
    · cases hstep : readToken (gap ++ (p, c) :: chars) with
      | done =>
          rw [hstep] at hread
          exact hread.elim
      | failed e =>
          rw [hstep] at hread
          obtain ⟨rest, hrest⟩ := hread
          obtain ⟨word, d, hchars, -, hstop, -⟩ := exists_layout h hrest
          rw [hchars, ← List.append_assoc, ← List.append_assoc] at htext
          exact .failed htext hstop
      | token t rest =>
          have hlength := length_readToken hstep
          rw [hstep] at hread
          obtain ⟨hstart, hrest⟩ := hread
          obtain ⟨word, d, hchars, hp, hstop, hplaced⟩ := exists_layout h hrest
          rw [hchars, ← List.append_assoc, ← List.append_assoc] at htext
          refine .token htext hgap (hstart.trans hp) hstop (ih _ (hn ▸ hlength) ?_ hplaced rfl)
          rw [htext, List.append_assoc _ [d]]
          rfl

/-! ## Spans -/

/-- All positions in a layout are positions of characters. -/
theorem IsLaidOut.isPlaceIn (h : IsLaidOut text front tokens failure) :
    (∀ t ∈ tokens, IsPlaceIn text t.start ∧ IsPlaceIn text t.stop) ∧
      ∀ e ∈ failure, IsPlaceIn text e.position := by
  induction h with
  | done htext hgap => exact ⟨nofun, nofun⟩
  | failed htext hposition =>
      refine ⟨nofun, ?_⟩
      intro e he
      obtain rfl := Option.some.inj he
      exact ⟨_, _, _, htext, hposition⟩
  | @token front gap word rest d t tokens failure htext hgap hstart hstop hrest ih =>
      obtain ⟨htokens, hfailure⟩ := ih
      refine ⟨List.forall_mem_cons.2 ⟨⟨?_, _, _, _, htext, hstop⟩, htokens⟩, hfailure⟩
      -- The first character of a token may be its last one.
      rw [List.append_assoc] at htext
      cases word with
      | nil => exact ⟨_, _, _, htext, hstart⟩
      | cons c word => exact ⟨_, _, _, htext, hstart⟩

/-- Where a token of a layout begins and where it ends, in bytes. -/
theorem bytes_of_token {gap word rest : List Char}
    (htext : text = front ++ gap ++ word ++ d :: rest)
    (hstart : t.start = placeAfter (front ++ gap))
    (hstop : t.stop = placeAfter (front ++ gap ++ word)) :
    t.start.byte = byteCount (front ++ gap) ∧
      t.stop.endIn text = byteCount (front ++ gap ++ word ++ [d]) := by
  rw [hstart, hstop, htext, Text.endIn_placeAfter]
  exact ⟨rfl, rfl⟩

/-- The tokens of a layout come one after the other. -/
theorem IsLaidOut.pairwise (h : IsLaidOut text front tokens failure) :
    (∀ t ∈ tokens, byteCount front ≤ t.start.byte ∧ t.start.byte < t.stop.endIn text) ∧
      tokens.Pairwise fun t u => t.stop.endIn text ≤ u.start.byte := by
  induction h with
  | done htext hgap => exact ⟨nofun, .nil⟩
  | failed htext hposition => exact ⟨nofun, .nil⟩
  | @token front gap word rest d t tokens failure htext hgap hstart hstop hrest ih =>
      obtain ⟨htokens, hpairwise⟩ := ih
      obtain ⟨hbegin, hend⟩ := bytes_of_token htext hstart hstop
      have hd := d.utf8Size_pos
      simp only [Text.byteCount_append, Text.byteCount_singleton] at hbegin hend htokens
      refine ⟨List.forall_mem_cons.2 ⟨⟨by omega, by omega⟩, ?_⟩, .cons ?_ hpairwise⟩
      · intro u hu
        obtain ⟨hle, hlt⟩ := htokens u hu
        exact ⟨by omega, hlt⟩
      · intro u hu
        obtain ⟨hle, -⟩ := htokens u hu
        omega

/-- A character of a text in two parts is in the first of them or in the second. -/
theorem cons_split {first second : List Char} (h : first ++ second = before ++ c :: after) :
    (∃ more, first = before ++ c :: more) ∨
      ∃ more, before = first ++ more ∧ second = more ++ c :: after := by
  rcases List.append_eq_append_iff.1 h with ⟨more, rfl, hsecond⟩ | ⟨more, rfl, hmore⟩
  · exact .inr ⟨more, rfl, hsecond⟩
  · rcases List.append_eq_cons_iff.1 hmore.symm with ⟨rfl, hsecond⟩ | ⟨more', rfl, -⟩
    · exact .inr ⟨[], by rw [List.append_nil, List.append_nil], hsecond⟩
    · exact .inl ⟨more', rfl⟩

/-- What lies in no token is white space, as far as there was no error. -/
theorem IsLaidOut.isSpace (h : IsLaidOut text front tokens failure)
    (htext' : text = before ++ c :: after) (hfront : front <+: before)
    (houtside : ∀ t ∈ tokens,
      ¬ (t.start.byte ≤ byteCount before ∧ byteCount before < t.stop.endIn text))
    (hbefore : failure = none ∨ ∃ t ∈ tokens, byteCount before < t.start.byte) :
    Po.isSpace c = true := by
  induction h with
  | @done front gap htext hgap =>
      obtain ⟨more, rfl⟩ := hfront
      rw [htext, List.append_assoc] at htext'
      refine hgap c ?_
      rw [List.append_cancel_left htext']
      simp
  | failed htext hposition => rcases hbefore with hbefore | ⟨t, ht, -⟩ <;> contradiction
  | @token front gap word rest d t tokens failure htext hgap hstart hstop hrest ih =>
      obtain ⟨hbegin, hend⟩ := bytes_of_token htext hstart hstop
      obtain ⟨hout, houtside⟩ := List.forall_mem_cons.1 houtside
      have htoken : text = (front ++ gap ++ word ++ [d]) ++ rest := by
        rw [htext, List.append_assoc _ [d]]
        rfl
      rcases cons_split (htoken.symm.trans htext') with ⟨more, hmore⟩ | ⟨more, hmore, -⟩
      · -- The character stands before the end of the token, so it stands before its beginning.
        have hlt : byteCount before < t.start.byte := by
          rw [hend, hmore, Text.byteCount_append, Text.byteCount_cons] at hout
          have hc := c.utf8Size_pos
          omega
        rw [List.append_assoc] at htext
        rcases cons_split (htext.symm.trans htext') with ⟨more, hmore⟩ | ⟨more, rfl, -⟩
        · obtain ⟨more', rfl⟩ := hfront
          rw [List.append_assoc] at hmore
          refine hgap c ?_
          rw [List.append_cancel_left hmore]
          simp
        · rw [hbegin, Text.byteCount_append] at hlt
          omega
      · refine ih ⟨more, hmore.symm⟩ houtside ?_
        refine hbefore.imp_right ?_
        rintro ⟨u, hu, hlt⟩
        rcases List.mem_cons.1 hu with rfl | hu
        · rw [hbegin, hmore] at hlt
          simp only [Text.byteCount_append] at hlt
          omega
        · exact ⟨u, hu, hlt⟩

/-! ## Nothing is lost -/

theorem isSpace_iff : isSpace c = true ↔ c ∈ ['\t', '\n', '\x0b', '\x0c', '\r', ' '] := by
  simp [isSpace, or_assoc]

/-- What a run of the scanner says about its text is true. The span of a token goes from the byte at
which it starts to the end of the character at which it stops. -/
structure IsLossless (text : String) (tokens : List Token) (failure : Option Error) : Prop where
  /-- Every position is the position of a character. -/
  places : (∀ t ∈ tokens, IsPlaceIn text.toList t.start ∧ IsPlaceIn text.toList t.stop) ∧
    ∀ e ∈ failure, IsPlaceIn text.toList e.position
  nonempty : ∀ t ∈ tokens, t.start.byte < t.stop.endIn text.toList
  /-- The spans are in order, and they do not overlap. -/
  ordered : tokens.Pairwise fun t u => t.stop.endIn text.toList ≤ u.start.byte
  /-- No span starts or ends within a character. -/
  boundaries : ∀ t ∈ tokens, (⟨t.start.byte⟩ : String.Pos.Raw).IsValid text ∧
    (⟨t.stop.endIn text.toList⟩ : String.Pos.Raw).IsValid text
  /-- A character in no span is white space, if there is no error or a token behind it. -/
  gaps : ∀ before c after, text.toList = before ++ c :: after →
    (∀ t ∈ tokens,
      ¬ (t.start.byte ≤ byteCount before ∧ byteCount before < t.stop.endIn text.toList)) →
    (failure = none ∨ ∃ t ∈ tokens, byteCount before < t.start.byte) →
    c ∈ ['\t', '\n', '\x0b', '\x0c', '\r', ' ']

/-- The spans of places begin and end between characters. -/
theorem isValid_of_isPlaceIn {text : String} (h : IsPlaceIn text.toList p) :
    (⟨p.byte⟩ : String.Pos.Raw).IsValid text ∧
      (⟨p.endIn text.toList⟩ : String.Pos.Raw).IsValid text := by
  obtain ⟨before, c, after, htext, rfl⟩ := h
  have hafter : text.toList = (before ++ [c]) ++ after := by
    rw [htext, List.append_assoc]
    rfl
  refine ⟨Text.isValid_byteCount htext, ?_⟩
  rw [htext, Text.endIn_placeAfter]
  exact Text.isValid_byteCount hafter

/-- **Scanning loses nothing.** For every text, the spans of the tokens that are read cover all of
it but white space, up to its end or to an error, and all positions are true. -/
theorem isLossless_scan (text : String) : IsLossless text (scan text).1 (scan text).2 := by
  have hlayout : IsLaidOut text.toList [] (scan text).1 (scan text).2 := by
    refine isLaidOut_scanFrom ?_ (Text.arePlaced_positions text.toList)
    rw [Text.positions, Text.map_snd_positionsFrom, List.nil_append]
  obtain ⟨hspans, hordered⟩ := hlayout.pairwise
  refine ⟨hlayout.isPlaceIn, fun t ht => (hspans t ht).2, hordered, ?_, ?_⟩
  · intro t ht
    obtain ⟨hstart, hstop⟩ := hlayout.isPlaceIn.1 t ht
    exact ⟨(isValid_of_isPlaceIn hstart).1, (isValid_of_isPlaceIn hstop).2⟩
  · intro before c after htext houtside hbefore
    rw [← isSpace_iff]
    exact hlayout.isSpace htext List.nil_prefix houtside hbefore

end MessageCatalog.Po
