import MessageCatalog.Proofs.Po.Scanning
import MessageCatalog.Proofs.Text.Places

set_option autoImplicit false

/-! # What a string literal says

`StandsFor word value` is the grammar of what may stand between the quotes of a literal, with the
text that it means: plain characters, a backslash with a letter, and a backslash at the end of a
line, which means nothing. The scanner reads a literal exactly if such a word and a quote follow
the opening quote, and then goes on behind the closing quote (`readsLiteral`).

A literal without escapes need not be copied: its value is a slice of the source. `readSliced` is
the reader that goes by this. It remembers where the plain characters began that it has not copied
yet, and copies them as a slice when an escape or the closing quote comes up. Slices are cut out by
byte offsets, and it is part of `readsLiteral` that they never cut a character in two and that both
ways lead to the same value.
-/

namespace MessageCatalog.Po

open Text (Position Placed placeAfter ArePlaced byteCount slice?)

variable {chars : List Placed} {front before run word value text rest : List Char} {c d u : Char}
variable {last p q : Position}

/-! ## The grammar of literals -/

/-- The letters that may stand behind a backslash, and the characters that they mean. -/
def escapes : List (Char × Char) :=
  [('n', '\n'), ('t', '\t'), ('b', '\x08'), ('r', '\r'), ('f', '\x0c'), ('v', '\x0b'),
    ('a', '\x07'), ('\\', '\\'), ('"', '"')]

/-- The characters between the quotes of a literal, and the text that they stand for. -/
inductive StandsFor : List Char → List Char → Prop
  | nil : StandsFor [] []
  | plain {c : Char} {word value : List Char} (hquote : c ≠ '"') (hslash : c ≠ '\\')
      (hbreak : c ≠ '\n') (h : StandsFor word value) : StandsFor (c :: word) (c :: value)
  | escape {d u : Char} {word value : List Char} (hd : (d, u) ∈ escapes)
      (h : StandsFor word value) : StandsFor ('\\' :: d :: word) (u :: value)
  | joined {word value : List Char} (h : StandsFor word value) :
      StandsFor ('\\' :: '\n' :: word) value

theorem unescape?_eq_some_iff : unescape? d = some u ↔ (d, u) ∈ escapes := by
  constructor
  · intro h
    revert h
    fun_cases unescape? d with
    | case10 => exact nofun
    | _ =>
        intro h
        obtain rfl := Option.some.inj h
        decide
  · intro h
    simp only [escapes, List.mem_cons, Prod.mk.injEq, List.not_mem_nil, or_false] at h
    rcases h with h | h | h | h | h | h | h | h | h <;> obtain ⟨rfl, rfl⟩ := h <;> rfl

theorem ne_newline_of_mem_escapes (h : (d, u) ∈ escapes) : d ≠ '\n' := by
  rintro rfl
  have hnone : unescape? '\n' = some u := unescape?_eq_some_iff.2 h
  cases hnone

/-! ## Characters behind a text -/

/-- The characters of a text that stands behind `front`, in their places. -/
def placed (front text : List Char) : List Placed := Text.positionsFrom (placeAfter front) text

theorem placed_cons (front : List Char) (c : Char) (text : List Char) :
    placed front (c :: text) = (placeAfter front, c) :: placed (front ++ [c]) text := by
  rw [placed, Text.positionsFrom, Text.next_placeAfter]
  rfl

theorem map_snd_placed (front text : List Char) : (placed front text).map Prod.snd = text :=
  Text.map_snd_positionsFrom _ _

theorem arePlaced_placed (front text : List Char) : ArePlaced front (placed front text) := by
  rw [ArePlaced, map_snd_placed]
  rfl

/-! ## Reading literals -/

theorem readBody_joined :
    readBody last ((p, '\\') :: (q, '\n') :: chars) = readBody q chars := by
  conv => lhs; rw [readBody.eq_def]
  rfl

/-- Whatever is read of a literal stands for its value, and its closing quote is read too. -/
theorem standsFor_of_readBody {body : Body} (h : readBody last chars = .ok body) :
    ∃ word, StandsFor word body.value ∧
      chars.map Prod.snd = word ++ '"' :: body.rest.map Prod.snd := by
  fun_induction readBody last chars generalizing body with
  | case3 last p rest =>
      cases h
      exact ⟨[], .nil, rfl⟩
  | case5 last p q more hn hquote ih =>
      obtain ⟨word, hword, hmore⟩ := ih h
      exact ⟨_, .joined hword, congrArg (fun chars => '\\' :: '\n' :: chars) hmore⟩
  | case6 last p q d more hd u hu hn hquote ih =>
      cases hread : readBody q more with
      | error e => rw [hread] at h; cases h
      | ok inner =>
          obtain ⟨word, hword, hmore⟩ := ih hread
          rw [hread] at h
          cases h
          exact ⟨_, .escape (unescape?_eq_some_iff.1 hu) hword,
            congrArg (fun chars => '\\' :: d :: chars) hmore⟩
  | case8 last p c rest hn hquote hslash ih =>
      cases hread : readBody p rest with
      | error e => rw [hread] at h; cases h
      | ok inner =>
          obtain ⟨word, hword, hmore⟩ := ih hread
          rw [hread] at h
          cases h
          exact ⟨_, .plain hquote hslash hn hword, congrArg (List.cons c) hmore⟩
  | _ => cases h

/-- A word and a quote are read up to the quote. -/
theorem readBody_of_standsFor (h : StandsFor word value) (front rest : List Char)
    (last : Position) :
    readBody last (placed front (word ++ '"' :: rest)) =
      .ok ⟨value, placeAfter (front ++ word), placed (front ++ word ++ ['"']) rest⟩ := by
  induction h generalizing front last with
  | nil =>
      rw [List.nil_append, placed_cons, readBody_quote, List.append_nil]
  | @plain c word value hquote hslash hbreak h ih =>
      rw [List.cons_append, placed_cons, readBody_plain hbreak hquote hslash, ih]
      simp [Except.map, Body.cons]
  | @escape d u word value hd h ih =>
      rw [List.cons_append, List.cons_append, placed_cons, placed_cons,
        readBody_escaped (ne_newline_of_mem_escapes hd) (unescape?_eq_some_iff.2 hd), ih]
      simp [Except.map, Body.cons]
  | @joined word value h ih =>
      rw [List.cons_append, List.cons_append, placed_cons, placed_cons, readBody_joined, ih]
      simp

/-! ## Reading literals by slices -/

/-- What has been read of a literal: the part that had to be copied, if any, and the offset from
which on the source has not been copied yet. -/
structure Pending where
  copied : Option (List Char)
  start : Nat

/-- The value up to an offset of the source: what has been copied and then a slice. -/
def Pending.upTo? (source : List Char) (stop : Nat) (pending : Pending) : Option (List Char) :=
  (slice? source pending.start stop).map (pending.copied.getD [] ++ ·)

/-- Reads a string after its opening quote, by slices of the source. There is no result if a slice
would cut a character in two. -/
def readSliced (source : List Char) (pending : Pending) (last : Position) :
    List Placed → Option (Except Error Body)
  | [] => some (.error ⟨last, .unterminatedString⟩)
  | (p, c) :: rest =>
      if c = '\n' then some (.error ⟨last, .unterminatedString⟩)
      else if c = '"' then
        (pending.upTo? source p.byte).map fun value => .ok ⟨value, p, rest⟩
      else if c = '\\' then
        match pending.upTo? source p.byte, rest with
        | none, _ => none
        | some _, [] => some (.error ⟨p, .nothingEscaped⟩)
        | some value, (q, d) :: more =>
            -- Behind an escape the next slice begins.
            let next := q.byte + d.utf8Size
            if d = '\n' then readSliced source ⟨some value, next⟩ q more
            else match unescape? d with
              | some u => readSliced source ⟨some (value ++ [u]), next⟩ q more
              | none => some (.error ⟨q, .unknownEscape d⟩)
      else readSliced source pending p rest

section

variable {source : List Char} {copied : Option (List Char)} {more : List Placed}

/-- Where an escape or the quote comes up, the slice is the run of plain characters. -/
theorem upTo?_of_arePlaced (copied : Option (List Char))
    (hsource : source = before ++ run ++ ((p, c) :: more).map Prod.snd)
    (hplaced : ArePlaced (before ++ run) ((p, c) :: more)) :
    Pending.upTo? source p.byte ⟨copied, byteCount before⟩ = some (copied.getD [] ++ run) := by
  obtain ⟨rfl, -⟩ := Text.arePlaced_cons_iff.1 hplaced
  have hslice : slice? source (byteCount before) (byteCount (before ++ run)) = some run := by
    rw [hsource]
    exact Text.slice?_byteCount before run _
  show (slice? source (byteCount before) (byteCount (before ++ run))).map _ = _
  rw [hslice]
  rfl

/-- Behind an escape the characters are still in their places. -/
theorem arePlaced_escape (hplaced : ArePlaced front ((p, c) :: (q, d) :: more)) :
    q.byte + d.utf8Size = byteCount (front ++ [c, d]) ∧ ArePlaced (front ++ [c, d] ++ []) more := by
  obtain ⟨-, hplaced⟩ := Text.arePlaced_cons_iff.1 hplaced
  obtain ⟨rfl, hmore⟩ := Text.arePlaced_cons_iff.1 hplaced
  have hfront : front ++ [c, d] = front ++ [c] ++ [d] := by simp
  rw [List.append_nil, hfront]
  refine ⟨?_, hmore⟩
  rw [Text.byteCount_append, Text.byteCount_singleton]
  rfl

theorem map_prepend_cons (result : Except Error Body) (text : List Char) (c : Char) :
    (result.map (Body.cons c)).map (Body.prepend text) =
      result.map (Body.prepend (text ++ [c])) := by
  cases result with
  | error e => rfl
  | ok body => simp [Except.map, Body.prepend, Body.cons]

/-- Both readers agree from any place of a literal on: `before` is the source up to where the slice
starts, and `run` are the plain characters since then. -/
theorem readSliced_eq (hsource : source = before ++ run ++ chars.map Prod.snd)
    (hplaced : ArePlaced (before ++ run) chars) :
    readSliced source ⟨copied, byteCount before⟩ last chars =
      some ((readBody last chars).map (Body.prepend (copied.getD [] ++ run))) := by
  fun_induction readBody last chars generalizing before run copied with
  | case1 last => rfl
  | case2 last p rest => rw [readSliced.eq_def]; rfl
  | case3 last p rest hn =>
      have hvalue := upTo?_of_arePlaced copied hsource hplaced
      rw [readSliced.eq_def]
      simp only [hvalue, if_neg hn, if_pos]
      simp [Except.map, Body.prepend]
  | case4 last p =>
      have hvalue := upTo?_of_arePlaced copied hsource hplaced
      rw [readSliced.eq_def]
      simp only [hvalue]
      rfl
  | case5 last p q more hn hquote ih =>
      have hvalue := upTo?_of_arePlaced copied hsource hplaced
      obtain ⟨hnext, hmore⟩ := arePlaced_escape hplaced
      rw [readSliced.eq_def]
      simp only [hvalue, if_neg hn, if_neg hquote, if_pos, hnext]
      rw [ih (by rw [hsource]; simp) hmore, List.append_nil, Option.getD_some]
  | case6 last p q d more hd u hu hn hquote ih =>
      have hvalue := upTo?_of_arePlaced copied hsource hplaced
      obtain ⟨hnext, hmore⟩ := arePlaced_escape hplaced
      rw [readSliced.eq_def]
      simp only [hvalue, if_neg hn, if_neg hquote, if_neg hd, if_pos, hu, hnext]
      rw [ih (by rw [hsource]; simp) hmore, List.append_nil, Option.getD_some, map_prepend_cons]
  | case7 last p q d more hd hu hn hquote =>
      have hvalue := upTo?_of_arePlaced copied hsource hplaced
      rw [readSliced.eq_def]
      simp only [hvalue, if_neg hn, if_neg hquote, if_neg hd, if_pos, hu]
      rfl
  | case8 last p d rest hn hquote hslash ih =>
      obtain ⟨-, hrest⟩ := Text.arePlaced_cons_iff.1 hplaced
      rw [List.append_assoc] at hrest
      rw [readSliced.eq_def]
      simp only [if_neg hn, if_neg hquote, if_neg hslash]
      rw [ih (by rw [hsource]; simp) hrest, map_prepend_cons, List.append_assoc]

end

/-! ## The scanner at a quote -/

/-- How the scanner reads the literal whose opening quote stands behind `front`, if `text` follows
the quote. -/
structure ReadsLiteral (front text : List Char) : Prop where
  /-- There is a string exactly if a word of the grammar and a quote follow. -/
  isText_iff : (∃ t rest value, readToken (placed front ('"' :: text)) = .token t rest ∧
      t.lexeme = .text value) ↔
    ∃ word value rest, StandsFor word value ∧ text = word ++ '"' :: rest
  /-- Its value is what the word stands for, and scanning goes on behind the closing quote. -/
  value : ∀ word value rest, StandsFor word value → text = word ++ '"' :: rest →
    ∃ t, t.start = placeAfter front ∧ t.stop = placeAfter (front ++ '"' :: word) ∧
      t.lexeme = .text (String.ofList value) ∧
      scanFrom (placed front ('"' :: text)) =
        (t :: (scanFrom (placed (front ++ '"' :: word ++ ['"']) rest)).1,
          (scanFrom (placed (front ++ '"' :: word ++ ['"']) rest)).2)
  /-- It makes no difference whether the value is put together from slices of the source. -/
  sliced : readSliced (front ++ '"' :: text) ⟨none, byteCount (front ++ ['"'])⟩ (placeAfter front)
      (placed (front ++ ['"']) text) =
    some (readBody (placeAfter front) (placed (front ++ ['"']) text))

/-- At a quote the scanner reads a string. -/
theorem readToken_quote : readToken ((p, '"') :: chars) = stringToken p chars := rfl

/-- **Literals are read as they are meant.** -/
theorem readsLiteral (front text : List Char) : ReadsLiteral front text where
  isText_iff := by
    rw [placed_cons, readToken_quote, stringToken]
    constructor
    · rintro ⟨t, rest, value, hread, -⟩
      cases hbody : readBody (placeAfter front) (placed (front ++ ['"']) text) with
      | error e => rw [hbody] at hread; cases hread
      | ok body =>
          obtain ⟨word, hword, htext⟩ := standsFor_of_readBody hbody
          rw [map_snd_placed] at htext
          exact ⟨word, _, _, hword, htext⟩
    · rintro ⟨word, value, rest, hword, rfl⟩
      rw [readBody_of_standsFor hword]
      exact ⟨_, _, _, rfl, rfl⟩
  value := by
    rintro word value rest hword rfl
    have hfront : front ++ '"' :: word = front ++ ['"'] ++ word := by simp
    rw [scanFrom_eq, placed_cons, readToken_quote, stringToken, readBody_of_standsFor hword, hfront]
    exact ⟨_, rfl, rfl, rfl, rfl⟩
  sliced := by
    have hplaced : ArePlaced (front ++ ['"'] ++ []) (placed (front ++ ['"']) text) := by
      rw [List.append_nil]
      exact arePlaced_placed _ _
    have hsource : front ++ '"' :: text =
        front ++ ['"'] ++ [] ++ (placed (front ++ ['"']) text).map Prod.snd := by
      rw [map_snd_placed]
      simp
    rw [readSliced_eq hsource hplaced]
    cases readBody (placeAfter front) (placed (front ++ ['"']) text) <;> rfl

end MessageCatalog.Po
