import MessageCatalog.Po.Token
import MessageCatalog.Separated
import MessageCatalog.Text.Blank

set_option autoImplicit false

/-! # Messages of a PO text

A message is a run of comments, an optional context, a key, an optional plural, and targets: one
for a message without a plural, and one for each form, numbered from zero, for a message with a
plural. Each of these is one or more string literals, which are kept apart here and joined by
`joined`.

`read` gives the messages of a text in order. It stops at the first error; the message in which
the error lies is not among those before it.
-/

namespace MessageCatalog.Po

open Text (Position)

/-- A message, with its comments as they stand. A message without a context is not the same as one
with an empty context. -/
structure Message where
  translatorComments : List String
  automaticComments : List String
  references : List String
  flagLines : List String
  context : Option (List String)
  id : List String
  plural : Option (List String)
  targets : List (List String)
  deriving Repr, DecidableEq

/-- Adjacent string literals as one text. -/
def joined (literals : List String) : String := String.join literals

namespace Message

/-- The flags of a message: what stands between commas in the flag comments. -/
def flags (m : Message) : List String :=
  m.flagLines.flatMap fun line =>
    (Separated.split ',' line.toList).map fun flag => String.ofList (Text.trim flag)

/-- The target was guessed and waits for a translator to confirm it. -/
def isFuzzy (m : Message) : Bool := m.flags.contains "fuzzy"

/-- The message that carries the metadata: without a context and with an empty key. -/
def isHeader (m : Message) : Bool := m.context.isNone && m.id.all (·.isEmpty)

end Message

/-! ## Reading tokens -/

/-- The tokens still to be read, what comes after them, and the positions of the token that was
read last. -/
structure Reading where
  tokens : List Token
  failure : Option Error
  start : Position
  stop : Position
  deriving Repr, DecidableEq

/-- Before the first token of a text. -/
def Reading.ofText (text : String) : Reading :=
  let (tokens, failure) := scan text
  ⟨tokens, failure, .origin, .origin⟩

/-- Past the given tokens, which are the next ones. -/
def Reading.past (r : Reading) (taken : List Token) : Reading :=
  match taken.getLast? with
  | none => r
  | some t => { r with tokens := r.tokens.drop taken.length, start := t.start, stop := t.stop }

/-- A part of the grammar of messages. -/
abbrev Part (α : Type) := StateT Reading (Except Error) α

namespace Part

variable {α β : Type}

/-- What the next token says, if there is one. -/
def peek : Part (Option Lexeme) := fun r =>
  match r.tokens, r.failure with
  | t :: _, _ => .ok (some t.lexeme, r)
  | [], none => .ok (none, r)
  | [], some e => .error e

/-- Past the next token, if there is one. -/
def skip : Part Unit := fun r => .ok ((), r.past (r.tokens.take 1))

/-- A fault at the token that was read last. -/
def failAt (f : Fault) : Part α := fun r => .error ⟨r.start, f⟩

/-- A fault right after the token that was read last. -/
def failAfter (f : Fault) : Part α := fun r => .error ⟨r.stop, f⟩

/-- What the next tokens say, as long as they are of the selected kind. -/
def collect (select : Lexeme → Option α) : Part (List α) := fun r =>
  let taken := r.tokens.takeWhile fun t => (select t.lexeme).isSome
  .ok (taken.filterMap fun t => select t.lexeme, r.past taken)

/-- The text of a string. -/
def text? : Lexeme → Option String
  | .text value => some value
  | _ => none

/-- The kind and the text of a comment. -/
def comment? : Lexeme → Option (CommentKind × String)
  | .comment kind text => some (kind, text)
  | _ => none

/-- One or more strings. -/
def texts : Part (List String) := do
  let values ← collect text?
  -- An error in the next token is found before it is noticed that there are no strings.
  let _ ← peek
  if values.isEmpty then failAfter .missingText else pure values

/-- Strings after a keyword, if it is the keyword that comes next. -/
def optional (keyword : Lexeme) : Part (Option (List String)) := do
  if (← peek) = some keyword then
    skip
    let values ← texts
    pure (some values)
  else pure none

/-- Strings after the keyword of the key. -/
def key : Part (List String) := do
  let next ← peek
  -- The token is taken before it is judged, so that a fault lies at this token.
  skip
  if next = some .msgid then texts else failAt .missingMessage

/-- The only target of a message without a plural. -/
def single : Part (List (List String)) := do
  let next ← peek
  skip
  match next with
  | some .msgstr =>
      let values ← texts
      pure [values]
  | some (.msgstrForm _) => failAt .formWithoutPlural
  | _ => failAt .missingTarget

/-! ## Progress

Every part leaves no more tokens than it found, and a message takes at least its keyword. -/

/-- The part leaves at least `count` tokens fewer than it found. -/
def Takes (count : Nat) (p : Part α) : Prop :=
  ∀ r a r', p r = .ok (a, r') → r'.tokens.length + count ≤ r.tokens.length

/-- A sequence that succeeds is made of parts that succeed. -/
theorem bind_eq_ok {p : Part α} {f : α → Part β} {r r'' : Reading} {b : β}
    (h : (p >>= f) r = .ok (b, r'')) :
    ∃ a r', p r = .ok (a, r') ∧ f a r' = .ok (b, r'') := by
  change (p r >>= fun x => f x.1 x.2) = .ok (b, r'') at h
  cases hr : p r with
  | error e => rw [hr] at h; cases h
  | ok x => rw [hr] at h; exact ⟨x.1, x.2, rfl, h⟩

theorem takes_bind {m n : Nat} {p : Part α} {f : α → Part β} (hp : Takes m p)
    (hf : ∀ a, Takes n (f a)) : Takes (m + n) (p >>= f) := by
  intro r b r'' h
  obtain ⟨a, r', hr, h⟩ := bind_eq_ok h
  have h₁ := hp r a r' hr
  have h₂ := hf a r' b r'' h
  omega

theorem takes_then {n : Nat} {p : Part α} {f : α → Part β} (hp : Takes 0 p)
    (hf : ∀ a, Takes n (f a)) : Takes n (p >>= f) := by
  have := takes_bind hp hf
  rwa [Nat.zero_add] at this

theorem takes_pure (a : α) : Takes 0 (pure a : Part α) := by
  intro r b r' h
  cases h
  exact Nat.le_refl _

theorem takes_failAt (n : Nat) (f : Fault) : Takes n (failAt f : Part α) := by
  intro r b r' h
  cases h

theorem takes_failAfter (n : Nat) (f : Fault) : Takes n (failAfter f : Part α) := by
  intro r b r' h
  cases h

theorem takes_peek : Takes 0 peek := by
  intro r a r' h
  simp only [peek] at h
  split at h <;> cases h <;> exact Nat.le_refl _

theorem length_past_le (r : Reading) (taken : List Token) :
    (r.past taken).tokens.length ≤ r.tokens.length := by
  simp only [Reading.past]
  split
  · exact Nat.le_refl _
  · simp

theorem takes_skip : Takes 0 skip := by
  intro r a r' h
  cases h
  exact length_past_le r _

theorem takes_collect (select : Lexeme → Option α) : Takes 0 (collect select) := by
  intro r a r' h
  cases h
  exact length_past_le r _

theorem takes_texts : Takes 0 texts := by
  refine takes_then (takes_collect text?) fun values => takes_then takes_peek fun _ => ?_
  split
  · exact takes_failAfter 0 _
  · exact takes_pure values

theorem takes_optional (keyword : Lexeme) : Takes 0 (optional keyword) := by
  refine takes_then takes_peek fun next => ?_
  split
  · exact takes_then takes_skip fun _ => takes_then takes_texts fun values => takes_pure _
  · exact takes_pure none

theorem takes_single : Takes 0 single := by
  refine takes_then takes_peek fun next => takes_then takes_skip fun _ => ?_
  split
  · exact takes_then takes_texts fun values => takes_pure _
  · exact takes_failAt 0 _
  · exact takes_failAt 0 _

/-- After looking at a token that is there, skipping takes it. -/
theorem takes_peek_skip {next : Option Lexeme} {r r₁ r₂ : Reading} (h : peek r = .ok (next, r₁))
    (hs : next ≠ none) (h₂ : skip r₁ = .ok ((), r₂)) :
    r₂.tokens.length + 1 ≤ r.tokens.length := by
  simp only [peek] at h
  split at h
  · rename_i ht
    cases h
    cases h₂
    simp [Reading.past, ht]
  · cases h; exact absurd rfl hs
  · cases h

theorem takes_key : Takes 1 key := by
  intro r a r' h
  obtain ⟨next, r₁, hp, h⟩ := bind_eq_ok h
  obtain ⟨_, r₂, hs, h⟩ := bind_eq_ok h
  split at h
  · rename_i hn
    have h₁ := takes_peek_skip hp (by simp [hn]) hs
    have h₂ := takes_texts _ _ _ h
    omega
  · cases h

/-- The forms of a plural message, the first of them with the number `expected`. -/
def formsFrom (expected : Nat) : Part (List (List String)) := fun r =>
  match _h : peek r with
  | .ok (some (.msgstrForm index), r₁) =>
      match _h₁ : skip r₁ with
      | .error e => .error e
      | .ok ((), r₂) =>
          if index = expected then
            match _h₂ : texts r₂ with
            | .error e => .error e
            | .ok (form, r₃) =>
                (formsFrom (expected + 1) r₃).map fun (forms, r) => (form :: forms, r)
          else failAt (.formOutOfOrder expected) r₂
  | .ok (_, r₁) => .ok ([], r₁)
  | .error e => .error e
termination_by r => r.tokens.length
decreasing_by
  have := takes_peek_skip _h (by simp) _h₁
  have := takes_texts _ _ _ _h₂
  omega

/-- The forms of a plural message, at least one. -/
def forms : Part (List (List String)) := do
  let all ← formsFrom 0
  if all.isEmpty then failAfter .missingForms else pure all

theorem takes_formsFrom (expected : Nat) : Takes 0 (formsFrom expected) := by
  intro r a r' h
  fun_induction formsFrom expected r generalizing a r' with
  | case1 => cases h
  | case2 => cases h
  | case3 r index r₁ hp r₂ hs form r₃ ht ih =>
    cases hf : formsFrom (index + 1) r₃ with
    | error e => rw [hf] at h; cases h
    | ok x =>
      rw [hf] at h
      cases h
      have h₁ := takes_peek_skip hp (by simp) hs
      have h₂ := takes_texts _ _ _ ht
      have h₃ := ih _ _ hf
      omega
  | case4 => cases h
  | case5 expected r r₁ next _ hp =>
    cases h
    exact takes_peek _ _ _ hp
  | case6 => cases h

theorem takes_forms : Takes 0 forms := by
  refine takes_then (takes_formsFrom 0) fun all => ?_
  split
  · exact takes_failAfter 0 _
  · exact takes_pure all

/-- The targets of a message, which are forms if it has a plural. -/
def targets (plural : Option (List String)) : Part (List (List String)) :=
  if plural.isSome then forms else single

theorem takes_targets (plural : Option (List String)) : Takes 0 (targets plural) := by
  unfold targets
  split
  · exact takes_forms
  · exact takes_single

/-! ## Reading messages -/

/-- The texts of the comments of a kind. -/
def commentsOf (kind : CommentKind) (comments : List (CommentKind × String)) : List String :=
  (comments.filter fun comment => comment.1 = kind).map Prod.snd

/-- A message after its comments. -/
def message (comments : List (CommentKind × String)) : Part Message := do
  let context ← optional .msgctxt
  let id ← key
  let plural ← optional .msgidPlural
  let targets ← targets plural
  pure {
    translatorComments := commentsOf .translator comments
    automaticComments := commentsOf .automatic comments
    references := commentsOf .reference comments
    flagLines := commentsOf .flags comments
    context, id, plural, targets }

/-- The next message; none if nothing but comments is left. -/
def next : Part (Option Message) := do
  let comments ← collect comment?
  match (← peek) with
  -- Comments at the end of a text belong to no message.
  | none => pure none
  | some _ =>
      let m ← message comments
      pure (some m)

theorem takes_message (comments : List (CommentKind × String)) : Takes 1 (message comments) :=
  takes_then (takes_optional .msgctxt) fun _ =>
    takes_bind takes_key fun _ =>
      takes_then (takes_optional .msgidPlural) fun plural =>
        takes_then (takes_targets plural) fun _ => takes_pure _

theorem length_next {m : Message} {r r' : Reading} (h : next r = .ok (some m, r')) :
    r'.tokens.length < r.tokens.length := by
  obtain ⟨comments, r₁, hc, h⟩ := bind_eq_ok h
  obtain ⟨lexeme, r₂, hp, h⟩ := bind_eq_ok h
  have h₁ := takes_collect comment? r comments r₁ hc
  have h₂ := takes_peek r₁ lexeme r₂ hp
  cases lexeme with
  | none => cases h
  | some l =>
    obtain ⟨m', r₃, hm, h⟩ := bind_eq_ok h
    -- Comments and a look at the next token take nothing back, and the message takes its keyword.
    have h₃ := takes_message comments r₂ m' r₃ hm
    cases h
    omega

end Part

/-- The messages still to be read and, if reading does not come to the end, the error. -/
def Reading.messages (r : Reading) : List Message × Option Error :=
  match _h : Part.next r with
  | .error e => ([], some e)
  | .ok (none, _) => ([], none)
  | .ok (some m, r') =>
      let (messages, failure) := r'.messages
      (m :: messages, failure)
termination_by r.tokens.length
decreasing_by exact Part.length_next _h

/-- The messages of a text and, if it is not a PO text to its end, the error. -/
def read (text : String) : List Message × Option Error := (Reading.ofText text).messages

/-! ## One message at a time -/

/-- Nothing is left to be read. -/
def Reading.atEnd (r : Reading) : Bool := r.tokens.isEmpty && r.failure.isNone

/-- A reader that is asked for one message after another: what it still has to read, and whether it
has met the end of the text or an error, after which it says nothing any more. -/
structure Reader where
  rest : Reading
  done : Bool
  deriving Repr, DecidableEq

namespace Reader

/-- Before the first message of a text. -/
def ofText (text : String) : Reader := ⟨.ofText text, false⟩

/-- The next message or an error, if there is one, and the reader after it. -/
def next (it : Reader) : Option (Except Error Message) × Reader :=
  if it.done then (none, it)
  else match Part.next it.rest with
    | .error e => (some (.error e), { it with done := true })
    | .ok (none, r) => (none, ⟨r, true⟩)
    -- A message is followed by a look at the next token, so the end is met with the last message.
    | .ok (some m, r) => (some (.ok m), ⟨r, r.atEnd⟩)

/-- What the reader says when it is asked once more, after it has been asked a number of times. -/
def answer (it : Reader) : Nat → Option (Except Error Message)
  | 0 => it.next.1
  | asked + 1 => it.next.2.answer asked

end Reader

end MessageCatalog.Po
