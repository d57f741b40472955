import MessageCatalog.Po.Message

set_option autoImplicit false

/-! # Reading what messages are made of

`Message.lexemes` is what a message without comments is made of. A part of the grammar `Yields`
a result from lexemes if it reads it off every run of tokens that says them, wherever the tokens
stand. There is one such statement for each part.
-/

namespace MessageCatalog.Po

/-! ## Joined literals -/

theorem toList_joined (ls : List String) : (joined ls).toList = ls.flatMap String.toList := by
  rw [joined, String.toList_join]

theorem all_isEmpty_iff (ls : List String) : ls.all (·.isEmpty) = true ↔ joined ls = "" := by
  rw [← String.toList_inj, toList_joined, List.all_eq_true, String.toList_empty,
    List.flatMap_eq_nil_iff]
  simp only [String.isEmpty_iff, String.toList_eq_nil_iff]

theorem Message.isHeader_iff (m : Message) :
    m.isHeader = true ↔ m.context = none ∧ joined m.id = "" := by
  rw [isHeader, Bool.and_eq_true, all_isEmpty_iff, Option.isNone_iff_eq_none]

/-! ## The lexemes of a message -/

/-- A keyword and its literals. -/
def said (keyword : Lexeme) (literals : List String) : List Lexeme :=
  keyword :: literals.map Lexeme.text

/-- The forms of a plural message from the number `index` on. -/
def formLexemes : Nat → List (List String) → List Lexeme
  | _, [] => []
  | index, form :: rest => said (.msgstrForm index) form ++ formLexemes (index + 1) rest

namespace Message

/-- The targets of a message. -/
def targetLexemes (m : Message) : List Lexeme :=
  if m.plural.isSome then formLexemes 0 m.targets else m.targets.flatMap (said .msgstr)

/-- What a message is made of, apart from its comments. -/
def lexemes (m : Message) : List Lexeme :=
  m.context.elim [] (said .msgctxt) ++ (said .msgid m.id ++
    (m.plural.elim [] (said .msgidPlural) ++ m.targetLexemes))

/-- A message without comments in which no literals are missing, as the grammar has it. -/
structure IsPlain (m : Message) : Prop where
  translatorComments : m.translatorComments = []
  automaticComments : m.automaticComments = []
  references : m.references = []
  flagLines : m.flagLines = []
  context : m.context ≠ some []
  id : m.id ≠ []
  plural : m.plural ≠ some []
  targets : [] ∉ m.targets
  forms : if m.plural.isSome then m.targets ≠ [] else ∃ target, m.targets = [target]

end Message

/-! ## Parts of the grammar -/

/-- The tokens say the lexemes, and the text ends behind them. -/
def Reading.Says (r : Reading) (ls : List Lexeme) : Prop :=
  r.failure = none ∧ r.tokens.map Token.lexeme = ls

namespace Part

variable {α β : Type} {p : Part α} {f : α → Part β} {a : α} {b : β} {ls ls₁ ls₂ : List Lexeme}

/-- The part reads the result off the lexemes `ls`, and `ls₁` are left. -/
def Yields (p : Part α) (ls : List Lexeme) (a : α) (ls₁ : List Lexeme) : Prop :=
  ∀ r : Reading, r.Says ls → ∃ r', p r = .ok (a, r') ∧ r'.Says ls₁

theorem Yields.bind (hp : Yields p ls a ls₁) (hf : Yields (f a) ls₁ b ls₂) :
    Yields (p >>= f) ls b ls₂ := by
  intro r hr
  obtain ⟨r₁, hp, hr₁⟩ := hp r hr
  obtain ⟨r₂, hf, hr₂⟩ := hf r₁ hr₁
  refine ⟨r₂, ?_, hr₂⟩
  show (p r >>= fun x => f x.1 x.2) = _
  rw [hp]
  exact hf

theorem yields_pure : Yields (pure a) ls a ls := fun r hr => ⟨r, rfl, hr⟩

theorem yields_peek : Yields peek ls ls.head? ls := by
  rintro ⟨tokens, failure, start, stop⟩ ⟨rfl, rfl⟩
  cases tokens with
  | nil => exact ⟨_, rfl, rfl, rfl⟩
  | cons t rest => exact ⟨_, rfl, rfl, rfl⟩

/-- Past tokens that stand first, whatever they are, the others are left. -/
theorem past_of_tokens {r : Reading} {taken rest : List Token}
    (htokens : r.tokens = taken ++ rest) :
    (r.past taken).tokens = rest ∧ (r.past taken).failure = r.failure := by
  unfold Reading.past
  split
  · next hlast =>
      obtain rfl := List.getLast?_eq_none_iff.1 hlast
      exact ⟨htokens, rfl⟩
  · exact ⟨by rw [htokens, List.drop_left], rfl⟩

theorem says_past {r : Reading} {taken rest : List Token} (h : r.Says ls)
    (htokens : r.tokens = taken ++ rest) : (r.past taken).Says (rest.map Token.lexeme) := by
  obtain ⟨hrest, hfailure⟩ := past_of_tokens htokens
  exact ⟨hfailure.trans h.1, congrArg (List.map Token.lexeme) hrest⟩

theorem yields_skip {l : Lexeme} : Yields skip (l :: ls) () ls := by
  intro r hr
  obtain ⟨t, rest, htokens, rfl, rfl⟩ := List.map_eq_cons_iff.1 hr.2
  have htaken : r.tokens = [t] ++ rest := htokens
  refine ⟨_, rfl, ?_⟩
  rw [htokens]
  exact says_past hr htaken

/-- What is of the selected kind is collected, up to the first lexeme that is not. -/
theorem yields_collect {select : Lexeme → Option α} {taken : List Lexeme} {values : List α}
    (htaken : taken.map select = values.map some) (hls : ls.head?.bind select = none) :
    Yields (collect select) (taken ++ ls) values ls := by
  intro r hr
  obtain ⟨first, rest, htokens, rfl, rfl⟩ := List.map_eq_append_iff.1 hr.2
  have hselect : first.map (fun t => select t.lexeme) = values.map some := by
    rw [← htaken, List.map_map]
    rfl
  -- The values say of every token in front that it is of the selected kind.
  have hfirst : ∀ t ∈ first, (select t.lexeme).isSome = true := by
    intro t ht
    have hmem := List.mem_map_of_mem (f := fun t : Token => select t.lexeme) ht
    rw [hselect] at hmem
    obtain ⟨value, -, hvalue⟩ := List.mem_map.1 hmem
    rw [← hvalue]
    rfl
  have htake : r.tokens.takeWhile (fun t => (select t.lexeme).isSome) = first := by
    rw [htokens, List.takeWhile_append_of_pos hfirst]
    cases rest with
    | nil => exact List.append_nil _
    | cons t rest =>
        -- `hls` is about the head of the lexemes, which is that of `t`.
        have ht : select t.lexeme = none := hls
        rw [List.takeWhile_cons_of_neg (by simp [ht]), List.append_nil]
  have hvalues : first.filterMap (fun t => select t.lexeme) = values := by
    have h : first.filterMap (fun t => select t.lexeme) =
        (first.map fun t => select t.lexeme).filterMap id := by
      rw [List.filterMap_map]
      rfl
    rw [h, hselect, List.filterMap_map]
    exact List.filterMap_some
  refine ⟨r.past first, ?_, says_past hr htokens⟩
  unfold collect
  simp only [htake, hvalues]

theorem yields_texts {values : List String} (hne : values ≠ []) (hls : ls.head?.bind text? = none) :
    Yields texts (values.map Lexeme.text ++ ls) values ls := by
  have htexts : (values.map Lexeme.text).map text? = values.map some := by
    rw [List.map_map]
    rfl
  refine (yields_collect htexts hls).bind (yields_peek.bind ?_)
  rw [if_neg (by rwa [List.isEmpty_iff])]
  exact yields_pure

theorem yields_optional {keyword : Lexeme} {values : Option (List String)} (hne : values ≠ some [])
    (htext : ls.head?.bind text? = none) (hkeyword : ls.head? ≠ some keyword) :
    Yields (optional keyword) (values.elim [] (said keyword) ++ ls) values ls := by
  cases values with
  | none =>
      refine yields_peek.bind ?_
      rw [if_neg (by exact hkeyword)]
      exact yields_pure
  | some values =>
      refine yields_peek.bind ?_
      rw [if_pos (by rfl)]
      have htexts := yields_texts (fun h => hne (congrArg some h)) htext
      exact yields_skip.bind (htexts.bind yields_pure)

theorem yields_key {values : List String} (hne : values ≠ []) (hls : ls.head?.bind text? = none) :
    Yields key (said .msgid values ++ ls) values ls :=
  yields_peek.bind (yields_skip.bind (yields_texts hne hls))

theorem yields_single {values : List String} (hne : values ≠ [])
    (hls : ls.head?.bind text? = none) :
    Yields single (said .msgstr values ++ ls) [values] ls :=
  yields_peek.bind (yields_skip.bind ((yields_texts hne hls).bind yields_pure))

/-! ## Forms -/

/-- The number of a form, if there is one. -/
def form? : Lexeme → Option Nat
  | .msgstrForm index => some index
  | _ => none

theorem yields_formsFrom_nil {expected : Nat} (hls : ls.head?.bind form? = none) :
    Yields (formsFrom expected) ls [] ls := by
  intro r hr
  obtain ⟨r', hpeek, hr'⟩ := yields_peek r hr
  refine ⟨r', ?_, hr'⟩
  rw [formsFrom]
  split
  · next h =>
      rw [hpeek, Except.ok.injEq, Prod.mk.injEq] at h
      rw [h.1] at hls
      cases hls
  · next h =>
      rw [hpeek, Except.ok.injEq, Prod.mk.injEq] at h
      rw [h.2]
  · next h => rw [hpeek] at h; cases h

theorem yields_formsFrom_cons {expected : Nat} {form : List String} {rest : List (List String)}
    (hne : form ≠ []) (hls : ls.head?.bind text? = none)
    (hrest : Yields (formsFrom (expected + 1)) ls rest ls₁) :
    Yields (formsFrom expected) (said (.msgstrForm expected) form ++ ls) (form :: rest) ls₁ := by
  intro r hr
  obtain ⟨r₁, hpeek, hr₁⟩ := yields_peek r hr
  obtain ⟨r₂, hskip, hr₂⟩ := yields_skip r₁ hr₁
  obtain ⟨r₃, htexts, hr₃⟩ := yields_texts hne hls r₂ hr₂
  obtain ⟨r₄, hforms, hr₄⟩ := hrest r₃ hr₃
  refine ⟨r₄, ?_, hr₄⟩
  replace hpeek : peek r = .ok (some (.msgstrForm expected), r₁) := hpeek
  -- `formsFrom` is no chain of parts, since it ends by the tokens that are left: it is opened here,
  -- and every match but one is against what the parts were shown to give.
  rw [formsFrom]
  split
  · next h =>
      rw [hpeek] at h
      cases h
      split
      · next h => rw [hskip] at h; cases h
      · next h =>
          rw [hskip] at h
          cases h
          rw [if_pos rfl]
          split
          · next h => rw [htexts] at h; cases h
          · next h =>
              rw [htexts] at h
              cases h
              rw [hforms]
              rfl
  · next hnot h =>
      rw [hpeek] at h
      cases h
      exact absurd rfl (hnot _)
  · next h => rw [hpeek] at h; cases h

theorem yields_formsFrom (expected : Nat) {forms : List (List String)} (hne : [] ∉ forms)
    (htext : ls.head?.bind text? = none) (hform : ls.head?.bind form? = none) :
    Yields (formsFrom expected) (formLexemes expected forms ++ ls) forms ls := by
  induction forms generalizing expected with
  | nil => exact yields_formsFrom_nil hform
  | cons form rest ih =>
      rw [List.mem_cons, not_or] at hne
      rw [formLexemes, List.append_assoc]
      refine yields_formsFrom_cons (Ne.symm hne.1) ?_ (ih (expected + 1) hne.2)
      -- The next form starts with its keyword, and behind the last one there is no literal either.
      cases rest with
      | nil => exact htext
      | cons next more => rfl

end Part

theorem Reading.messages_eq (r : Reading) :
    r.messages = match Part.next r with
      | .error e => ([], some e)
      | .ok (none, _) => ([], none)
      | .ok (some m, r') => (m :: r'.messages.1, r'.messages.2) := by
  rw [Reading.messages]
  split <;> next h => rw [h]

end MessageCatalog.Po
