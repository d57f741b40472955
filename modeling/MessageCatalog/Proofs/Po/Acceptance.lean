import MessageCatalog.Proofs.Po.Grammar

set_option autoImplicit false

/-! # What is read as messages

A part of the grammar that succeeds took lexemes of its own form from the front (`Leaves`), and
there is one such statement for each part. So every message that is read stands as a group in the
text, and a text that is read to its end is what the grammar has.

A reader says this one message at a time: messages, then perhaps an error, and nothing after that.
It says no error if and only if the text has the form of `IsText`.
-/

namespace MessageCatalog.Po

/-! ## What was taken -/

namespace Reading

/-- What the tokens still to be read say. -/
def lexemes (r : Reading) : List Lexeme := r.tokens.map Token.lexeme

/-- The lexemes `ls` stand first, and `r'` is what is left behind them. -/
structure Leaves (r : Reading) (ls : List Lexeme) (r' : Reading) : Prop where
  lexemes : r.lexemes = ls ++ r'.lexemes
  failure : r'.failure = r.failure

variable {r r' r'' : Reading} {ls ls' : List Lexeme}

theorem Leaves.refl (r : Reading) : r.Leaves [] r := ⟨rfl, rfl⟩

theorem Leaves.trans (h : r.Leaves ls r') (h' : r'.Leaves ls' r'') : r.Leaves (ls ++ ls') r'' :=
  ⟨by rw [h.lexemes, h'.lexemes, List.append_assoc], h'.failure.trans h.failure⟩

theorem leaves_past {taken rest : List Token} (htokens : r.tokens = taken ++ rest) :
    r.Leaves (taken.map Token.lexeme) (r.past taken) := by
  obtain ⟨hrest, hfailure⟩ := Part.past_of_tokens htokens
  refine ⟨?_, hfailure⟩
  rw [lexemes, lexemes, htokens, hrest, List.map_append]

end Reading

/-! ## Parts that succeed -/

namespace Part

variable {α : Type} {r r' : Reading}

theorem peek_eq_ok {next : Option Lexeme} (h : peek r = .ok (next, r')) :
    r = r' ∧ next = r.lexemes.head? ∧ (next = none → r.failure = none) := by
  obtain ⟨tokens, failure, start, stop⟩ := r
  cases tokens with
  | cons t rest => cases h; exact ⟨rfl, rfl, nofun⟩
  | nil =>
      cases failure with
      | none => cases h; exact ⟨rfl, rfl, fun _ => rfl⟩
      | some e => cases h

theorem skip_eq_ok (h : skip r = .ok ((), r')) : r.Leaves r.lexemes.head?.toList r' := by
  cases h
  have htokens : r.tokens = r.tokens.take 1 ++ r.tokens.drop 1 := (List.take_append_drop 1 _).symm
  have htaken : (r.tokens.take 1).map Token.lexeme = r.lexemes.head?.toList := by
    rw [Reading.lexemes]
    cases r.tokens <;> rfl
  exact htaken ▸ Reading.leaves_past htokens

/-- If a selected lexeme is known from what is selected of it, then the tokens of the selected kind
in front say what is selected of them. -/
theorem map_lexeme_takeWhile {select : Lexeme → Option α} {say : α → Lexeme}
    (hselect : ∀ l a, select l = some a → l = say a) (tokens : List Token) :
    (tokens.takeWhile fun t => (select t.lexeme).isSome).map Token.lexeme =
      ((tokens.takeWhile fun t => (select t.lexeme).isSome).filterMap
        fun t => select t.lexeme).map say := by
  induction tokens with
  | nil => rfl
  | cons t rest ih =>
      cases ht : select t.lexeme with
      | none => simp [ht]
      | some a => simpa [List.takeWhile_cons, ht, ← hselect _ _ ht] using ih

theorem collect_eq_ok {select : Lexeme → Option α} {say : α → Lexeme} {values : List α}
    (hselect : ∀ l a, select l = some a → l = say a) (h : collect select r = .ok (values, r')) :
    r.Leaves (values.map say) r' := by
  cases h
  have hsplit : r.tokens = r.tokens.takeWhile (fun t => (select t.lexeme).isSome) ++
      r.tokens.dropWhile (fun t => (select t.lexeme).isSome) :=
    List.takeWhile_append_dropWhile.symm
  exact map_lexeme_takeWhile hselect r.tokens ▸ Reading.leaves_past hsplit

theorem eq_of_text?_eq_some : ∀ l value, text? l = some value → l = .text value := by
  rintro (_ | _) value h <;> cases h
  rfl

theorem eq_of_comment?_eq_some :
    ∀ l (comment : CommentKind × String), comment? l = some comment →
      l = .comment comment.1 comment.2 := by
  rintro (_ | _) comment h <;> cases h
  rfl

theorem texts_eq_ok {values : List String} (h : texts r = .ok (values, r')) :
    values ≠ [] ∧ r.Leaves (values.map Lexeme.text) r' := by
  obtain ⟨found, r₁, hcollect, h⟩ := bind_eq_ok h
  obtain ⟨_, r₂, hpeek, h⟩ := bind_eq_ok h
  obtain ⟨rfl, -⟩ := peek_eq_ok hpeek
  split at h
  · cases h
  · next hne =>
      cases h
      exact ⟨by simpa using hne, collect_eq_ok eq_of_text?_eq_some hcollect⟩

/-- Strings that were read behind a keyword. -/
theorem said_eq_ok {keyword : Lexeme} {values : List String} {r₁ : Reading}
    (hhead : r.lexemes.head? = some keyword) (hskip : skip r = .ok ((), r₁))
    (htexts : texts r₁ = .ok (values, r')) : values ≠ [] ∧ r.Leaves (said keyword values) r' := by
  have hkeyword := skip_eq_ok hskip
  obtain ⟨hne, hvalues⟩ := texts_eq_ok htexts
  rw [hhead] at hkeyword
  exact ⟨hne, hkeyword.trans hvalues⟩

theorem optional_eq_ok {keyword : Lexeme} {values : Option (List String)}
    (h : optional keyword r = .ok (values, r')) :
    values ≠ some [] ∧ r.Leaves (values.elim [] (said keyword)) r' := by
  obtain ⟨next, r₁, hpeek, h⟩ := bind_eq_ok h
  obtain ⟨rfl, rfl, -⟩ := peek_eq_ok hpeek
  split at h
  · next hhead =>
      obtain ⟨_, r₂, hskip, h⟩ := bind_eq_ok h
      obtain ⟨found, r₃, htexts, h⟩ := bind_eq_ok h
      cases h
      obtain ⟨hne, hsaid⟩ := said_eq_ok hhead hskip htexts
      exact ⟨fun h => hne (Option.some.inj h), hsaid⟩
  · cases h
    exact ⟨nofun, .refl _⟩

theorem key_eq_ok {values : List String} (h : key r = .ok (values, r')) :
    values ≠ [] ∧ r.Leaves (said .msgid values) r' := by
  obtain ⟨next, r₁, hpeek, h⟩ := bind_eq_ok h
  obtain ⟨rfl, rfl, -⟩ := peek_eq_ok hpeek
  obtain ⟨_, r₂, hskip, h⟩ := bind_eq_ok h
  split at h
  · next hhead => exact said_eq_ok hhead hskip h
  · cases h

theorem single_eq_ok {all : List (List String)} (h : single r = .ok (all, r')) :
    ∃ values, all = [values] ∧ values ≠ [] ∧ r.Leaves (said .msgstr values) r' := by
  obtain ⟨next, r₁, hpeek, h⟩ := bind_eq_ok h
  obtain ⟨rfl, hhead, -⟩ := peek_eq_ok hpeek
  obtain ⟨_, r₂, hskip, h⟩ := bind_eq_ok h
  split at h
  · obtain ⟨values, r₃, htexts, h⟩ := bind_eq_ok h
    cases h
    exact ⟨values, rfl, said_eq_ok hhead.symm hskip htexts⟩
  · cases h
  · cases h

theorem formsFrom_eq_ok {expected : Nat} {all : List (List String)}
    (h : formsFrom expected r = .ok (all, r')) :
    [] ∉ all ∧ r.Leaves (formLexemes expected all) r' := by
  fun_induction formsFrom expected r generalizing all r' with
  | case1 => cases h
  | case2 => cases h
  | case3 r index r₁ hpeek r₂ hskip form r₃ htexts ih =>
      cases hforms : formsFrom (index + 1) r₃ with
      | error e => rw [hforms] at h; cases h
      | ok read =>
          rw [hforms] at h
          cases h
          obtain ⟨rfl, hhead, -⟩ := peek_eq_ok hpeek
          obtain ⟨hne, hsaid⟩ := said_eq_ok hhead.symm hskip htexts
          obtain ⟨hnotMem, hrest⟩ := ih hforms
          exact ⟨by simp [hne, hnotMem], hsaid.trans hrest⟩
  | case4 => cases h
  | case5 expected r r₁ next _ hpeek =>
      cases h
      obtain ⟨rfl, -⟩ := peek_eq_ok hpeek
      exact ⟨List.not_mem_nil, .refl _⟩
  | case6 => cases h

theorem forms_eq_ok {all : List (List String)} (h : forms r = .ok (all, r')) :
    all ≠ [] ∧ [] ∉ all ∧ r.Leaves (formLexemes 0 all) r' := by
  obtain ⟨found, r₁, hforms, h⟩ := bind_eq_ok h
  split at h
  · cases h
  · next hne =>
      cases h
      exact ⟨by simpa using hne, formsFrom_eq_ok hforms⟩

theorem targets_eq_ok {plural : Option (List String)} {all : List (List String)} {r₁ : Reading}
    (hplural : optional .msgidPlural r = .ok (plural, r₁))
    (htargets : targets plural r₁ = .ok (all, r')) :
    ∃ ls, IsTargets ls plural all ∧ r.Leaves ls r' := by
  obtain ⟨hne, hleaves⟩ := optional_eq_ok hplural
  cases plural with
  | none =>
      obtain ⟨target, rfl, htarget, hsingle⟩ := single_eq_ok htargets
      exact ⟨_, .single htarget, hleaves.trans hsingle⟩
  | some plural =>
      obtain ⟨hforms, hliterals, hall⟩ := forms_eq_ok htargets
      exact ⟨_, .forms (fun h => hne (congrArg some h)) hforms hliterals, hleaves.trans hall⟩

theorem message_eq_ok {comments : List (CommentKind × String)} {m : Message}
    (h : message comments r = .ok (m, r')) :
    ∃ ls, IsGroup (commentLexemes comments ++ ls) m ∧ r.Leaves ls r' := by
  obtain ⟨context, r₁, hcontext, h⟩ := bind_eq_ok h
  obtain ⟨id, r₂, hid, h⟩ := bind_eq_ok h
  obtain ⟨plural, r₃, hplural, h⟩ := bind_eq_ok h
  obtain ⟨all, r₄, htargets, h⟩ := bind_eq_ok h
  cases h
  obtain ⟨hcontextNe, hcontext⟩ := optional_eq_ok hcontext
  obtain ⟨hidNe, hid⟩ := key_eq_ok hid
  obtain ⟨ls, hls, hrest⟩ := targets_eq_ok hplural htargets
  exact ⟨_, .intro (keeps_iff.2 rfl) (keeps_iff.2 rfl) (keeps_iff.2 rfl) (keeps_iff.2 rfl)
    hcontextNe hidNe hls, hcontext.trans (hid.trans hrest)⟩

/-- A message that is read stands in front as a group. -/
theorem next_eq_ok_some {m : Message} (h : next r = .ok (some m, r')) :
    ∃ ls, IsGroup ls m ∧ r.Leaves ls r' := by
  obtain ⟨comments, r₁, hcollect, h⟩ := bind_eq_ok h
  obtain ⟨head, r₂, hpeek, h⟩ := bind_eq_ok h
  obtain ⟨rfl, -⟩ := peek_eq_ok hpeek
  cases head with
  | none => cases h
  | some l =>
      obtain ⟨m', r₃, hmessage, h⟩ := bind_eq_ok h
      cases h
      obtain ⟨ls, hm, hls⟩ := message_eq_ok hmessage
      exact ⟨_, hm, (collect_eq_ok eq_of_comment?_eq_some hcollect).trans hls⟩

/-- No message is left if there are but comments up to the end of the text. -/
theorem next_eq_ok_none (h : next r = .ok (none, r')) :
    r.failure = none ∧ ∃ comments, r.lexemes = commentLexemes comments := by
  obtain ⟨comments, r₁, hcollect, h⟩ := bind_eq_ok h
  obtain ⟨head, r₂, hpeek, h⟩ := bind_eq_ok h
  obtain ⟨rfl, hhead, hend⟩ := peek_eq_ok hpeek
  have hleaves := collect_eq_ok eq_of_comment?_eq_some hcollect
  cases head with
  | some l =>
      obtain ⟨m, r₃, -, h⟩ := bind_eq_ok h
      cases h
  | none =>
      have hnil : r₁.lexemes = [] := List.head?_eq_none_iff.1 hhead.symm
      refine ⟨hleaves.failure ▸ hend rfl, comments, ?_⟩
      rw [hleaves.lexemes, hnil, List.append_nil]
      rfl

end Part

/-! ## All messages of a text -/

namespace Reading

/-- What is read stands in the text from its start on, and reading without an error goes to the end
of the text. -/
theorem isText_messages (r : Reading) :
    ∃ front rest, r.lexemes = front ++ rest ∧ IsText front r.messages.1 ∧
      (r.messages.2 = none → r.failure = none ∧ rest = []) := by
  fun_induction Reading.messages r with
  | case1 r e h => exact ⟨[], r.lexemes, rfl, .comments [], nofun⟩
  | case2 r r' h =>
      obtain ⟨hfailure, comments, hcomments⟩ := Part.next_eq_ok_none h
      refine ⟨commentLexemes comments, [], ?_, .comments comments, fun _ => ⟨hfailure, rfl⟩⟩
      rw [hcomments, List.append_nil]
  | case3 r m r' h ms failure hms ih =>
      obtain ⟨ls, hm, hls⟩ := Part.next_eq_ok_some h
      obtain ⟨front, rest, hrest, hfront, hend⟩ := ih
      rw [hms] at hfront hend
      refine ⟨ls ++ front, rest, ?_, .group hm hfront, fun h => ?_⟩
      · rw [hls.lexemes, hrest, List.append_assoc]
      · obtain ⟨hfailure, hnil⟩ := hend h
        exact ⟨hls.failure ▸ hfailure, hnil⟩

/-- **Reading comes to the end of what the grammar has, and of nothing else.** -/
theorem messages_eq_iff {r : Reading} {ms : List Message} :
    r.messages = (ms, none) ↔ r.failure = none ∧ IsText r.lexemes ms := by
  constructor
  · intro h
    obtain ⟨front, rest, hlexemes, hfront, hend⟩ := r.isText_messages
    rw [h] at hfront hend
    obtain ⟨hfailure, rfl⟩ := hend rfl
    rw [hlexemes, List.append_nil]
    exact ⟨hfailure, hfront⟩
  · rintro ⟨hfailure, htext⟩
    exact messages_of_isText htext ⟨hfailure, rfl⟩

end Reading

theorem IsText.exists_isGroup {ls : List Lexeme} {m : Message} {ms : List Message}
    (h : IsText ls ms) (hm : m ∈ ms) : ∃ ls', IsGroup ls' m := by
  induction h with
  | comments comments => cases hm
  | group hgroup hrest ih =>
      obtain rfl | hm := List.mem_cons.1 hm
      · exact ⟨_, hgroup⟩
      · exact ih hm

/-- A message of a text that has no plural has one target. -/
theorem targets_of_mem_read {text : String} {m : Message} (hm : m ∈ (read text).1)
    (hplural : m.plural = none) : ∃ target, m.targets = [target] := by
  obtain ⟨front, rest, -, hfront, -⟩ := (Reading.ofText text).isText_messages
  obtain ⟨ls, hgroup⟩ := hfront.exists_isGroup hm
  cases hgroup with
  | intro _ _ _ _ hcontext hid htargets =>
      rw [hplural] at htargets
      generalize m.targets = all at htargets
      cases htargets with
      | single htarget => exact ⟨_, rfl⟩

/-! ## One message at a time -/

namespace Reading

/-- What a reading comes to: its messages, and the error that stops it. -/
def items (r : Reading) : List (Except Error Message) :=
  r.messages.1.map .ok ++ r.messages.2.toList.map .error

theorem items_of_error {r : Reading} {e : Error} (h : Part.next r = .error e) :
    r.items = [.error e] := by
  rw [items, r.messages_eq, h]
  rfl

theorem items_of_none {r r' : Reading} (h : Part.next r = .ok (none, r')) : r.items = [] := by
  rw [items, r.messages_eq, h]
  rfl

theorem items_of_some {r r' : Reading} {m : Message} (h : Part.next r = .ok (some m, r')) :
    r.items = .ok m :: r'.items := by
  rw [items, r.messages_eq, h]
  rfl

theorem items_of_atEnd {r : Reading} (h : r.atEnd = true) : r.items = [] := by
  rw [atEnd, Bool.and_eq_true, List.isEmpty_iff, Option.isNone_iff_eq_none] at h
  have hempty : IsText r.lexemes [] := by
    rw [lexemes, h.1]
    exact .comments []
  rw [items, messages_eq_iff.2 ⟨h.2, hempty⟩]
  rfl

theorem items_eq_map_ok_iff {r : Reading} {ms : List Message} :
    r.items = ms.map .ok ↔ r.messages = (ms, none) := by
  rw [items]
  obtain ⟨ms', _ | e⟩ := r.messages
  · have hinj : ms'.map (Except.ok : Message → Except Error Message) = ms.map .ok ↔ ms' = ms :=
      List.map_inj_right fun _ _ => Except.ok.inj
    simp [hinj]
  · have hnot : ms'.map Except.ok ++ [Except.error e] ≠ ms.map Except.ok := by
      intro h
      have hmem : Except.error e ∈ ms.map Except.ok := by simp [← h]
      simp at hmem
    simpa using hnot

end Reading

namespace Reader

/-- What the reader has still to say. -/
def items (it : Reader) : List (Except Error Message) := if it.done then [] else it.rest.items

/-- However often it is asked, the reader says these, one after another, and nothing after them. -/
def Gives (it : Reader) (all : List (Except Error Message)) : Prop :=
  ∀ asked, it.answer asked = all[asked]?

/-- Asked once, the reader says the first of what it has to say, and keeps the rest. -/
theorem next_eq (it : Reader) :
    it.next.1 = it.items.head? ∧ it.next.2.items = it.items.tail := by
  obtain ⟨r, done⟩ := it
  cases done with
  | true => exact ⟨rfl, rfl⟩
  | false =>
      show (next ⟨r, false⟩).1 = r.items.head? ∧ (next ⟨r, false⟩).2.items = r.items.tail
      cases h : Part.next r with
      | error e =>
          simp only [next, h, Reading.items_of_error h]
          exact ⟨rfl, rfl⟩
      | ok read =>
          obtain ⟨m | _, r'⟩ := read
          · simp only [next, h, Reading.items_of_none h]
            exact ⟨rfl, rfl⟩
          · simp only [next, h, Reading.items_of_some h]
            refine ⟨rfl, ?_⟩
            -- A reader that stops with its last message had nothing left to say.
            show (if r'.atEnd = true then [] else r'.items) = r'.items
            split
            · next hend => exact (Reading.items_of_atEnd hend).symm
            · rfl

theorem gives_items (it : Reader) : it.Gives it.items := by
  intro asked
  induction asked generalizing it with
  | zero => rw [answer, it.next_eq.1, List.head?_eq_getElem?]
  | succ asked ih => rw [answer, ih, it.next_eq.2, List.getElem?_tail]

theorem gives_iff {it : Reader} {all : List (Except Error Message)} :
    it.Gives all ↔ it.items = all := by
  constructor
  · intro h
    refine List.ext_getElem? fun asked => ?_
    rw [← it.gives_items asked, h asked]
  · rintro rfl
    exact it.gives_items

end Reader

/-- **The grammar of messages is what is accepted.** From a text a reader gives messages and no
error if and only if the text is made of tokens to its end and these are groups and comments as
`IsText` has them, and then it gives one message for each group. From any other text it gives the
messages of the groups in front, then one error. It says nothing after that. -/
theorem gives_ofText (text : String) :
    (∀ ms, (Reader.ofText text).Gives (ms.map .ok) ↔
      (scan text).2 = none ∧ IsText ((scan text).1.map Token.lexeme) ms) ∧
    ((∃ ms, (scan text).2 = none ∧ IsText ((scan text).1.map Token.lexeme) ms) ∨
      ∃ front rest ms e, (scan text).1.map Token.lexeme = front ++ rest ∧ IsText front ms ∧
        (Reader.ofText text).Gives (ms.map .ok ++ [.error e])) := by
  have hgives : ∀ ms, (Reader.ofText text).Gives (ms.map .ok) ↔
      (scan text).2 = none ∧ IsText ((scan text).1.map Token.lexeme) ms := by
    intro ms
    rw [Reader.gives_iff]
    exact Reading.items_eq_map_ok_iff.trans Reading.messages_eq_iff
  refine ⟨hgives, ?_⟩
  obtain ⟨front, rest, hlexemes, hfront, -⟩ := (Reading.ofText text).isText_messages
  have hitems := (Reader.ofText text).gives_items
  cases hfailure : (Reading.ofText text).messages.2 with
  | none =>
      refine .inl ⟨(Reading.ofText text).messages.1, (hgives _).1 ?_⟩
      have hall : (Reader.ofText text).items = (Reading.ofText text).messages.1.map .ok :=
        Reading.items_eq_map_ok_iff.2 (Prod.ext rfl hfailure)
      exact hall ▸ hitems
  | some e =>
      refine .inr ⟨front, rest, (Reading.ofText text).messages.1, e, hlexemes, hfront, ?_⟩
      have hall : (Reader.ofText text).items =
          (Reading.ofText text).messages.1.map .ok ++ [.error e] := by
        show (Reading.ofText text).items = _
        rw [Reading.items, hfailure]
        rfl
      exact hall ▸ hitems

end MessageCatalog.Po
