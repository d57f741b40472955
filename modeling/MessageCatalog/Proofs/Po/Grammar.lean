import MessageCatalog.Proofs.Po.Reading

set_option autoImplicit false

/-! # The grammar of messages

A PO text is a run of groups, one for each message, and comments at its end (`IsText`). A group
(`IsGroup`) is made of comments, perhaps a context, a key, and targets (`IsTargets`), and the
literals behind each keyword are one or more. Comments of four kinds are kept with the message, each
kind by itself and in order (`Keeps`), the others are dropped. What the grammar takes for messages
is read as these messages (`messages_of_isText`).
-/

namespace MessageCatalog.Po

/-! ## Texts as lexemes -/

/-- Comments as they stand in front of a message. -/
def commentLexemes (comments : List (CommentKind × String)) : List Lexeme :=
  comments.map fun comment => .comment comment.1 comment.2

/-- Targets: the only one of a message without a plural, or a plural and its forms, of which there
is at least one and which are numbered from zero on. -/
inductive IsTargets : List Lexeme → Option (List String) → List (List String) → Prop
  | single {target : List String} (htarget : target ≠ []) :
      IsTargets (said .msgstr target) none [target]
  | forms {plural : List String} {forms : List (List String)} (hplural : plural ≠ [])
      (hforms : forms ≠ []) (hliterals : [] ∉ forms) :
      IsTargets (said .msgidPlural plural ++ formLexemes 0 forms) (some plural) forms

/-- The texts of the comments of one kind, in their order. -/
inductive Keeps (kind : CommentKind) : List (CommentKind × String) → List String → Prop
  | nil : Keeps kind [] []
  | keep {comments : List (CommentKind × String)} {texts : List String} (text : String)
      (h : Keeps kind comments texts) : Keeps kind ((kind, text) :: comments) (text :: texts)
  | drop {other : CommentKind} {comments : List (CommentKind × String)} {texts : List String}
      (hother : other ≠ kind) (text : String) (h : Keeps kind comments texts) :
      Keeps kind ((other, text) :: comments) texts

/-- A message with its comments. Of these it keeps those of four kinds, and none of those about a
previous text or an obsolete message. -/
inductive IsGroup : List Lexeme → Message → Prop
  | intro {comments : List (CommentKind × String)} {ls : List Lexeme} {m : Message}
      (htranslator : Keeps .translator comments m.translatorComments)
      (hautomatic : Keeps .automatic comments m.automaticComments)
      (hreferences : Keeps .reference comments m.references)
      (hflagLines : Keeps .flags comments m.flagLines)
      (hcontext : m.context ≠ some []) (hid : m.id ≠ [])
      (htargets : IsTargets ls m.plural m.targets) :
      IsGroup
        (commentLexemes comments ++
          (m.context.elim [] (said .msgctxt) ++ (said .msgid m.id ++ ls))) m

/-- A run of groups, and comments that belong to no message. -/
inductive IsText : List Lexeme → List Message → Prop
  | comments (comments : List (CommentKind × String)) : IsText (commentLexemes comments) []
  | group {ls ls' : List Lexeme} {m : Message} {ms : List Message} (hm : IsGroup ls m)
      (hms : IsText ls' ms) : IsText (ls ++ ls') (m :: ms)

/-! ## What may stand behind a group -/

variable {ls ls' rest : List Lexeme} {m : Message} {ms : List Message}

/-- No literal and no form comes first, so nothing of it belongs to the message before. -/
structure IsApart (ls : List Lexeme) : Prop where
  text : ls.head?.bind Part.text? = none
  form : ls.head?.bind Part.form? = none

theorem isApart_commentLexemes_append (comments : List (CommentKind × String))
    (h : IsApart ls) : IsApart (commentLexemes comments ++ ls) := by
  cases comments with
  | nil => exact h
  | cons comment rest => exact ⟨rfl, rfl⟩

theorem IsGroup.isApart (h : IsGroup ls m) (rest : List Lexeme) : IsApart (ls ++ rest) := by
  cases h with
  | intro _ _ _ _ hcontext hid htargets =>
      rw [List.append_assoc]
      apply isApart_commentLexemes_append
      cases m.context <;> exact ⟨rfl, rfl⟩

theorem IsText.isApart (h : IsText ls ms) : IsApart ls := by
  cases h with
  | comments comments =>
      rw [← List.append_nil (commentLexemes comments)]
      exact isApart_commentLexemes_append comments ⟨rfl, rfl⟩
  | group hm hms => exact hm.isApart _

/-! ## Reading groups -/

open MessageCatalog.Po.Part

theorem IsTargets.yields {plural : Option (List String)} {all : List (List String)}
    (h : IsTargets ls plural all) (hrest : IsApart rest) :
    ∃ ls', Yields (optional .msgidPlural) (ls ++ rest) plural ls' ∧
      Yields (targets plural) ls' all rest := by
  cases h with
  | @single target htarget =>
      let absent : Option (List String) := none
      have hnone : Yields (optional .msgidPlural)
          (absent.elim [] (said .msgidPlural) ++ (said .msgstr target ++ rest)) absent
          (said .msgstr target ++ rest) := by
        refine yields_optional ?_ rfl ?_ <;> simp [absent, said]
      exact ⟨said .msgstr target ++ rest, hnone, yields_single htarget hrest.text⟩
  | @forms plural forms hplural hforms hliterals =>
      -- The plural ends at the keyword of the first form.
      have htext : (formLexemes 0 all ++ rest).head?.bind text? = none := by
        cases all with
        | nil => exact absurd rfl hforms
        | cons form more => rfl
      have hword : (formLexemes 0 all ++ rest).head? ≠ some .msgidPlural := by
        cases all with
        | nil => exact absurd rfl hforms
        | cons form more => simp [formLexemes, said]
      have hsome : some plural ≠ some [] := fun h => hplural (Option.some.inj h)
      refine ⟨formLexemes 0 all ++ rest, ?_, ?_⟩
      · rw [List.append_assoc]
        exact yields_optional hsome htext hword
      · refine (yields_formsFrom 0 hliterals hrest.text hrest.form).bind ?_
        rw [if_neg (by rwa [List.isEmpty_iff])]
        exact yields_pure

theorem IsTargets.head? {plural : Option (List String)} {all : List (List String)}
    (h : IsTargets ls plural all) (rest : List Lexeme) :
    (ls ++ rest).head?.bind text? = none := by
  cases h <;> rfl

/-- What the grammar keeps of a kind is what a message is filled with. -/
theorem keeps_iff {kind : CommentKind} {comments : List (CommentKind × String)}
    {texts : List String} : Keeps kind comments texts ↔ commentsOf kind comments = texts := by
  constructor
  · intro h
    induction h with
    | nil => rfl
    | keep text _ ih => simpa [commentsOf] using ih
    | drop hother text _ ih => simpa [commentsOf, hother] using ih
  · rintro rfl
    induction comments with
    | nil => exact .nil
    | cons comment rest ih =>
        obtain ⟨kind', text⟩ := comment
        by_cases hkind : kind' = kind
        · subst hkind
          simpa [commentsOf] using Keeps.keep text ih
        · simpa [commentsOf, hkind] using Keeps.drop hkind text ih

/-- A group is read as its message. -/
theorem IsGroup.yields (h : IsGroup ls m) (hrest : IsApart rest) :
    Yields next (ls ++ rest) (some m) rest := by
  cases h with
  | @intro comments ls m htranslator hautomatic hreferences hflagLines hcontext hid htargets =>
      obtain ⟨ls', hplural, hall⟩ := htargets.yields hrest
      -- Behind the comments stands the keyword of the context or that of the key.
      let parts := m.context.elim [] (said .msgctxt) ++ (said .msgid m.id ++ (ls ++ rest))
      have hhead : parts.head? = some (if m.context.isSome then .msgctxt else .msgid) := by
        simp only [parts]
        cases m.context <;> rfl
      have hcomments : Yields (collect comment?) (commentLexemes comments ++ parts) comments
          parts := by
        refine yields_collect (by simp [commentLexemes, comment?]) ?_
        rw [hhead]
        split <;> rfl
      have hpeek : Yields peek parts _ parts := yields_peek
      rw [hhead] at hpeek
      have hmessage : Yields (message comments) parts _ rest :=
        (yields_optional hcontext rfl (by simp [said])).bind
          ((yields_key hid (htargets.head? rest)).bind (hplural.bind (hall.bind yields_pure)))
      rw [keeps_iff.1 htranslator, keeps_iff.1 hautomatic, keeps_iff.1 hreferences,
        keeps_iff.1 hflagLines] at hmessage
      have happend : commentLexemes comments ++ (m.context.elim [] (said .msgctxt) ++
          (said .msgid m.id ++ ls)) ++ rest = commentLexemes comments ++ parts := by
        simp only [List.append_assoc, parts]
      rw [happend]
      exact hcomments.bind (hpeek.bind (hmessage.bind yields_pure))

theorem yields_next_none (comments : List (CommentKind × String)) :
    Yields next (commentLexemes comments) none [] := by
  have hcomments : Yields (collect comment?) (commentLexemes comments ++ []) comments [] :=
    yields_collect (by simp [commentLexemes, comment?]) rfl
  have hpeek : Yields peek [] none [] := yields_peek
  rw [List.append_nil] at hcomments
  exact hcomments.bind (hpeek.bind yields_pure)

/-- **What the grammar takes for messages is read as these messages.** -/
theorem messages_of_isText (h : IsText ls ms) {r : Reading} (hr : r.Says ls) :
    r.messages = (ms, none) := by
  induction h generalizing r with
  | comments comments =>
      obtain ⟨r', hnext, -⟩ := yields_next_none comments r hr
      rw [r.messages_eq, hnext]
  | group hm hms ih =>
      obtain ⟨r', hnext, hr'⟩ := hm.yields hms.isApart r hr
      rw [r.messages_eq, hnext]
      exact congrArg (fun read => (_ :: read.1, read.2)) (ih hr')

/-! ## Messages without comments -/

theorem isGroup_of_isPlain (hm : m.IsPlain) : IsGroup m.lexemes m := by
  have htargets : IsTargets (m.plural.elim [] (said .msgidPlural) ++ m.targetLexemes) m.plural
      m.targets := by
    have hforms := hm.forms
    unfold Message.targetLexemes
    cases hplural : m.plural with
    | none =>
        rw [hplural] at hforms
        obtain ⟨target, htarget⟩ := hforms
        have hne : target ≠ [] := by
          rintro rfl
          exact hm.targets (htarget ▸ List.mem_singleton_self _)
        simpa [htarget] using IsTargets.single hne
    | some plural =>
        rw [hplural] at hforms
        exact .forms (fun h => hm.plural (hplural.trans (congrArg some h))) hforms hm.targets
  have hnone : ∀ kind {texts : List String}, texts = [] → Keeps kind [] texts := by
    rintro kind _ rfl
    exact .nil
  exact .intro (hnone _ hm.translatorComments) (hnone _ hm.automaticComments)
    (hnone _ hm.references) (hnone _ hm.flagLines) hm.context hm.id htargets

/-- Messages are read off their lexemes, one after another. -/
theorem messages_of_says (hms : ∀ m ∈ ms, m.IsPlain) {r : Reading}
    (hr : r.Says (ms.flatMap Message.lexemes)) : r.messages = (ms, none) := by
  refine messages_of_isText ?_ hr
  clear hr
  induction ms with
  | nil => exact .comments []
  | cons m rest ih =>
      obtain ⟨hm, hrest⟩ := List.forall_mem_cons.1 hms
      exact .group (isGroup_of_isPlain hm) (ih hrest)

end MessageCatalog.Po
