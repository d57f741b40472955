import MessageCatalog.Proofs.Po.Compilation

set_option autoImplicit false

/-! # Every message is accounted for

Compiling does one of four things with a message, its `Fate`: the metadata go in and count as
nothing, a message is left out because it is untranslated or because it is unconfirmed, or it is
taken. The tally counts three of these fates (`tally_step`, `tally_run`), so with the metadata it
accounts for every message (`tallies_compile`). Of the options only the one that takes unconfirmed
messages changes a fate, and it changes only theirs (`fate_eq_confirmed`).
-/

namespace MessageCatalog.Po

/-! ## Fates -/

/-- What becomes of a message. -/
inductive Fate
  | metadata | untranslated | unconfirmed | taken
  deriving Repr, DecidableEq

/-- What becomes of a message when unconfirmed ones are taken. -/
def Fate.confirmed : Fate → Fate
  | unconfirmed => taken
  | fate => fate

namespace Message

/-- The metadata go in whatever they say, and a message without a translation is left out for that
reason, even if it is unconfirmed as well. -/
def fate (options : CompileOptions) (m : Message) : Fate :=
  if m.isHeader then .metadata
  else if m.isUntranslated then .untranslated
  else if m.isFuzzy && !options.useFuzzy then .unconfirmed
  else .taken

variable {options options' : CompileOptions}

theorem fate_eq_metadata_iff {m : Message} : m.fate options = .metadata ↔ m.isHeader = true := by
  unfold fate
  by_cases hheader : m.isHeader = true
  · rw [if_pos hheader]
    exact iff_of_true rfl hheader
  · rw [if_neg hheader]
    refine iff_of_false ?_ hheader
    split
    · nofun
    · split <;> nofun

theorem fate_eq_taken_iff {m : Message} : m.fate options = .taken ↔ m.isTaken options = true := by
  unfold fate isTaken
  cases m.isHeader <;> cases m.isUntranslated <;> cases m.isFuzzy && !options.useFuzzy <;> decide

theorem fate_congr (h : options.useFuzzy = options'.useFuzzy) (m : Message) :
    m.fate options = m.fate options' := by
  unfold fate
  rw [h]

theorem fate_eq_confirmed (hoff : options.useFuzzy = false) (hon : options'.useFuzzy = true)
    (m : Message) : m.fate options' = (m.fate options).confirmed := by
  unfold fate
  rw [hoff, hon]
  cases m.isHeader <;> cases m.isUntranslated <;> cases m.isFuzzy <;> rfl

end Message

/-! ## Tallies -/

namespace Tally

/-- A tally with one more message. -/
def add (t : Tally) : Fate → Tally
  | .metadata => t
  | .untranslated => { t with untranslatedSkipped := t.untranslatedSkipped + 1 }
  | .unconfirmed => { t with fuzzySkipped := t.fuzzySkipped + 1 }
  | .taken => { t with translated := t.translated + 1 }

/-- How often there is each of the fates. -/
def ofFates (fates : List Fate) : Tally where
  translated := fates.count .taken
  fuzzySkipped := fates.count .unconfirmed
  untranslatedSkipped := fates.count .untranslated

theorem foldl_add (fates : List Fate) (t : Tally) :
    fates.foldl add t =
      ⟨t.translated + (ofFates fates).translated, t.fuzzySkipped + (ofFates fates).fuzzySkipped,
        t.untranslatedSkipped + (ofFates fates).untranslatedSkipped⟩ := by
  induction fates generalizing t with
  | nil => rfl
  | cons fate rest ih =>
      rw [List.foldl_cons, ih]
      cases fate <;> simp [add, ofFates] <;> omega

/-- No message is lost: there are no other fates than those of the tally and that of the
metadata. -/
theorem sum_ofFates (fates : List Fate) :
    (ofFates fates).translated + (ofFates fates).fuzzySkipped +
      (ofFates fates).untranslatedSkipped + fates.count .metadata = fates.length := by
  unfold ofFates
  induction fates with
  | nil => rfl
  | cons fate rest ih =>
      cases fate <;> simp at ih ⊢ <;> omega

/-- Unconfirmed messages that are taken move from one number to another. -/
theorem ofFates_confirmed (fates : List Fate) :
    ofFates (fates.map Fate.confirmed) =
      ⟨(ofFates fates).translated + (ofFates fates).fuzzySkipped, 0,
        (ofFates fates).untranslatedSkipped⟩ := by
  unfold ofFates
  induction fates with
  | nil => rfl
  | cons fate rest ih =>
      rw [Tally.mk.injEq] at ih ⊢
      obtain ⟨htaken, hunconfirmed, huntranslated⟩ := ih
      cases fate <;> simp [Fate.confirmed, htaken, hunconfirmed, huntranslated] <;> omega

end Tally

namespace Compilation

variable (options : CompileOptions)

theorem tally_step (c : Compilation) (m : Message) :
    (step options c m).value.tally = c.tally.add (m.fate options) := by
  unfold step Message.fate
  cases m.isHeader with
  | true => rfl
  | false =>
      cases m.isUntranslated with
      | true => rfl
      | false =>
          cases m.isFuzzy && !options.useFuzzy with
          | true => rfl
          | false => cases c.seen.contains m.storedKey <;> rfl

theorem tally_run (c : Compilation) (messages : List Message) :
    (run options c messages).value.tally =
      (messages.map (Message.fate options)).foldl Tally.add c.tally := by
  induction messages generalizing c with
  | nil => rfl
  | cons m rest ih =>
      have hrun : (run options c (m :: rest)).value =
          (run options (step options c m).value rest).value := rfl
      rw [hrun, ih, tally_step]
      rfl

end Compilation

/-- The tally of the messages of a text. -/
def tallyOf (options : CompileOptions) (messages : List Message) : Tally :=
  .ofFates (messages.map (Message.fate options))

variable {options options' : CompileOptions} {messages : List Message}

/-- **What compiling gives**, if the text is read to its end. -/
theorem value_compile {text : String} (hread : (read text).2 = none) (options : CompileOptions) :
    (compile text options).value =
      .ok (draftOf options (read text).1, tallyOf options (read text).1) := by
  have hdraft := Compilation.run_value options (.start options) (read text).1
  have htally := Compilation.tally_run options (.start options) (read text).1
  have hzero : ∀ t : Tally, (⟨0 + t.translated, 0 + t.fuzzySkipped,
      0 + t.untranslatedSkipped⟩ : Tally) = t := fun t => by simp only [Nat.zero_add]
  rw [Tally.foldl_add] at htally
  unfold compile
  rw [Logged.value_bind, hread]
  exact congrArg Except.ok (Prod.ext hdraft (htally.trans (hzero _)))

/-- How often there is a fate is how many messages meet it. -/
theorem count_fate {fate : Fate} {p : Message → Bool}
    (h : ∀ m : Message, m.fate options = fate ↔ p m = true) (messages : List Message) :
    (messages.map (Message.fate options)).count fate = messages.countP p := by
  rw [List.count, List.countP_map]
  refine List.countP_congr fun m _ => ?_
  rw [Function.comp_apply, beq_iff_eq]
  exact h m

theorem translated_tallyOf (messages : List Message) :
    (tallyOf options messages).translated = messages.countP (Message.isTaken options) :=
  count_fate (fun _ => Message.fate_eq_taken_iff) messages

/-! ## Sources -/

/-- The sources that are stored: that of the metadata, if there are any, and those of the messages
that are taken. -/
theorem mem_sources_draftOf_iff {source : Bytes} :
    source ∈ (draftOf options messages).messages.map Prod.fst ↔
      (∃ m ∈ messages, m.isHeader = true) ∧ source = [] ∨
        ∃ m ∈ messages, m.isTaken options = true ∧ m.storedSource = source := by
  rw [messages_draftOf, mem_sources_insertAll_iff, List.mem_map]
  constructor
  · rintro ⟨r, hr, rfl⟩
    obtain ⟨m, hm, hrecord⟩ := List.mem_filterMap.1 hr
    unfold Message.record? at hrecord
    split at hrecord
    · next hheader =>
        cases hrecord
        exact Or.inl ⟨⟨m, hm, hheader⟩, rfl⟩
    · split at hrecord
      · next htaken =>
          cases hrecord
          exact Or.inr ⟨m, hm, htaken, rfl⟩
      · cases hrecord
  · rintro (⟨⟨m, hm, hheader⟩, rfl⟩ | ⟨m, hm, htaken, rfl⟩)
    · exact ⟨_, List.mem_filterMap.2 ⟨m, hm, if_pos hheader⟩, rfl⟩
    · have hheader : ¬ m.isHeader = true := by
        intro hheader
        rw [Message.isTaken, hheader] at htaken
        cases htaken
      refine ⟨(m.storedSource, m.storedTarget), List.mem_filterMap.2 ⟨m, hm, ?_⟩, rfl⟩
      rw [Message.record?, if_neg hheader, if_pos htaken]

/-- Besides the metadata there are no more sources than messages that were taken. -/
theorem size_draftOf_le (options : CompileOptions) (messages : List Message) :
    (draftOf options messages).size ≤ (tallyOf options messages).translated + 1 := by
  let sources := (draftOf options messages).messages.map Prod.fst
  let taken := (messages.filter (Message.isTaken options)).map Message.storedSource
  have hnodup : sources.Nodup := (draftOf options messages).ascending.nodup_sources
  have hsubset : sources ⊆ [] :: taken := by
    intro source hsource
    rcases mem_sources_draftOf_iff.1 hsource with ⟨-, rfl⟩ | ⟨m, hm, htaken, rfl⟩
    · exact List.mem_cons_self
    · exact List.mem_cons_of_mem _ (List.mem_map_of_mem (List.mem_filter.2 ⟨hm, htaken⟩))
  calc (draftOf options messages).size
      = sources.length := (List.length_map Prod.fst).symm
    _ ≤ ([] :: taken).length := (List.subperm_of_subset hnodup hsubset).length_le
    _ = (messages.filter (Message.isTaken options)).length + 1 := by
        rw [List.length_cons, List.length_map]
    _ = _ := by rw [translated_tallyOf, List.countP_eq_length_filter]

/-! ## Options -/

theorem messages_draftOf_congr (h : options.useFuzzy = options'.useFuzzy)
    (messages : List Message) :
    (draftOf options messages).messages = (draftOf options' messages).messages := by
  have hrecord : Message.record? options = Message.record? options' := by
    funext m
    unfold Message.record? Message.isTaken
    rw [h]
  rw [messages_draftOf, messages_draftOf, hrecord]

theorem tallyOf_congr (h : options.useFuzzy = options'.useFuzzy) (messages : List Message) :
    tallyOf options messages = tallyOf options' messages :=
  congrArg Tally.ofFates (List.map_congr_left fun m _ => Message.fate_congr h m)

theorem tallyOf_confirmed (hoff : options.useFuzzy = false) (hon : options'.useFuzzy = true)
    (messages : List Message) :
    tallyOf options' messages =
      ⟨(tallyOf options messages).translated + (tallyOf options messages).fuzzySkipped, 0,
        (tallyOf options messages).untranslatedSkipped⟩ := by
  have hfates : messages.map (Message.fate options') =
      (messages.map (Message.fate options)).map Fate.confirmed := by
    rw [List.map_map]
    exact List.map_congr_left fun m _ => Message.fate_eq_confirmed hoff hon m
  unfold tallyOf
  rw [hfates, Tally.ofFates_confirmed]

/-- A message that is taken is taken as well when unconfirmed ones are. -/
theorem mem_sources_of_useFuzzy (hoff : options.useFuzzy = false) (hon : options'.useFuzzy = true)
    {source : Bytes} (h : source ∈ (draftOf options messages).messages.map Prod.fst) :
    source ∈ (draftOf options' messages).messages.map Prod.fst := by
  rw [mem_sources_draftOf_iff] at h ⊢
  refine h.imp_right ?_
  rintro ⟨m, hm, htaken, hsource⟩
  refine ⟨m, hm, Message.fate_eq_taken_iff.1 ?_, hsource⟩
  rw [Message.fate_eq_confirmed hoff hon, Message.fate_eq_taken_iff.2 htaken]
  rfl

/-- **Every message is accounted for, and the options do not interfere.** A text that can be read
compiles with any options. Its messages are those that were taken, those that were left out for
either reason, and the metadata, and there are at most as many sources as messages were taken, and
that of the metadata. How a catalog is written has no part in its messages or in the tally. If
unconfirmed messages are taken, they count as translated and no longer as left out, nothing else
changes in the tally, and no source is lost. -/
theorem tallies_compile {text : String} (hread : (read text).2 = none) :
    (∀ options, ∃ d tally, (compile text options).value = .ok (d, tally) ∧
      d.hashed = options.hashed ∧ d.order = options.order ∧
      tally.translated = (read text).1.countP (Message.isTaken options) ∧
      tally.translated + tally.fuzzySkipped + tally.untranslatedSkipped +
        (read text).1.countP Message.isHeader = (read text).1.length ∧
      d.size ≤ tally.translated + 1) ∧
    ∀ options options' d d' tally tally', (compile text options).value = .ok (d, tally) →
      (compile text options').value = .ok (d', tally') →
      (options.useFuzzy = options'.useFuzzy → d.messages = d'.messages ∧ tally = tally') ∧
      (options.useFuzzy = false → options'.useFuzzy = true →
        tally'.untranslatedSkipped = tally.untranslatedSkipped ∧
        tally'.translated = tally.translated + tally.fuzzySkipped ∧ tally'.fuzzySkipped = 0 ∧
        ∀ source ∈ d.messages.map Prod.fst, source ∈ d'.messages.map Prod.fst) := by
  constructor
  · intro options
    refine ⟨_, _, value_compile hread options, hashed_draftOf _ _, order_draftOf _ _,
      translated_tallyOf _, ?_, size_draftOf_le options _⟩
    have hsum := Tally.sum_ofFates ((read text).1.map (Message.fate options))
    rwa [count_fate fun _ => Message.fate_eq_metadata_iff, List.length_map] at hsum
  · intro options options' d d' tally tally' h h'
    rw [value_compile hread] at h h'
    cases h
    cases h'
    refine ⟨fun hsame => ⟨messages_draftOf_congr hsame _, tallyOf_congr hsame _⟩,
      fun hoff hon => ?_⟩
    rw [tallyOf_confirmed hoff hon]
    exact ⟨rfl, rfl, rfl, fun source => mem_sources_of_useFuzzy hoff hon⟩

/-- Metadata, an unconfirmed message, an untranslated one, and one that is defined twice. -/
def mixed : String :=
  "msgid \"\"\nmsgstr \"h\"\n\n#, fuzzy\nmsgid \"a\"\nmsgstr \"A\"\n\n" ++
    "msgid \"b\"\nmsgstr \"\"\n\nmsgid \"c\"\nmsgstr \"1\"\n\nmsgid \"c\"\nmsgstr \"2\"\n"

theorem read_mixed : (read mixed).2 = none := by decide +kernel

theorem tallies_compile_mixed :
    (read mixed).2 = none ∧ ∃ d d' tally tally',
      (compile mixed {}).value = .ok (d, tally) ∧
      (compile mixed ⟨true, false, .big⟩).value = .ok (d', tally') ∧
      tally.translated = 2 ∧ tally.fuzzySkipped = 1 ∧ tally.untranslatedSkipped = 1 ∧
      tally'.translated = 3 ∧ tally'.fuzzySkipped = 0 ∧ tally'.untranslatedSkipped = 1 ∧
      d'.hashed = false ∧
        ∀ source ∈ d.messages.map Prod.fst, source ∈ d'.messages.map Prod.fst := by
  obtain ⟨hall, hpair⟩ := tallies_compile read_mixed
  obtain ⟨d, tally, hcompile, -, -, htaken, hsum, -⟩ := hall {}
  obtain ⟨d', tally', hcompile', hhashed, -, htaken', -, -⟩ := hall ⟨true, false, .big⟩
  obtain ⟨-, hon⟩ := hpair _ _ _ _ _ _ hcompile hcompile'
  obtain ⟨huntranslated, htranslated, hfuzzy, hsources⟩ := hon rfl rfl
  obtain ⟨htwo, hthree, hheader, hlength⟩ :
      (read mixed).1.countP (Message.isTaken {}) = 2 ∧
        (read mixed).1.countP (Message.isTaken ⟨true, false, .big⟩) = 3 ∧
        (read mixed).1.countP Message.isHeader = 1 ∧ (read mixed).1.length = 5 := by
    decide +kernel
  exact ⟨read_mixed, d, d', tally, tally', hcompile, hcompile', by omega, by omega, by omega,
    by omega, hfuzzy, by omega, hhashed, hsources⟩

end MessageCatalog.Po
