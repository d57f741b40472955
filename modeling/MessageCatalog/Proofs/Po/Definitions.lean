import MessageCatalog.Proofs.Draft.Lookup
import MessageCatalog.Proofs.Po.Acceptance
import MessageCatalog.Proofs.Po.RoundTrip

set_option autoImplicit false

/-! # Which definition a compiled catalog gives

A text may define the same pair of a context and a key more than once. The messages that compiling
takes for a pair are its `definitions`. Those with the same plural are stored with the same source,
and the last of them stays (`mem_messages_iff`). Those with different plurals are stored side by
side, although a lookup, which asks for the pair alone, can give only one of them: through the
hash table that with the least source.
-/

namespace MessageCatalog

/-! ## The first of the messages with a key -/

namespace Draft

open Mo

variable {d : Draft}

/-- Through the hash table the message with the least source is found. -/
theorem lookup_image_hashed_le (hhashed : d.hashed = true) (hfit : d.write.length < 2 ^ 32)
    {query target : Bytes} (h : d.image.lookup query = some target) :
    ∃ m ∈ d.messages, Bytes.beforeNul m.1 = Bytes.beforeNul query ∧ target = m.2 ∧
      ∀ m' ∈ d.messages, Bytes.beforeNul m'.1 = Bytes.beforeNul query → m.1 ≤ m'.1 := by
  rw [lookup_image_hashed hhashed hfit] at h
  split at h
  · next hex =>
      obtain ⟨m, hm⟩ := lt_size_iff.1 (Nat.lt_of_lt_of_le hex (d.last_le_size _))
      rw [getElem?_targets hm, Option.some.injEq] at h
      refine ⟨m, List.mem_of_getElem? hm, (key_eq_iff hm).2 ⟨Nat.le_refl _, hex⟩, h.symm, ?_⟩
      intro m' hm' hkey
      obtain ⟨j, hj⟩ := List.mem_iff_getElem?.1 hm'
      have hle := ((key_eq_iff hj).1 hkey).1
      obtain ⟨hi, rfl⟩ := List.getElem?_eq_some_iff.1 hm
      obtain ⟨hj', rfl⟩ := List.getElem?_eq_some_iff.1 hj
      rcases Nat.lt_or_eq_of_le hle with hlt | heq
      · exact Std.le_of_lt (List.pairwise_iff_getElem.1 d.ascending _ _ hi hj' hlt)
      · simp only [heq]
        exact List.le_refl _
  · cases h

end Draft

namespace Po

/-! ## Definitions -/

namespace Message

/-- The forms of a message, joined as they are stored. -/
def value (m : Message) : Bytes := Separated.join 0 m.storedForms

theorem storedTarget_of_mem_read {text : String} {m : Message} (hm : m ∈ (read text).1) :
    m.storedTarget = m.value := by
  unfold storedTarget value
  cases hplural : m.plural with
  | some plural => rfl
  | none =>
      obtain ⟨target, htarget⟩ := targets_of_mem_read hm hplural
      rw [storedForms, htarget]
      rfl

theorem storedSource_eq_iff {m : Message} (hm : m.pair.IsFree) {p : Pair} (hp : p.IsFree)
    (plural : Option String) :
    m.storedSource = sourceOf p plural ↔ m.pair = p ∧ m.pluralText = plural := by
  constructor
  · exact sourceOf_inj hm hp
  · rintro ⟨rfl, rfl⟩
    rfl

end Message

/-- The messages that are taken for a pair, in the order of the text. -/
def definitions (options : CompileOptions) (messages : List Message) (p : Pair) : List Message :=
  messages.filter fun m => m.isTaken options && m.pair = p

/-- The last of the messages with a plural. -/
def latest (messages : List Message) (plural : Option String) : Option Message :=
  (messages.filter fun m => m.pluralText = plural).getLast?

variable {options : CompileOptions} {messages : List Message} {p : Pair}

/-- A message is stored with a source if it is taken and has its pair and its plural. -/
theorem filter_record? {m : Message} (hm : m.pair.IsFree) (hp : p.IsFree) (hne : p ≠ .header)
    (plural : Option String) :
    (m.record? options).filter (fun r => r.1 = sourceOf p plural) =
      if m.isTaken options ∧ m.pair = p ∧ m.pluralText = plural then
        some (m.storedSource, m.storedTarget)
      else none := by
  simp only [← Message.storedSource_eq_iff hm hp plural]
  unfold Message.record?
  by_cases hheader : m.isHeader = true
  · have htaken : ¬ m.isTaken options = true := by
      rw [Message.isTaken, hheader]
      simp
    have hnil : [] ≠ sourceOf p plural := fun h => hne (sourceOf_eq_nil_iff.1 h.symm).1
    rw [if_pos hheader, if_neg fun h => htaken h.1]
    simp [Option.filter, hnil]
  · rw [if_neg hheader]
    by_cases htaken : m.isTaken options = true
    · simp [Option.filter, htaken]
    · simp [htaken]

/-- The records with a source are those of the definitions with its pair and its plural. -/
theorem filter_records (hfree : ∀ m ∈ messages, m.pair.IsFree) (hp : p.IsFree) (hne : p ≠ .header)
    (plural : Option String) :
    (messages.filterMap (Message.record? options)).filter (fun r => r.1 = sourceOf p plural) =
      ((definitions options messages p).filter fun m => m.pluralText = plural).map
        fun m => (m.storedSource, m.storedTarget) := by
  rw [List.filter_filterMap, definitions, List.filter_filter, ← List.filterMap_eq_map,
    List.filterMap_filter]
  refine List.filterMap_congr fun m hm => ?_
  rw [filter_record? (hfree m hm) hp hne]
  simp [and_assoc, and_comm]

theorem mem_definitions {m : Message} :
    m ∈ definitions options messages p ↔ m ∈ messages ∧ m.isTaken options = true ∧ m.pair = p := by
  rw [definitions, List.mem_filter, Bool.and_eq_true, decide_eq_true_iff]

theorem storedSource_of_mem {m : Message} (h : m ∈ definitions options messages p) :
    m.storedSource = sourceOf p m.pluralText := by
  obtain ⟨-, -, rfl⟩ := mem_definitions.1 h
  rfl

theorem mem_of_latest {m : Message} {plural : Option String} (h : latest messages plural = some m) :
    m ∈ messages ∧ m.pluralText = plural := by
  have hmem := List.mem_filter.1 (List.mem_of_getLast? h)
  exact ⟨hmem.1, of_decide_eq_true hmem.2⟩

/-- With its plural, a message has a latest one. -/
theorem exists_latest {m : Message} (hm : m ∈ messages) :
    ∃ m', latest messages m.pluralText = some m' := by
  have hne : messages.filter (fun m' => m'.pluralText = m.pluralText) ≠ [] :=
    List.ne_nil_of_mem (List.mem_filter.2 ⟨hm, by simp⟩)
  exact ⟨_, List.getLast?_eq_some_getLast hne⟩

/-- A record that is found by a pair is that of a message with the pair, since the header is found
by no pair but its own. -/
theorem source_of_record? {m : Message} (hm : m.pair.IsFree) (hp : p.IsFree) (hne : p ≠ .header)
    {r : Record} (hr : m.record? options = some r) (hkey : Bytes.beforeNul r.1 = p.key) :
    r.1 = sourceOf p m.pluralText := by
  unfold Message.record? at hr
  split at hr
  · cases hr
    have hnil : sourceOf p none = [] := (sourceOf_none p).trans hkey.symm
    exact absurd (sourceOf_eq_nil_iff.1 hnil).1 hne
  · split at hr
    · cases hr
      have hpair : m.pair = p := Pair.key_inj hm hp ((beforeNul_sourceOf hm).symm.trans hkey)
      rw [← hpair]
      rfl
    · cases hr

/-- **Of the definitions with the same plural the last one is stored.** -/
theorem mem_messages_iff (hfree : ∀ m ∈ messages, m.pair.IsFree) (hp : p.IsFree)
    (hne : p ≠ .header) (r : Record) :
    r ∈ (draftOf options messages).messages ∧ Bytes.beforeNul r.1 = p.key ↔
      ∃ m plural, latest (definitions options messages p) plural = some m ∧
        r = (m.storedSource, m.storedTarget) := by
  -- With one plural the definitions are stored with one source, so the last record with this
  -- source is that of the last definition.
  have hsame : ∀ plural, (((messages.filterMap (Message.record? options)).filter
      fun r => r.1 = sourceOf p plural).getLast? = some r ↔
        ∃ m, latest (definitions options messages p) plural = some m ∧
          r = (m.storedSource, m.storedTarget)) := by
    intro plural
    rw [filter_records hfree hp hne, List.getLast?_map, Option.map_eq_some_iff]
    simp only [latest, eq_comm]
  rw [messages_draftOf, mem_insertAll_iff]
  constructor
  · rintro ⟨hlast, hkey⟩
    have hmem := (List.mem_filter.1 (List.mem_of_getLast? hlast)).1
    obtain ⟨m, hm, hrecord⟩ := List.mem_filterMap.1 hmem
    rw [source_of_record? (hfree m hm) hp hne hrecord hkey] at hlast
    obtain ⟨m', hlatest, hr⟩ := (hsame m.pluralText).1 hlast
    exact ⟨m', m.pluralText, hlatest, hr⟩
  · rintro ⟨m, plural, hlatest, rfl⟩
    have hlast := (hsame plural).2 ⟨m, hlatest, rfl⟩
    obtain ⟨hm, rfl⟩ := mem_of_latest hlatest
    rw [← storedSource_of_mem hm] at hlast
    refine ⟨hlast, ?_⟩
    rw [storedSource_of_mem hm]
    exact beforeNul_sourceOf hp

/-! ## Looking pairs up -/

theorem lookup_draftOf_eq_none_iff (hfree : ∀ m ∈ messages, m.pair.IsFree) (hp : p.IsFree)
    (hne : p ≠ .header) (hfit : (draftOf options messages).write.length < 2 ^ 32) :
    (draftOf options messages).image.lookup p.key = none ↔ definitions options messages p = [] := by
  have hkey : Bytes.beforeNul p.key = p.key := Bytes.beforeNul_of_not_mem (Pair.zero_not_mem_key hp)
  have hsome := Draft.isSome_lookup_image hfit p.key
  rw [hkey] at hsome
  rw [← Option.not_isSome_iff_eq_none, hsome, List.eq_nil_iff_forall_not_mem, not_exists]
  constructor
  · intro hnone m hm
    obtain ⟨m', hlatest⟩ := exists_latest hm
    exact hnone _ ((mem_messages_iff hfree hp hne (m'.storedSource, m'.storedTarget)).2
      ⟨m', _, hlatest, rfl⟩)
  · intro hnone r hr
    obtain ⟨m, plural, hlatest, -⟩ := (mem_messages_iff hfree hp hne r).1 hr
    exact hnone m (mem_of_latest hlatest).1

/-- What is found is the last definition with some plural, and with a hash table the one with the
least source. -/
theorem lookup_draftOf_eq_some (hfree : ∀ m ∈ messages, m.pair.IsFree) (hp : p.IsFree)
    (hne : p ≠ .header) (hfit : (draftOf options messages).write.length < 2 ^ 32) {target : Bytes}
    (h : (draftOf options messages).image.lookup p.key = some target) :
    ∃ m ∈ definitions options messages p,
      latest (definitions options messages p) m.pluralText = some m ∧ target = m.storedTarget ∧
        (options.hashed = true →
          ∀ m' ∈ definitions options messages p, m.storedSource ≤ m'.storedSource) := by
  have hkey : Bytes.beforeNul p.key = p.key := Bytes.beforeNul_of_not_mem (Pair.zero_not_mem_key hp)
  -- Only a hash table gives more than some record with the key.
  have hfound : ∃ r ∈ (draftOf options messages).messages, Bytes.beforeNul r.1 = p.key ∧
      target = r.2 ∧ (options.hashed = true → ∀ r' ∈ (draftOf options messages).messages,
        Bytes.beforeNul r'.1 = p.key → r.1 ≤ r'.1) := by
    by_cases hhashed : options.hashed = true
    · obtain ⟨r, hr, hrkey, htarget, hleast⟩ := Draft.lookup_image_hashed_le
        ((hashed_draftOf options messages).trans hhashed) hfit h
      rw [hkey] at hrkey hleast
      exact ⟨r, hr, hrkey, htarget, fun _ => hleast⟩
    · obtain ⟨r, hr, hrkey, htarget⟩ := Draft.lookup_image_eq_some hfit h
      rw [hkey] at hrkey
      exact ⟨r, hr, hrkey, htarget, fun h => absurd h hhashed⟩
  obtain ⟨r, hr, hrkey, rfl, hleast⟩ := hfound
  obtain ⟨m, plural, hlatest, rfl⟩ := (mem_messages_iff hfree hp hne r).1 ⟨hr, hrkey⟩
  obtain ⟨hm, rfl⟩ := mem_of_latest hlatest
  refine ⟨m, hm, hlatest, rfl, fun hhashed m' hm' => ?_⟩
  -- `m'` itself may have been replaced, but what replaced it has the same source.
  obtain ⟨m'', hlatest'⟩ := exists_latest hm'
  obtain ⟨hr', hrkey'⟩ := (mem_messages_iff hfree hp hne (m''.storedSource, m''.storedTarget)).2
    ⟨m'', _, hlatest', rfl⟩
  obtain ⟨hm'', hplural⟩ := mem_of_latest hlatest'
  rw [storedSource_of_mem hm', ← hplural, ← storedSource_of_mem hm'']
  exact hleast hhashed _ hr' hrkey'

/-- **What looking a pair up gives.** Nothing is found exactly if no message was taken for the
pair. What is found are the forms of the last definition among those with the same plural, and with
a hash table no definition has a smaller source. So if all definitions have the same plural, it is
the last one. -/
theorem lookup_compile {text : String} {options : CompileOptions} {d : Draft} {tally : Tally}
    (hcompile : (compile text options).value = .ok (d, tally))
    (hfree : ∀ m ∈ (read text).1, m.pair.IsFree) (hne : d.messages ≠ [])
    (hfit : d.write.length < 2 ^ 32) {loading : LoadOptions}
    (hmax : d.write.length ≤ loading.maxSize) (name : String) :
    ∃ c, (Catalog.ofBytes d.write name loading).value = .ok c ∧
      ∀ p : Pair, p.IsFree → p ≠ .header →
        let defined := definitions options (read text).1 p
        (c.lookup p.key = none ↔ defined = []) ∧
        (∀ target, c.lookup p.key = some target →
          ∃ m ∈ defined, latest defined m.pluralText = some m ∧ target = m.value ∧
            (options.hashed = true → ∀ m' ∈ defined, m.storedSource ≤ m'.storedSource)) ∧
        ((∀ m ∈ defined, ∀ m' ∈ defined, m.pluralText = m'.pluralText) →
          c.lookup p.key = defined.getLast?.map Message.value) := by
  obtain ⟨-, rfl⟩ := compile_value_iff.1 ⟨tally, hcompile⟩
  refine ⟨_, Draft.ofBytes_write hne hfit hmax name, fun p hp hpne => ?_⟩
  have hnone := lookup_draftOf_eq_none_iff hfree hp hpne hfit
  have hsome : ∀ target, (draftOf options (read text).1).image.lookup p.key = some target →
      ∃ m ∈ definitions options (read text).1 p,
        latest (definitions options (read text).1 p) m.pluralText = some m ∧ target = m.value ∧
          (options.hashed = true →
            ∀ m' ∈ definitions options (read text).1 p, m.storedSource ≤ m'.storedSource) := by
    intro target h
    obtain ⟨m, hm, hlatest, htarget, hleast⟩ := lookup_draftOf_eq_some hfree hp hpne hfit h
    rw [Message.storedTarget_of_mem_read (mem_definitions.1 hm).1] at htarget
    exact ⟨m, hm, hlatest, htarget, hleast⟩
  refine ⟨hnone, hsome, fun hsame => ?_⟩
  show (draftOf options (read text).1).image.lookup p.key = _
  cases hlookup : (draftOf options (read text).1).image.lookup p.key with
  | none => rw [hnone.1 hlookup]; rfl
  | some target =>
      obtain ⟨m, hm, hlatest, rfl, -⟩ := hsome target hlookup
      have hall : (definitions options (read text).1 p).filter
          (fun m' => m'.pluralText = m.pluralText) = definitions options (read text).1 p :=
        List.filter_eq_self.2 fun m' hm' => decide_eq_true (hsame m' hm' m hm)
      rw [latest, hall] at hlatest
      rw [hlatest]
      rfl

/-- A text that defines `a` without a plural and then with one, and `b` twice without. -/
def duplicates : String :=
  "msgid \"a\"\nmsgstr \"X\"\n\nmsgid \"a\"\nmsgid_plural \"p\"\nmsgstr[0] \"Y\"\n\n" ++
    "msgid \"b\"\nmsgstr \"1\"\n\nmsgid \"b\"\nmsgstr \"2\"\n"

def duplicateEntries : List Entry :=
  [⟨none, "a", none, ["X"]⟩, ⟨none, "a", some "p", ["Y"]⟩, ⟨none, "b", none, ["1"]⟩,
    ⟨none, "b", none, ["2"]⟩]

theorem read_duplicates : read duplicates = (duplicateEntries.map Entry.message, none) := by
  have hlisting : listing duplicateEntries = duplicates := by decide +kernel
  have hlistable : ∀ e ∈ duplicateEntries, e.IsListable := by
    intro e he
    simp only [duplicateEntries, List.mem_cons, List.not_mem_nil, or_false] at he
    obtain rfl | rfl | rfl | rfl := he
    · exact ⟨by decide, by decide, by decide, by decide, ⟨_, rfl⟩, by decide⟩
    · exact ⟨by decide, by decide, by decide, by decide, List.cons_ne_nil _ _, by decide⟩
    · exact ⟨by decide, by decide, by decide, by decide, ⟨_, rfl⟩, by decide⟩
    · exact ⟨by decide, by decide, by decide, by decide, ⟨_, rfl⟩, by decide⟩
  rw [← hlisting]
  exact read_listing hlistable

def duplicateDraft : Draft := draftOf {} (duplicateEntries.map Entry.message)

theorem compile_duplicates :
    ∃ tally, (compile duplicates {}).value = .ok (duplicateDraft, tally) := by
  rw [compile_value_iff, read_duplicates]
  exact ⟨rfl, rfl⟩

theorem isFree_duplicates : ∀ m ∈ (read duplicates).1, m.pair.IsFree := by
  have hids : ∀ e ∈ duplicateEntries, e.context = none ∧ IsFree e.id := by decide
  rw [read_duplicates]
  intro m hm
  obtain ⟨e, he, rfl⟩ := List.mem_map.1 hm
  obtain ⟨hcontext, hid⟩ := hids e he
  rw [Entry.pair_message]
  refine ⟨fun text htext => ?_, hid⟩
  rw [Entry.pair, hcontext] at htext
  cases htext

theorem loads_duplicates :
    duplicateDraft.messages ≠ [] ∧ duplicateDraft.write.length < 2 ^ 32 ∧
      duplicateDraft.write.length ≤ ({} : LoadOptions).maxSize := by
  decide +kernel

theorem lookup_compile_duplicates :
    ∃ tally, (compile duplicates {}).value = .ok (duplicateDraft, tally) ∧
      (∀ m ∈ (read duplicates).1, m.pair.IsFree) ∧ duplicateDraft.messages ≠ [] ∧
      duplicateDraft.write.length < 2 ^ 32 ∧
      duplicateDraft.write.length ≤ ({} : LoadOptions).maxSize ∧
      Pair.IsFree ⟨none, "b"⟩ ∧ (⟨none, "b"⟩ : Pair) ≠ .header ∧
      ∃ c, (Catalog.ofBytes duplicateDraft.write "duplicates" {}).value = .ok c ∧
        c.lookup (Pair.key ⟨none, "b"⟩) = some (Utf8.encode "2") := by
  obtain ⟨tally, hcompile⟩ := compile_duplicates
  obtain ⟨hne, hfit, hmax⟩ := loads_duplicates
  have hpair : Pair.IsFree ⟨none, "b"⟩ := ⟨by decide, by decide⟩
  have hheader : (⟨none, "b"⟩ : Pair) ≠ .header := by decide
  obtain ⟨c, hc, hlookup⟩ := lookup_compile hcompile isFree_duplicates hne hfit hmax "duplicates"
  obtain ⟨-, -, hlast⟩ := hlookup _ hpair hheader
  rw [read_duplicates] at hlast
  refine ⟨tally, hcompile, isFree_duplicates, hne, hfit, hmax, hpair, hheader, c, hc, ?_⟩
  rw [hlast (by decide +kernel)]
  decide +kernel

/-- Of the two definitions of `a` the first one is found, although it is not the last. -/
theorem lookup_duplicates_ne :
    ∃ tally c, (compile duplicates {}).value = .ok (duplicateDraft, tally) ∧
      (∀ m ∈ (read duplicates).1, m.pair.IsFree) ∧
      (Catalog.ofBytes duplicateDraft.write "duplicates" {}).value = .ok c ∧
      c.lookup (Pair.key ⟨none, "a"⟩) = some (Utf8.encode "X") ∧
      (definitions {} (read duplicates).1 ⟨none, "a"⟩).getLast?.map Message.value =
        some (Utf8.encode "Y") := by
  obtain ⟨tally, hcompile⟩ := compile_duplicates
  obtain ⟨hne, hfit, hmax⟩ := loads_duplicates
  refine ⟨tally, _, hcompile, isFree_duplicates, Draft.ofBytes_write hne hfit hmax _, ?_, ?_⟩
  · show duplicateDraft.image.lookup _ = _
    decide +kernel
  · rw [read_duplicates]
    decide +kernel

end Po

end MessageCatalog
