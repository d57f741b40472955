import MessageCatalog.Proofs.Draft.Image
import MessageCatalog.Proofs.Po.Compilation
import MessageCatalog.Proofs.Po.Listing

set_option autoImplicit false

/-! # Listing a catalog and compiling the listing

An entry is stored as a source and a target (`Entry.source`, `Entry.target`). Taking these apart
gives the entry back (`Entry.ofStored_source`), and the message that the entry is listed as is
stored as the same record (`Entry.record?_message`). So the listing of a catalog compiles to a
catalog with the same messages, as long as its entries are such that a message says all there is
to them (`Entry.IsRestorable`).
-/

namespace MessageCatalog

/-! ## Drafts -/

/-- There are no more pieces than there is room for between separators. -/
theorem Separated.length_le_length_join {α : Type} (sep : α) (pieces : List (List α)) :
    pieces.length ≤ (join sep pieces).length + 1 := by
  induction pieces with
  | nil => exact Nat.zero_le _
  | cons piece rest ih =>
      cases rest with
      | nil => simp [join]
      | cons next more =>
          simp only [join, List.length_append, List.length_cons] at ih ⊢
          omega

namespace Draft

theorem length_target_lt {d : Draft} {m : Record} (hm : m ∈ d.messages) :
    m.2.length < d.write.length := by
  obtain ⟨i, hi⟩ := List.mem_iff_getElem?.1 hm
  obtain ⟨rest, hrest⟩ := stringArea_split (getElem?_targets hi)
  have hwrite := d.length_write
  have hat := d.stringsAt_eq_add
  have harea := congrArg List.length hrest
  rw [strings, List.length_append] at hwrite
  rw [List.length_append, List.length_append] at harea
  omega

end Draft

namespace Po

/-! ## Entries as they are stored -/

theorem IsWritable.le_toNat {c : Char} (h : IsWritable c) : 8 ≤ c.toNat := by
  rcases h with h | h
  · omega
  · simp only [List.mem_cons, List.not_mem_nil, or_false] at h
    obtain rfl | rfl | rfl | rfl | rfl := h <;> decide

/-- The characters that set the parts of a source apart are in no writable text. -/
theorem Writable.isFree {text : String} (h : Writable text) : IsFree text := by
  constructor
  · exact fun hmem => absurd (h _ hmem).le_toNat (by decide)
  · exact fun hmem => absurd (h _ hmem).le_toNat (by decide)

namespace Entry

/-- The context and the key of an entry. -/
def pair (e : Entry) : Pair := ⟨e.context, e.id⟩

/-- The source that holds the parts of an entry. -/
def source (e : Entry) : Bytes := sourceOf e.pair e.plural

/-- The target that holds the forms of an entry. -/
def target (e : Entry) : Bytes := Separated.join 0 (e.targets.map Utf8.encode)

/-- An entry that a message says all about. Its texts are writable, without a plural there is one
target, only the metadata may be without a translation, and only they have neither a context nor a
key. -/
structure IsRestorable (e : Entry) : Prop where
  context : ∀ text ∈ e.context, Writable text
  id : Writable e.id
  plural : ∀ text ∈ e.plural, Writable text
  targets : ∀ text ∈ e.targets, Writable text
  single : e.plural = none → ∃ text, e.targets = [text]
  translated : e.source ≠ [] → ∃ text ∈ e.targets, text ≠ ""
  named : e.context = none → e.source ≠ [] → e.id ≠ ""

variable {e : Entry}

theorem isFree_pair (he : e.IsRestorable) : e.pair.IsFree :=
  ⟨fun text htext => (he.context text htext).isFree, he.id.isFree⟩

theorem IsRestorable.targets_ne_nil (he : e.IsRestorable) : e.targets ≠ [] := by
  cases hplural : e.plural with
  | none =>
      obtain ⟨text, htext⟩ := he.single hplural
      rw [htext]
      exact List.cons_ne_nil _ _
  | some plural =>
      have hsource : e.source ≠ [] := by
        rw [source, Ne, sourceOf_eq_nil_iff, hplural]
        simp
      obtain ⟨text, htext, -⟩ := he.translated hsource
      exact List.ne_nil_of_mem htext

theorem split_target (he : e.IsRestorable) :
    (Separated.split 0 e.target).map Utf8.lossy = e.targets := by
  have hfree : ∀ piece ∈ e.targets.map Utf8.encode, (0 : UInt8) ∉ piece := by
    intro piece hpiece
    obtain ⟨text, htext, rfl⟩ := List.mem_map.1 hpiece
    exact (he.targets text htext).isFree.zero_not_mem
  have hne : e.targets.map Utf8.encode ≠ [] := fun h =>
    he.targets_ne_nil (List.map_eq_nil_iff.1 h)
  rw [target, Separated.split_join hne hfree, List.map_map]
  exact (List.map_congr_left fun text _ => Utf8.lossy_encode text).trans (List.map_id _)

theorem target_of_single {text : String} (h : e.targets = [text]) :
    e.target = Utf8.encode text := by
  rw [target, h]
  rfl

theorem context_ofStored (source target : Bytes) :
    (ofStored source target).context =
      (cutAt? 4 source).map fun cut => Utf8.lossy cut.1 := by
  unfold ofStored
  cases cutAt? 4 source with
  | none =>
      dsimp only
      cases cutAt? 0 source <;> rfl
  | some cut =>
      dsimp only
      cases cutAt? 0 cut.2 <;> rfl

/-- What taking a stored entry apart comes to, if it is known where its source is cut. -/
theorem ofStored_eq {source target key id : Bytes} {context plural : Option Bytes}
    (hcontext : cutAt? 4 source = context.map fun context => (context, key))
    (hkey : context = none → source = key)
    (hplural : cutAt? 0 key = plural.map fun plural => (id, plural))
    (hid : plural = none → key = id) :
    ofStored source target =
      { context := context.map Utf8.lossy
        id := Utf8.lossy id
        plural := plural.map Utf8.lossy
        targets := plural.elim [Utf8.lossy target] fun _ =>
          (Separated.split 0 target).map Utf8.lossy } := by
  unfold ofStored
  rw [hcontext]
  cases context with
  | none =>
      cases hkey rfl
      dsimp only [Option.map_none]
      rw [hplural]
      cases plural with
      | none => cases hid rfl; rfl
      | some plural => rfl
  | some context =>
      dsimp only [Option.map_some]
      rw [hplural]
      cases plural with
      | none => cases hid rfl; rfl
      | some plural => rfl

/-- **Taking a stored entry apart gives the entry back.** -/
theorem ofStored_source (he : e.IsRestorable) : ofStored e.source e.target = e := by
  have hcontext : cutAt? 4 e.source = (e.context.map Utf8.encode).map fun context =>
      (context, sourceOf ⟨none, e.id⟩ e.plural) := by
    rw [Option.map_map]
    exact cutAt?_four_sourceOf (isFree_pair he) fun text htext => (he.plural text htext).isFree
  have hkey : e.context.map Utf8.encode = none → e.source = sourceOf ⟨none, e.id⟩ e.plural := by
    intro hnone
    rw [source, pair, Option.map_eq_none_iff.1 hnone]
  have hplural : cutAt? 0 (sourceOf ⟨none, e.id⟩ e.plural) =
      (e.plural.map Utf8.encode).map fun plural => (Utf8.encode e.id, plural) := by
    rw [Option.map_map]
    exact cutAt?_zero_sourceOf ⟨fun _ h => (nomatch h), he.id.isFree⟩
  have hid : e.plural.map Utf8.encode = none →
      sourceOf ⟨none, e.id⟩ e.plural = Utf8.encode e.id := by
    intro hnone
    rw [Option.map_eq_none_iff.1 hnone]
    exact sourceOf_none _
  have htargets : (e.plural.map Utf8.encode).elim [Utf8.lossy e.target]
      (fun _ => (Separated.split 0 e.target).map Utf8.lossy) = e.targets := by
    cases hnone : e.plural with
    | none =>
        obtain ⟨text, htext⟩ := he.single hnone
        rw [target_of_single htext, htext]
        exact congrArg (fun text => [text]) (Utf8.lossy_encode text)
    | some text => exact split_target he
  have hparts : ∀ text : Option String, (text.map Utf8.encode).map Utf8.lossy = text := by
    intro text
    simp only [Option.map_map, Function.comp_def, Utf8.lossy_encode, Option.map_id']
  rw [ofStored_eq hcontext hkey hplural hid, htargets, Utf8.lossy_encode, hparts, hparts]

/-! ## Entries as they are compiled -/

theorem storedForms_message (e : Entry) : e.message.storedForms = e.targets.map Utf8.encode := by
  show (e.targets.map literals).map _ = _
  rw [List.map_map]
  exact List.map_congr_left fun text _ => congrArg Utf8.encode (joined_literals text)

theorem map_joined_literals (text : Option String) : (text.map literals).map joined = text := by
  cases text with
  | none => rfl
  | some text => exact congrArg some (joined_literals text)

theorem pair_message (e : Entry) : e.message.pair = e.pair := by
  show Pair.mk ((e.context.map literals).map joined) (joined (literals e.id)) = _
  rw [map_joined_literals, joined_literals]
  rfl

theorem storedSource_message (e : Entry) : e.message.storedSource = e.source := by
  show sourceOf e.message.pair ((e.plural.map literals).map joined) = _
  rw [pair_message, map_joined_literals]
  rfl

theorem storedTarget_message (he : e.IsRestorable) : e.message.storedTarget = e.target := by
  unfold Message.storedTarget
  rw [storedForms_message]
  have hplural : e.message.plural.isSome = e.plural.isSome := Option.isSome_map
  rw [hplural]
  cases hplural : e.plural with
  | none =>
      obtain ⟨text, htext⟩ := he.single hplural
      rw [target_of_single htext, htext]
      rfl
  | some plural => rfl

theorem isHeader_message (e : Entry) :
    e.message.isHeader = true ↔ e.context = none ∧ e.id = "" := by
  rw [Message.isHeader_iff]
  show e.context.map literals = none ∧ joined (literals e.id) = "" ↔ _
  rw [Option.map_eq_none_iff, joined_literals]

/-- **The message of an entry is stored as the entry.** -/
theorem record?_message (he : e.IsRestorable) (options : CompileOptions) :
    e.message.record? options = some (e.source, e.target) := by
  -- Only the metadata have an empty source, and only they may be read as a header.
  have hnil : e.source = [] ↔ (e.context = none ∧ e.id = "") ∧ e.plural = none := by
    rw [source, sourceOf_eq_nil_iff, pair, Pair.header, Pair.mk.injEq]
  unfold Message.record?
  by_cases hheader : e.message.isHeader = true
  · obtain ⟨hcontext, hid⟩ := e.isHeader_message.1 hheader
    have hsource : e.source = [] := by
      by_contra hsource
      exact he.named hcontext hsource hid
    obtain ⟨-, hplural⟩ := hnil.1 hsource
    obtain ⟨text, htext⟩ := he.single hplural
    rw [if_pos hheader, storedForms_message, hsource, target_of_single htext, htext]
    simp
  · have hsource : e.source ≠ [] := fun h => hheader (e.isHeader_message.2 (hnil.1 h).1)
    obtain ⟨text, htext, hne⟩ := he.translated hsource
    have htranslated : e.message.isUntranslated = false := by
      rw [Message.isUntranslated, List.all_eq_false]
      refine ⟨literals text, List.mem_map_of_mem htext, ?_⟩
      rwa [joined_literals, String.isEmpty_iff]
    have htaken : e.message.isTaken options = true := by
      have hfuzzy : e.message.isFuzzy = false := rfl
      rw [Message.isTaken, Bool.eq_false_iff.2 hheader, htranslated, hfuzzy]
      rfl
    rw [if_neg hheader, if_pos htaken, storedSource_message, storedTarget_message he]

end Entry

/-! ## Listings of drafts -/

/-- The entries of a draft can be listed if its file has a size. -/
theorem Entry.IsRestorable.isListable {e : Entry} (he : e.IsRestorable) {d : Draft}
    (hmem : (e.source, e.target) ∈ d.messages) (hsize : d.write.length < 2 ^ 64) :
    e.IsListable where
  context := he.context
  id := he.id
  plural := he.plural
  targets := he.targets
  forms := by
    cases hplural : e.plural with
    | none => exact he.single hplural
    | some plural => exact he.targets_ne_nil
  count := by
    have hforms := Separated.length_le_length_join 0 (e.targets.map Utf8.encode)
    have htarget : e.target.length < d.write.length := Draft.length_target_lt hmem
    rw [List.length_map] at hforms
    have h64 : UInt64.size = 2 ^ 64 := rfl
    unfold target at htarget
    omega

/-- A listing compiles to a draft into which its entries were put one after another. -/
theorem compile_entries {entries : List Entry} (hrestorable : ∀ e ∈ entries, e.IsRestorable)
    (hlistable : ∀ e ∈ entries, e.IsListable) (options : CompileOptions) :
    ∃ d tally, (compile (listing entries) options).value = .ok (d, tally) ∧
      d.messages = insertAll (entries.map fun e => (e.source, e.target)) ∧
      d.hashed = options.hashed ∧ d.order = options.order := by
  have hread := read_listing hlistable
  obtain ⟨tally, hcompile⟩ : ∃ tally, (compile (listing entries) options).value =
      .ok (draftOf options (entries.map Entry.message), tally) := by
    rw [compile_value_iff, hread]
    exact ⟨rfl, rfl⟩
  have hrecords : (entries.map Entry.message).filterMap (Message.record? options) =
      entries.map fun e => (e.source, e.target) := by
    rw [List.filterMap_map, ← List.filterMap_eq_map]
    exact List.filterMap_congr fun e he => Entry.record?_message (hrestorable e he) options
  refine ⟨_, tally, hcompile, ?_, hashed_draftOf options _, order_draftOf options _⟩
  rw [messages_draftOf, hrecords]

/-- **Listing a catalog and compiling the listing gives the catalog back.** The file of a draft is
loaded with the messages of the draft as its entries. Their listing compiles, whatever the options,
to a draft with the same messages; with the options of the draft its file is the same, byte by
byte. That the file has a size in a machine word is there for the forms to be numbered in one. -/
theorem compile_listing (d : Draft)
    (hall : ∀ m ∈ d.messages, ∃ e : Entry, e.IsRestorable ∧ m = (e.source, e.target))
    (hsize : d.write.length < 2 ^ 64) :
    (∀ options, ∃ d' tally,
      (compile (listing (d.messages.map fun m => Entry.ofStored m.1 m.2)) options).value =
        .ok (d', tally) ∧
      d'.messages = d.messages ∧
      (options.hashed = d.hashed → options.order = d.order → d'.write = d.write)) ∧
    (d.messages ≠ [] → d.write.length < 2 ^ 32 → ∀ name (options : LoadOptions),
      d.write.length ≤ options.maxSize →
      ∃ c, (Catalog.ofBytes d.write name options).value = .ok c ∧
        c.image.entries = d.messages) := by
  have hentry : ∀ m ∈ d.messages, (Entry.ofStored m.1 m.2).IsRestorable ∧
      ((Entry.ofStored m.1 m.2).source, (Entry.ofStored m.1 m.2).target) = m := by
    intro m hm
    obtain ⟨e, he, rfl⟩ := hall m hm
    rw [Entry.ofStored_source he]
    exact ⟨he, rfl⟩
  constructor
  · intro options
    let entries := d.messages.map fun m => Entry.ofStored m.1 m.2
    have hrestorable : ∀ e ∈ entries, e.IsRestorable := by
      intro e he
      obtain ⟨m, hm, rfl⟩ := List.mem_map.1 he
      exact (hentry m hm).1
    have hrecords : entries.map (fun e => (e.source, e.target)) = d.messages := by
      rw [List.map_map]
      exact (List.map_congr_left fun m hm => (hentry m hm).2).trans (List.map_id _)
    have hlistable : ∀ e ∈ entries, e.IsListable := by
      intro e he
      refine (hrestorable e he).isListable ?_ hsize
      rw [← hrecords]
      exact List.mem_map_of_mem he
    obtain ⟨d', tally, hcompile, hmessages, hhashed, horder⟩ :=
      compile_entries hrestorable hlistable options
    rw [hrecords, insertAll_of_ascending d.ascending] at hmessages
    exact ⟨d', tally, hcompile, hmessages, fun hhashed' horder' =>
      Draft.write_congr hmessages (hhashed.trans hhashed') (horder.trans horder')⟩
  · intro hne hfit name options hmax
    exact ⟨_, Draft.ofBytes_write hne hfit hmax name, Draft.entries_image hfit⟩

/-- Metadata, an empty key in an empty context, and forms with all kinds of signs to escape. -/
def samples : List Entry :=
  [⟨none, "", none, ["Language: uk\n"]⟩, ⟨some "", "", none, ["\t"]⟩,
    ⟨none, "\"a\\b\"\n", some "", ["", "x\n\ny"]⟩]

def sampleDraft : Draft := samples.foldl (fun d e => d.add e.source e.target) .empty

theorem compile_listing_samples :
    (∀ m ∈ sampleDraft.messages, ∃ e : Entry, e.IsRestorable ∧ m = (e.source, e.target)) ∧
      sampleDraft.write.length < 2 ^ 64 ∧
      ∃ d tally, (compile (listing (sampleDraft.messages.map fun m => Entry.ofStored m.1 m.2))
        {}).value = .ok (d, tally) ∧ d.write = sampleDraft.write := by
  have hall : ∀ m ∈ sampleDraft.messages,
      ∃ e : Entry, e.IsRestorable ∧ m = (e.source, e.target) := by
    have hmessages : sampleDraft.messages = samples.map fun e => (e.source, e.target) := by
      decide +kernel
    have hsamples : ∀ e ∈ samples, e.IsRestorable := by
      intro e he
      simp only [samples, List.mem_cons, List.not_mem_nil, or_false] at he
      obtain rfl | rfl | rfl := he
      · exact ⟨by decide, by decide, by decide, by decide, fun _ => ⟨_, rfl⟩, by decide, by decide⟩
      · exact ⟨by decide, by decide, by decide, by decide, fun _ => ⟨_, rfl⟩, by decide, by decide⟩
      · exact ⟨by decide, by decide, by decide, by decide, nofun, by decide, by decide⟩
    intro m hm
    rw [hmessages] at hm
    obtain ⟨e, he, rfl⟩ := List.mem_map.1 hm
    exact ⟨e, hsamples e he, rfl⟩
  have hsize : sampleDraft.write.length < 2 ^ 64 := by decide +kernel
  obtain ⟨d, tally, hcompile, -, hwrite⟩ := (compile_listing sampleDraft hall hsize).1 {}
  exact ⟨hall, hsize, d, tally, hcompile, hwrite rfl rfl⟩

end Po

end MessageCatalog
