import MessageCatalog.Proofs.Catalog.Loading
import MessageCatalog.Proofs.Draft.Image
import MessageCatalog.Proofs.Po.Tallies

set_option autoImplicit false

/-! # What compiling gives can be loaded

The file of a draft is accepted as a catalog as long as the draft has a message
(`Draft.check_write`). Without one it is refused, since a catalog has to have an entry
(`Draft.check_write_of_nil`). So a text compiles to a file that can be loaded if it has metadata or
a message that is taken; if all its messages are left out, compiling succeeds but gives a file that
cannot be loaded (`ofBytes_compile`).
-/

namespace MessageCatalog

/-! ## Files that are refused -/

namespace Catalog

variable {data : Bytes} {options : LoadOptions}

theorem check_of_length_lt (hne : data ≠ []) (h : data.length < minSize) :
    check data options = .error (.corrupt .tooSmall) := by
  have hempty : data.isEmpty = false := List.isEmpty_eq_false_iff.2 hne
  unfold check
  rw [hempty, if_pos h]
  rfl

/-- A file of an accepted size is refused for the defect of its header. -/
theorem check_of_normalize (hmin : minSize ≤ data.length) (hmax : data.length ≤ options.maxSize)
    {defect : Mo.Defect} (h : (Mo.normalize data).1 = .error defect) :
    check data options = .error (.corrupt defect) := by
  have hempty : data.isEmpty = false := by
    rw [List.isEmpty_eq_false_iff]
    rintro rfl
    exact absurd hmin (by decide)
  unfold check
  rw [hempty, if_neg (Nat.not_lt.2 hmin), if_neg (Nat.not_lt.2 hmax)]
  rcases hnormalize : Mo.normalize data with ⟨result, normalized⟩
  rw [hnormalize] at h
  cases h
  rfl

end Catalog

/-! ## Drafts without messages -/

namespace Draft

/-- A file without entries is refused. If it has no hash table either, it is even shorter than any
catalog. -/
theorem check_write_of_nil {d : Draft} (hnil : d.messages = []) {options : LoadOptions}
    (hmax : d.write.length ≤ options.maxSize) :
    Catalog.check d.write options =
      .error (.corrupt (if d.hashed then .noEntries else .tooSmall)) := by
  have hwrite : d.write = ((empty.withOrder d.order).withHashing d.hashed).write :=
    write_congr hnil rfl rfl
  rw [hwrite] at hmax ⊢
  -- There are only four such files, one for each way of writing it.
  generalize d.order = order, d.hashed = hashed at *
  cases hashed with
  | false =>
      refine Catalog.check_of_length_lt ?_ ?_
      all_goals cases order <;> decide
  | true =>
      refine Catalog.check_of_normalize ?_ hmax ?_
      all_goals cases order <;> decide +kernel

end Draft

/-! ## Texts -/

namespace Po

variable {options : CompileOptions} {messages : List Message}

/-- Nothing is stored if there are no metadata and no message is taken. -/
theorem messages_draftOf_eq_nil_iff :
    (draftOf options messages).messages = [] ↔
      (∀ m ∈ messages, ¬ m.isHeader = true) ∧ (tallyOf options messages).translated = 0 := by
  have htaken : (tallyOf options messages).translated = 0 ↔
      ∀ m ∈ messages, ¬ m.isTaken options = true := by
    rw [translated_tallyOf, List.countP_eq_zero]
  rw [htaken, ← List.map_eq_nil_iff (f := Prod.fst), List.eq_nil_iff_forall_not_mem]
  simp only [mem_sources_draftOf_iff, not_or]
  constructor
  · intro h
    exact ⟨fun m hm hheader => (h []).1 ⟨⟨m, hm, hheader⟩, rfl⟩,
      fun m hm htaken => (h m.storedSource).2 ⟨m, hm, htaken, rfl⟩⟩
  · rintro ⟨hheader, htaken⟩ source
    exact ⟨fun ⟨⟨m, hm, h⟩, _⟩ => hheader m hm h, fun ⟨m, hm, h, _⟩ => htaken m hm h⟩

/-- **What compiling gives can be loaded, unless it is empty.** If a text has metadata, or a message
of it counts as translated, then the file that it compiles to is loaded, whether or not the order
of its keys is checked, and the entries of the catalog are the messages of the draft. If neither is
the case the file has no entry, and is refused for that or for its size. -/
theorem ofBytes_compile {text : String} {d : Draft} {tally : Tally}
    (hcompile : (compile text options).value = .ok (d, tally)) (hfit : d.write.length < 2 ^ 32)
    {loading : LoadOptions} (hmax : d.write.length ≤ loading.maxSize) (name : String) :
    ((∃ m ∈ (read text).1, m.isHeader = true) ∨ tally.translated ≠ 0 →
      ∃ c, (Catalog.ofBytes d.write name loading).value = .ok c ∧ c.image.entries = d.messages) ∧
    ((∀ m ∈ (read text).1, ¬ m.isHeader = true) → tally.translated = 0 →
      (Catalog.ofBytes d.write name loading).value =
        .error (.corrupt (if options.hashed then .noEntries else .tooSmall))) := by
  have hread : (read text).2 = none := (compile_value_iff.1 ⟨tally, hcompile⟩).1
  rw [value_compile hread] at hcompile
  cases hcompile
  constructor
  · intro hsome
    have hne : (draftOf options (read text).1).messages ≠ [] := by
      rw [Ne, messages_draftOf_eq_nil_iff, not_and_or]
      refine hsome.imp (fun ⟨m, hm, hheader⟩ hnone => hnone m hm hheader) id
    exact ⟨_, Draft.ofBytes_write hne hfit hmax name, Draft.entries_image hfit⟩
  · intro hheader htranslated
    have hnil := messages_draftOf_eq_nil_iff.2 ⟨hheader, htranslated⟩
    rw [Catalog.value_ofBytes, Draft.check_write_of_nil hnil hmax, hashed_draftOf]
    rfl

theorem ofBytes_compile_mixed :
    ∃ d tally, (compile mixed ⟨false, false, .big⟩).value = .ok (d, tally) ∧
      d.write.length < 2 ^ 32 ∧ d.write.length ≤ (⟨1024, true⟩ : LoadOptions).maxSize ∧
      tally.translated ≠ 0 ∧
      ∃ c, (Catalog.ofBytes d.write "mixed" ⟨1024, true⟩).value = .ok c ∧
        c.image.entries = [([], [104]), ([99], [50])] := by
  let options : CompileOptions := ⟨false, false, .big⟩
  have hcompile := value_compile read_mixed options
  obtain ⟨hfit, hmax, htranslated, hmessages⟩ :
      (draftOf options (read mixed).1).write.length < 2 ^ 32 ∧
        (draftOf options (read mixed).1).write.length ≤ (⟨1024, true⟩ : LoadOptions).maxSize ∧
        (tallyOf options (read mixed).1).translated ≠ 0 ∧
        (draftOf options (read mixed).1).messages = [([], [104]), ([99], [50])] := by
    decide +kernel
  obtain ⟨c, hc, hentries⟩ :=
    (ofBytes_compile hcompile hfit hmax "mixed").1 (Or.inr htranslated)
  exact ⟨_, _, hcompile, hfit, hmax, htranslated, c, hc, hentries.trans hmessages⟩

/-- A text with one message, which is left out. -/
def leftOut : String := "#, fuzzy\nmsgid \"a\"\nmsgstr \"b\"\n"

/-- The text compiles to a file of an accepted size, but no catalog can be loaded from it. -/
theorem ofBytes_leftOut_ne :
    ∃ d tally, (compile leftOut {}).value = .ok (d, tally) ∧ d.write.length = 40 ∧
      40 ≤ ({} : LoadOptions).maxSize ∧
      (Catalog.ofBytes d.write "leftOut" {}).value = .error (.corrupt .noEntries) := by
  have hread : (read leftOut).2 = none := by decide +kernel
  have hnil : (draftOf {} (read leftOut).1).messages = [] := by decide +kernel
  have hlength : (draftOf {} (read leftOut).1).write.length = 40 := by decide +kernel
  have hmax : 40 ≤ ({} : LoadOptions).maxSize := by decide
  refine ⟨_, _, value_compile hread {}, hlength, hmax, ?_⟩
  rw [Catalog.value_ofBytes, Draft.check_write_of_nil hnil (hlength ▸ hmax), hashed_draftOf]
  rfl

end Po

end MessageCatalog
