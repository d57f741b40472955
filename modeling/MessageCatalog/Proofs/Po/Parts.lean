import MessageCatalog.Proofs.Draft.Additions
import MessageCatalog.Proofs.Po.RoundTrip

set_option autoImplicit false

/-! # The parts of what is added

What is added to a draft has up to four parts, all of them bytes: a context, a key, a plural, and
the targets. They are joined to one record, and taking the record apart should give them back. It
does (`Addition.ofStored_of_cutAt?`) wherever the first byte four is the one behind the context. A
message without a context has none of its own, so a byte four in its plural is taken for that one,
and everything in front of it for the context (`Addition.ofStored_record`).
-/

namespace MessageCatalog.Addition

open Po (Entry cutAt?)

/-! ## Parts -/

def context? : Addition → Option Bytes
  | messageIn context _ _ => some context
  | pluralMessageIn context _ _ _ => some context
  | _ => none

def id : Addition → Bytes
  | metadata _ => []
  | message source _ => source
  | messageIn _ source _ => source
  | pluralMessage singular _ _ => singular
  | pluralMessageIn _ singular _ _ => singular

def plural? : Addition → Option Bytes
  | pluralMessage _ plural _ => some plural
  | pluralMessageIn _ _ plural _ => some plural
  | _ => none

/-- The forms of a plural message, and the only target of any other. -/
def targets : Addition → List Bytes
  | metadata text => [text]
  | message _ target => [target]
  | messageIn _ _ target => [target]
  | pluralMessage _ _ forms => forms
  | pluralMessageIn _ _ _ forms => forms

/-- The entry that the parts make, as text. -/
def entry (a : Addition) : Entry where
  context := a.context?.map Utf8.lossy
  id := Utf8.lossy a.id
  plural := a.plural?.map Utf8.lossy
  targets := a.targets.map Utf8.lossy

/-- The key and the plural, which stand behind the context. -/
def keyAndPlural (a : Addition) : Bytes := a.id ++ a.plural?.elim [] fun plural => 0 :: plural

/-- The parts do not hold the bytes that they are set apart by. A key in a context may hold the byte
four, since the context ends at the first one. A plural may hold any bytes. -/
structure IsSeparable (a : Addition) : Prop where
  context : ∀ context ∈ a.context?, 4 ∉ context
  id : 0 ∉ a.id
  bare : a.context? = none → 4 ∉ a.id
  forms : a.plural?.isSome → a.targets ≠ [] ∧ ∀ form ∈ a.targets, 0 ∉ form

variable {a : Addition}

theorem source_eq (a : Addition) :
    a.source = a.context?.elim a.keyAndPlural fun context => context ++ 4 :: a.keyAndPlural := by
  cases a with
  | metadata text => rfl
  | message source target => exact (List.append_nil source).symm
  | messageIn context source target =>
      exact congrArg (fun key => context ++ 4 :: key) (List.append_nil source).symm
  | pluralMessage singular plural forms => rfl
  | pluralMessageIn context singular plural forms => rfl

theorem target_eq (a : Addition) : a.target = Separated.join 0 a.targets := by
  cases a <;> rfl

theorem targets_of_plural?_eq_none (h : a.plural? = none) : a.targets = [a.target] := by
  cases a <;> first | rfl | cases h

/-- A draft stores what is added under its source. -/
theorem mem_messages_addTo (a : Addition) (d : Draft) :
    (a.source, a.target) ∈ (a.addTo d).messages := by
  rw [addTo_eq]
  exact (mem_insertRecord_iff d.ascending).2 (Or.inl rfl)

/-! ## Taking a record apart -/

theorem cutAt?_keyAndPlural (ha : a.IsSeparable) :
    cutAt? 0 a.keyAndPlural = a.plural?.map fun plural => (a.id, plural) := by
  unfold keyAndPlural
  cases a.plural? with
  | none =>
      rw [Option.elim_none, List.append_nil]
      exact Po.cutAt?_of_not_mem ha.id
  | some plural => exact Po.cutAt?_append ha.id plural

theorem split_target (ha : a.IsSeparable) (hplural : a.plural?.isSome) :
    Separated.split 0 a.target = a.targets := by
  obtain ⟨hne, hfree⟩ := ha.forms hplural
  rw [target_eq]
  exact Separated.split_join hne hfree

/-- If the context is found, then so are the other parts. -/
theorem ofStored_of_cutAt? (ha : a.IsSeparable)
    (hcut : cutAt? 4 a.source = a.context?.map fun context => (context, a.keyAndPlural)) :
    Entry.ofStored a.source a.target = a.entry := by
  have hkey : a.context? = none → a.source = a.keyAndPlural := by
    intro hnone
    rw [source_eq, hnone, Option.elim_none]
  have hid : a.plural? = none → a.keyAndPlural = a.id := by
    intro hnone
    rw [keyAndPlural, hnone, Option.elim_none, List.append_nil]
  have htargets : (a.plural?.elim [Utf8.lossy a.target] fun _ =>
      (Separated.split 0 a.target).map Utf8.lossy) = a.targets.map Utf8.lossy := by
    cases hplural : a.plural? with
    | none => rw [targets_of_plural?_eq_none hplural]; rfl
    | some plural =>
        rw [← split_target ha (by rw [hplural]; rfl)]
        rfl
  rw [Entry.ofStored_eq hcut hkey (cutAt?_keyAndPlural ha) hid, htargets]
  rfl

theorem cutAt?_source (ha : a.IsSeparable)
    (hfree : a.context? = none → ∀ plural ∈ a.plural?, 4 ∉ plural) :
    cutAt? 4 a.source = a.context?.map fun context => (context, a.keyAndPlural) := by
  rw [source_eq]
  cases hcontext : a.context? with
  | some context => exact Po.cutAt?_append (ha.context context hcontext) _
  | none =>
      refine Po.cutAt?_of_not_mem ?_
      rw [Option.elim_none, keyAndPlural]
      cases hplural : a.plural? with
      | none =>
          rw [Option.elim_none, List.append_nil]
          exact ha.bare hcontext
      | some plural =>
          exact Po.not_mem_append_cons (by decide) (ha.bare hcontext)
            (hfree hcontext plural hplural)

/-- Without a context of its own, a message is shown in one that ends at the byte four in its
plural. -/
theorem context_ofStored_of_plural? (ha : a.IsSeparable) (hcontext : a.context? = none)
    {front back : Bytes} (hplural : a.plural? = some (front ++ 4 :: back)) (hfront : 4 ∉ front) :
    (Entry.ofStored a.source a.target).context = some (Utf8.lossy (a.id ++ 0 :: front)) := by
  have hsource : a.source = (a.id ++ 0 :: front) ++ 4 :: back := by
    rw [source_eq, hcontext, Option.elim_none, keyAndPlural, hplural, List.append_assoc]
    rfl
  have hnot : 4 ∉ a.id ++ 0 :: front :=
    Po.not_mem_append_cons (by decide) (ha.bare hcontext) hfront
  rw [Entry.context_ofStored, hsource, Po.cutAt?_append hnot]
  rfl

/-- **When taking a record apart gives back what was added.** A draft stores the record of an
addition, and taking this record apart gives back all parts of the addition, its context, its key,
its plural and its forms, if and only if it has a context or there is no byte four in its plural.
Otherwise the key, the NUL and the plural up to its first byte four are shown as a context. -/
theorem ofStored_record (ha : a.IsSeparable) (d : Draft) :
    (a.source, a.target) ∈ (a.addTo d).messages ∧
      (Entry.ofStored a.source a.target = a.entry ↔
        (a.context? = none → ∀ plural ∈ a.plural?, 4 ∉ plural)) ∧
      ∀ front back, a.context? = none → a.plural? = some (front ++ 4 :: back) → 4 ∉ front →
        (Entry.ofStored a.source a.target).context = some (Utf8.lossy (a.id ++ 0 :: front)) := by
  refine ⟨mem_messages_addTo a d, ⟨fun hentry hcontext plural hplural hmem => ?_, fun hfree => ?_⟩,
    fun front back hcontext hplural hfront =>
      context_ofStored_of_plural? ha hcontext hplural hfront⟩
  · obtain ⟨front, back, rfl, hfront⟩ := List.eq_append_cons_of_mem hmem
    have hshown := context_ofStored_of_plural? ha hcontext hplural hfront
    rw [hentry, entry, hcontext] at hshown
    cases hshown
  · exact ofStored_of_cutAt? ha (cutAt?_source ha hfree)

/-- A message with separators in all the places where they do no harm, and an empty form. -/
def marked : Addition := .pluralMessageIn [109] [4, 97] [4, 0, 98] [[], [88]]

theorem ofStored_record_marked :
    marked.IsSeparable ∧ (marked.source, marked.target) ∈ (marked.addTo .empty).messages ∧
      Entry.ofStored marked.source marked.target =
        ⟨some "m", "\x04a", some "\x04\x00b", ["", "X"]⟩ := by
  have hmarked : marked.IsSeparable := ⟨by decide, by decide, nofun, fun _ => by decide⟩
  obtain ⟨hmem, hentry, -⟩ := ofStored_record hmarked .empty
  refine ⟨hmarked, hmem, ?_⟩
  rw [hentry.2 nofun]
  decide +kernel

/-- A message without a context and with the byte four in its plural. -/
def misread : Addition := .pluralMessage [97] [98, 4, 99] [[88], [89]]

/-- The start of the plural is taken for a context, and the forms are no longer told apart. -/
theorem ofStored_misread_ne :
    misread.IsSeparable ∧ misread.entry = ⟨none, "a", some "b\x04c", ["X", "Y"]⟩ ∧
      Entry.ofStored misread.source misread.target = ⟨some "a\x00b", "c", none, ["X\x00Y"]⟩ := by
  refine ⟨⟨nofun, by decide, fun _ => by decide, fun _ => by decide⟩, ?_, ?_⟩
  · decide +kernel
  · decide +kernel

end MessageCatalog.Addition
