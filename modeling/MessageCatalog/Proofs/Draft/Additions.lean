import Mathlib.Data.Finset.Card
import MessageCatalog.Proofs.Draft.Insertion

set_option autoImplicit false

/-! # Drafts as they are put together

A draft is put together by additions, one after another. Each of them stores a target under a
source, whatever was stored there before, so nothing but the last target of each source is left in
the end (`mem_messages_built_iff`). The file knows no more of the additions than that: if two
histories leave the same targets, then their files are the same, byte by byte (`write_built_eq`).
-/

namespace MessageCatalog

/-- What can be added to a draft. -/
inductive Addition
  | metadata (text : Bytes)
  | message (source target : Bytes)
  | messageIn (context source target : Bytes)
  | pluralMessage (singular plural : Bytes) (forms : List Bytes)
  | pluralMessageIn (context singular plural : Bytes) (forms : List Bytes)
  deriving Repr, DecidableEq

namespace Addition

/-- A draft with an addition. -/
def addTo (d : Draft) : Addition → Draft
  | metadata text => d.setMetadata text
  | message source target => d.add source target
  | messageIn context source target => d.addIn context source target
  | pluralMessage singular plural forms => d.addPlural singular plural forms
  | pluralMessageIn context singular plural forms => d.addPluralIn context singular plural forms

/-- The source that an addition stores a target under. -/
def source : Addition → Bytes
  | metadata _ => []
  | message source _ => source
  | messageIn context source _ => context ++ 4 :: source
  | pluralMessage singular plural _ => singular ++ 0 :: plural
  | pluralMessageIn context singular plural _ => context ++ 4 :: (singular ++ 0 :: plural)

/-- The target that an addition stores: forms are stored with a NUL between them. -/
def target : Addition → Bytes
  | metadata text => text
  | message _ target => target
  | messageIn _ _ target => target
  | pluralMessage _ _ forms => Separated.join 0 forms
  | pluralMessageIn _ _ _ forms => Separated.join 0 forms

theorem addTo_eq (d : Draft) (a : Addition) : a.addTo d = d.add a.source a.target := by
  cases a with
  | metadata text => rfl
  | message source target => rfl
  | messageIn context source target => rfl
  | pluralMessage singular plural forms => rfl
  | pluralMessageIn context singular plural forms =>
      show d.add ((context ++ 4 :: singular) ++ 0 :: plural) _ = _
      rw [List.append_assoc, List.cons_append]
      rfl

/-- The target that was stored last under a source, if any was. -/
def lastTarget? (additions : List Addition) (source : Bytes) : Option Bytes :=
  ((additions.filter fun a => a.source = source).getLast?).map target

variable {additions additions' : List Addition}

theorem lastTarget?_eq_none_iff {source : Bytes} :
    lastTarget? additions source = none ↔ source ∉ additions.map Addition.source := by
  rw [lastTarget?, Option.map_eq_none_iff, List.getLast?_eq_none_iff, List.filter_eq_nil_iff,
    List.mem_map, not_exists]
  simp only [decide_eq_true_iff, not_and]

/-- The additions store targets under the same sources, and the last ones are the same. -/
def LeaveTheSame (additions additions' : List Addition) : Prop :=
  ∀ source, lastTarget? additions source = lastTarget? additions' source

/-- Only the sources that are stored under have to be looked at. -/
theorem leaveTheSame_iff : LeaveTheSame additions additions' ↔
    ∀ a ∈ additions ++ additions',
      lastTarget? additions a.source = lastTarget? additions' a.source := by
  refine ⟨fun h a _ => h a.source, fun h source => ?_⟩
  by_cases hmem : source ∈ (additions ++ additions').map Addition.source
  · obtain ⟨a, ha, rfl⟩ := List.mem_map.1 hmem
    exact h a ha
  · rw [List.map_append, List.mem_append, not_or] at hmem
    rw [lastTarget?_eq_none_iff.2 hmem.1, lastTarget?_eq_none_iff.2 hmem.2]

instance : Decidable (LeaveTheSame additions additions') :=
  decidable_of_iff _ leaveTheSame_iff.symm

end Addition

namespace Draft

open Addition (lastTarget? LeaveTheSame)

/-- The draft that additions make, one after another, with the choices of how to write it. -/
def built (order : Mo.ByteOrder) (hashed : Bool) (additions : List Addition) : Draft :=
  additions.foldl Addition.addTo ((empty.withOrder order).withHashing hashed)

variable (order : Mo.ByteOrder) (hashed : Bool)

theorem built_eq (additions : List Addition) :
    built order hashed additions = (additions.map fun a => (a.source, a.target)).foldl
      (fun d r => d.add r.1 r.2) ((empty.withOrder order).withHashing hashed) := by
  rw [List.foldl_map]
  simp only [← Addition.addTo_eq]
  rfl

theorem messages_built (additions : List Addition) :
    (built order hashed additions).messages =
      insertAll (additions.map fun a => (a.source, a.target)) := by
  rw [built_eq]
  exact (foldl_add _ _).1

/-- **Of each source the last target is left.** -/
theorem mem_messages_built_iff {additions : List Addition} {source target : Bytes} :
    (source, target) ∈ (built order hashed additions).messages ↔
      lastTarget? additions source = some target := by
  have hsame : (additions.map fun a => (a.source, a.target)).filter (fun r => r.1 = source) =
      (additions.filter fun a => a.source = source).map fun a => (a.source, a.target) :=
    List.filter_map
  rw [messages_built, mem_insertAll_iff, hsame, List.getLast?_map, lastTarget?,
    Option.map_eq_some_iff, Option.map_eq_some_iff]
  constructor
  · rintro ⟨a, hlast, ha⟩
    exact ⟨a, hlast, congrArg Prod.snd ha⟩
  · rintro ⟨a, hlast, rfl⟩
    -- What is left of the filter has the source that was filtered for.
    have hsource : a.source = source :=
      of_decide_eq_true (List.mem_filter.1 (List.mem_of_getLast? hlast)).2
    exact ⟨a, hlast, by rw [hsource]⟩

theorem mem_sources_built_iff {additions : List Addition} {source : Bytes} :
    source ∈ (built order hashed additions).messages.map Prod.fst ↔
      source ∈ additions.map Addition.source := by
  rw [messages_built, mem_sources_insertAll_iff, List.map_map]
  rfl

/-- There is one message for each of the sources. -/
theorem size_built (additions : List Addition) :
    (built order hashed additions).size = (additions.map Addition.source).toFinset.card := by
  let sources := (built order hashed additions).messages.map Prod.fst
  have hnodup : sources.Nodup := (built order hashed additions).ascending.nodup_sources
  have hsources : sources.toFinset = (additions.map Addition.source).toFinset := by
    ext source
    rw [List.mem_toFinset, List.mem_toFinset]
    exact mem_sources_built_iff order hashed
  calc (built order hashed additions).size
      = sources.length := (List.length_map Prod.fst).symm
    _ = sources.toFinset.card := (List.toFinset_card_of_nodup hnodup).symm
    _ = _ := congrArg Finset.card hsources

/-- **Files are reproducible.** If two histories leave the same targets, in whatever order and
however often they stored them, then with the same choices their files are the same, and so are
their messages: the last target of each source, one message for each source that was stored
under. -/
theorem write_built_eq {additions additions' : List Addition}
    (h : LeaveTheSame additions additions') :
    (built order hashed additions).write = (built order hashed additions').write ∧
      (built order hashed additions).size = (additions.map Addition.source).toFinset.card ∧
      (built order hashed additions').size = (additions.map Addition.source).toFinset.card ∧
      ∀ source target, (source, target) ∈ (built order hashed additions).messages ↔
        lastTarget? additions source = some target := by
  have hmessages : (built order hashed additions).messages =
      (built order hashed additions').messages := by
    refine (built order hashed additions).ascending.eq_of_mem_iff
      (built order hashed additions').ascending fun ⟨source, target⟩ => ?_
    rw [mem_messages_built_iff, mem_messages_built_iff, h source]
  have hchoices : ∀ additions, (built order hashed additions).hashed = hashed ∧
      (built order hashed additions).order = order := by
    intro additions
    rw [built_eq]
    exact (foldl_add _ _).2
  refine ⟨write_congr hmessages ?_ ?_, size_built order hashed additions, ?_, fun _ _ =>
    mem_messages_built_iff order hashed⟩
  · rw [(hchoices additions).1, (hchoices additions').1]
  · rw [(hchoices additions).2, (hchoices additions').2]
  · rw [← size_built order hashed additions, size, size, hmessages]

/-- Two messages, one of them stored twice, and forms. -/
def repeated : List Addition :=
  [.message [97] [1], .messageIn [109] [97] [2], .pluralMessage [98] [99] [[3], [4]],
    .message [97] [5]]

/-- The same in another order: a key in a context is a key with the byte four in it, and a plural
message is one with a NUL in its key. -/
def reordered : List Addition :=
  [.message [98, 0, 99] [3, 0, 4], .message [97] [5], .message [109, 4, 97] [2]]

theorem write_built_eq_reordered :
    LeaveTheSame repeated reordered ∧
      (built .big true repeated).write = (built .big true reordered).write ∧
      (built .big true repeated).size = 3 := by
  have hsame : LeaveTheSame repeated reordered := by decide
  obtain ⟨hwrite, hsize, -⟩ := write_built_eq .big true hsame
  exact ⟨hsame, hwrite, hsize⟩

end Draft

end MessageCatalog
