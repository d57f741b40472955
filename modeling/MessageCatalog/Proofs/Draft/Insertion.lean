import MessageCatalog.Draft
import Mathlib.Data.List.Induction
import Mathlib.Data.List.Nodup
import Mathlib.Data.List.Sort

set_option autoImplicit false

/-! # Inserting records

The messages of a draft are records in ascending order of their sources, so a record is known by its
source (`Ascending.eq_of_source_eq`), and one that is inserted drives out the one with its source
(`mem_insertRecord_iff`). Of records that are inserted one after another the last one with a source
stays (`mem_insertAll_iff`), and records that are in ascending order already stay as they are
(`insertAll_of_ascending`). A draft inserts what is added to it (`Draft.foldl_add`), and its file
depends on its messages and its choices alone (`Draft.write_congr`).
-/

namespace MessageCatalog

/-! ## One record -/

theorem Ascending.nodup_sources {messages : List Record} (h : Ascending messages) :
    (messages.map Prod.fst).Nodup := by
  have hsorted : (messages.map Prod.fst).Pairwise (· < ·) := List.pairwise_map.2 h
  exact hsorted.nodup

theorem Ascending.eq_of_source_eq {m x : Record} {messages : List Record}
    (h : Ascending messages) (hm : m ∈ messages) (hx : x ∈ messages) (heq : m.1 = x.1) : m = x :=
  List.inj_on_of_nodup_map h.nodup_sources hm hx heq

/-- Which records there are says in what order they stand. -/
theorem Ascending.eq_of_mem_iff {messages messages' : List Record} (h : Ascending messages)
    (h' : Ascending messages') (hmem : ∀ x, x ∈ messages ↔ x ∈ messages') :
    messages = messages' := by
  have hirrefl : Std.Irrefl fun a b : Record => a.1 < b.1 := ⟨fun a => List.lt_irrefl a.1⟩
  have hasymm : Std.Asymm fun a b : Record => a.1 < b.1 :=
    ⟨fun _ _ hlt hgt => List.lt_irrefl _ (List.lt_trans hlt hgt)⟩
  exact List.Pairwise.eq_of_mem_iff h h' hmem

/-- A record stays unless one with the same source is inserted. -/
theorem mem_insertRecord_iff {m x : Record} {messages : List Record} (h : Ascending messages) :
    x ∈ insertRecord m messages ↔ x = m ∨ x ∈ messages ∧ x.1 ≠ m.1 := by
  induction messages with
  | nil => simp [insertRecord]
  | cons other rest ih =>
      obtain ⟨hall, hrest⟩ := List.pairwise_cons.1 h
      rw [insertRecord]
      split
      · next hlt =>
          -- The order leaves no room for the source behind the place of `m`.
          have hne : ∀ y ∈ other :: rest, y.1 ≠ m.1 := by
            intro y hy heq
            have hm : m.1 < y.1 := by
              rcases List.mem_cons.1 hy with rfl | hy
              · exact hlt
              · exact List.lt_trans hlt (hall y hy)
            exact List.lt_irrefl _ (heq ▸ hm)
          rw [List.mem_cons]
          exact or_congr_right ⟨fun hx => ⟨hx, hne x hx⟩, And.left⟩
      · split
        · next heq =>
            have hne : ∀ y ∈ rest, y.1 ≠ m.1 := by
              intro y hy hym
              have hlt := hall y hy
              rw [hym, heq] at hlt
              exact List.lt_irrefl _ hlt
            rw [List.mem_cons, List.mem_cons]
            refine or_congr_right ⟨fun hx => ⟨Or.inr hx, hne x hx⟩, ?_⟩
            rintro ⟨rfl | hx, hxm⟩
            · exact absurd heq.symm hxm
            · exact hx
        · next hne =>
            rw [List.mem_cons, ih hrest, List.mem_cons]
            constructor
            · rintro (rfl | rfl | ⟨hx, hxm⟩)
              · exact Or.inr ⟨Or.inl rfl, Ne.symm hne⟩
              · exact Or.inl rfl
              · exact Or.inr ⟨Or.inr hx, hxm⟩
            · rintro (rfl | ⟨rfl | hx, hxm⟩)
              · exact Or.inr (Or.inl rfl)
              · exact Or.inl rfl
              · exact Or.inr (Or.inr ⟨hx, hxm⟩)

theorem insertRecord_of_lt {m : Record} {messages : List Record} (h : ∀ x ∈ messages, x.1 < m.1) :
    insertRecord m messages = messages ++ [m] := by
  induction messages with
  | nil => rfl
  | cons other rest ih =>
      obtain ⟨hother, hrest⟩ := List.forall_mem_cons.1 h
      have hne : m.1 ≠ other.1 := fun h => List.lt_irrefl _ (h ▸ hother)
      rw [insertRecord, if_neg (List.not_lt.2 (Std.le_of_lt hother)), if_neg hne, ih hrest]
      rfl

/-! ## Records one after another -/

/-- The records inserted one after another. -/
def insertAll (records : List Record) : List Record :=
  records.foldl (fun messages r => insertRecord r messages) []

theorem insertAll_concat (records : List Record) (r : Record) :
    insertAll (records ++ [r]) = insertRecord r (insertAll records) := by
  rw [insertAll, List.foldl_append]
  rfl

theorem ascending_insertAll (records : List Record) : Ascending (insertAll records) := by
  induction records using List.reverseRecOn with
  | nil => exact List.Pairwise.nil
  | append_singleton records r ih =>
      rw [insertAll_concat]
      exact ascending_insertRecord r ih

/-- **The last record with a source stays.** -/
theorem mem_insertAll_iff {records : List Record} {x : Record} :
    x ∈ insertAll records ↔ (records.filter fun r => r.1 = x.1).getLast? = some x := by
  -- From the right: what was inserted last decides.
  induction records using List.reverseRecOn with
  | nil => simp [insertAll]
  | append_singleton records r ih =>
      rw [insertAll_concat, mem_insertRecord_iff (ascending_insertAll records), ih,
        List.filter_append]
      by_cases hr : r.1 = x.1
      · have hlast : ([r].filter fun r => r.1 = x.1) = [r] := by simp [hr]
        rw [hlast, List.getLast?_concat, Option.some.injEq]
        constructor
        · rintro (rfl | ⟨-, hne⟩)
          · rfl
          · exact absurd hr.symm hne
        · rintro rfl
          exact Or.inl rfl
      · have hlast : ([r].filter fun r => r.1 = x.1) = [] := by simp [hr]
        rw [hlast, List.append_nil]
        constructor
        · rintro (rfl | ⟨hx, -⟩)
          · exact absurd rfl hr
          · exact hx
        · exact fun hx => Or.inr ⟨hx, Ne.symm hr⟩

/-- Whatever is inserted later, each source stays. -/
theorem mem_sources_insertAll_iff {records : List Record} {source : Bytes} :
    source ∈ (insertAll records).map Prod.fst ↔ source ∈ records.map Prod.fst := by
  rw [List.mem_map, List.mem_map]
  constructor
  · rintro ⟨x, hx, hsource⟩
    have hmem := List.mem_of_getLast? (mem_insertAll_iff.1 hx)
    exact ⟨x, (List.mem_filter.1 hmem).1, hsource⟩
  · rintro ⟨r, hr, rfl⟩
    have hne : records.filter (fun x => x.1 = r.1) ≠ [] :=
      List.ne_nil_of_mem (List.mem_filter.2 ⟨hr, decide_eq_true rfl⟩)
    obtain ⟨last, hlast⟩ : ∃ last, (records.filter fun x => x.1 = r.1).getLast? = some last :=
      ⟨_, List.getLast?_eq_some_getLast hne⟩
    have hsource : last.1 = r.1 :=
      of_decide_eq_true (List.mem_filter.1 (List.mem_of_getLast? hlast)).2
    exact ⟨last, mem_insertAll_iff.2 (hsource ▸ hlast), hsource⟩

/-- Records in ascending order stay as they are. -/
theorem insertAll_of_ascending {records : List Record} (h : Ascending records) :
    insertAll records = records := by
  induction records using List.reverseRecOn with
  | nil => rfl
  | append_singleton records r ih =>
      obtain ⟨hrecords, -, hlast⟩ := List.pairwise_append.1 h
      rw [insertAll_concat, ih hrecords,
        insertRecord_of_lt fun x hx => hlast x hx r (List.mem_singleton_self r)]

/-! ## Drafts -/

namespace Draft

/-- Records that are added to a draft are inserted into its messages, and nothing else changes. -/
theorem foldl_add (records : List Record) (d : Draft) :
    (records.foldl (fun d r => d.add r.1 r.2) d).messages =
        records.foldl (fun messages r => insertRecord r messages) d.messages ∧
      (records.foldl (fun d r => d.add r.1 r.2) d).hashed = d.hashed ∧
      (records.foldl (fun d r => d.add r.1 r.2) d).order = d.order := by
  induction records generalizing d with
  | nil => exact ⟨rfl, rfl, rfl⟩
  | cons r rest ih => exact ih (d.add r.1 r.2)

/-- The messages and the choices are all there is to a file. -/
theorem write_congr {d d' : Draft} (hmessages : d.messages = d'.messages)
    (hhashed : d.hashed = d'.hashed) (horder : d.order = d'.order) : d.write = d'.write := by
  cases d
  cases d'
  cases hmessages
  cases hhashed
  cases horder
  rfl

end Draft

end MessageCatalog
