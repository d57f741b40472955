import MessageCatalog.Proofs.Catalog.Loading

set_option autoImplicit false

/-! # Searches in a loaded catalog

A catalog comes from a file that nobody vouches for. Loading checks where its tables lie, and not
what they say. That is enough for searches to be safe (`isSafe_search`): they read words of the
tables only, and find nothing but what they look for. It is not enough for them to find everything
that is there. A file without a hash table has to have its keys in order for that, and then they do
(`find_of_checkOrder`).
-/

namespace MessageCatalog.Catalog

open Mo

variable {data : Bytes} {options : LoadOptions} {c : Catalog} {name : String}

/-- What holds of a search for a key whatever the file says: it reads words that lie in the file
and belong to its tables, and finds nothing but an entry with the key. -/
structure IsSafe (m : Image) (key : Bytes) (search : Traced Nat) : Prop where
  inFile : ∀ place ∈ search.reads, place.position m.header + 4 ≤ m.data.size
  inTable : ∀ place ∈ search.reads, place.InTable m.header
  found : ∀ index, search.value = some index →
    index < m.header.count ∧ m.key? index = some key

theorem isSafe_of_inTables {m : Image} (hm : m.HasTables) {key : Bytes} {search : Traced Nat}
    (htables : search.InTables m.header)
    (hfound : ∀ index, search.value = some index → m.key? index = some key) :
    IsSafe m key search where
  inFile place hplace := hm.position_le (htables place hplace)
  inTable := htables
  found index hindex := ⟨Image.lt_count_of_key? (hfound index hindex), hfound index hindex⟩

/-- **Searches are safe in any file that is loaded.** The search that the file provides for, and a
binary search in any case, read no word outside of the file, no slot beyond the hash table and no
descriptor beyond the entries. An entry that they find has the key they look for. So what a lookup
gives is the target of such an entry. -/
theorem isSafe_search (hload : (ofBytes data name options).value = .ok c) {key : Bytes}
    (hkey : 0 ∉ key) :
    ((c.image.traceFind key).value = c.image.find key ∧
      IsSafe c.image key (c.image.traceFind key)) ∧
    ((c.image.traceByOrder key).value = c.image.findByOrder key ∧
      IsSafe c.image key (c.image.traceByOrder key)) ∧
    ∀ target, c.lookup key = some target →
      ∃ index < c.image.header.count,
        c.image.key? index = some key ∧ c.image.target? index = some target := by
  have htables : c.image.HasTables := hasTables_of_check (ofBytes_eq_ok_iff.1 hload).1
  have hfind := c.image.value_traceFind key
  have horder := c.image.value_traceByOrder key
  refine ⟨⟨hfind, ?_⟩, ⟨horder, ?_⟩, fun target htarget => ?_⟩
  · refine isSafe_of_inTables htables (c.image.inTables_traceFind key) fun index hindex => ?_
    exact Image.key?_of_find hkey (hfind ▸ hindex)
  · refine isSafe_of_inTables htables (c.image.inTables_traceByOrder key) fun index hindex => ?_
    exact Image.key?_of_findBetween (horder ▸ hindex)
  · obtain ⟨index, hindex, htarget⟩ := Option.bind_eq_some_iff.1 htarget
    rw [Bytes.beforeNul_of_not_mem hkey] at hindex
    have hfound := Image.key?_of_find hkey hindex
    exact ⟨index, Image.lt_count_of_key? hfound, hfound, htarget⟩

/-- A file of two entries with a hash table of four slots, none of them empty. One slot leads to
an entry that there is not, one far beyond, and one to an entry whose source is nowhere. -/
def corrupt : Bytes :=
  ([signature, 0, 2, 28, 44, 4, 60] ++ [0xffffffff, 7, 3, 76] ++ [1, 76, 1, 78] ++
    [3, 1, 0xffffffff, 2]).flatMap ByteOrder.little.word ++ [97, 0, 112]

theorem isSafe_search_corrupt :
    ∃ c, (ofBytes corrupt "corrupt" {}).value = .ok c ∧ (0 : UInt8) ∉ ([97] : Bytes) ∧
      c.image.find [97] = some 1 ∧ IsSafe c.image [97] (c.image.traceFind [97]) ∧
      (c.image.traceFind [97]).reads =
        [.slot 1, .length 0, .offset 0, .slot 3, .length 1, .offset 1] ∧
      c.image.find [98] = none ∧ IsSafe c.image [98] (c.image.traceFind [98]) := by
  let image : Image := ⟨⟨.little, 0, 2, 28, 44, 4, 60⟩, corrupt.toArray⟩
  have hcheck : check corrupt {} = .ok image := by decide +kernel
  have hload := ofBytes_of_check hcheck "corrupt"
  have hkey : (0 : UInt8) ∉ ([97] : Bytes) := by decide
  obtain ⟨⟨-, hsafe⟩, -⟩ := isSafe_search hload hkey
  obtain ⟨⟨-, hsafe'⟩, -⟩ := isSafe_search hload (by decide : (0 : UInt8) ∉ ([98] : Bytes))
  exact ⟨_, hload, hkey, by decide +kernel, hsafe, by decide +kernel, by decide +kernel, hsafe'⟩

/-- **Binary search is complete if the order was checked.** In a file without a hash table to speak
of, which was loaded with its order checked, a search finds an entry with the key if there is one,
and nothing otherwise. More than one entry may have the key. -/
theorem find_of_checkOrder (hload : (ofBytes data name options).value = .ok c)
    (hcheck : options.checkOrder = true) (hsize : c.image.header.hashSize ≤ 2) (key : Bytes) :
    c.image.find key = c.image.findByOrder key ∧
    (∀ index, c.image.findByOrder key = some index →
      index < c.image.header.count ∧ c.image.key? index = some key) ∧
    (c.image.findByOrder key = none ↔
      ∀ index < c.image.header.count, c.image.key? index ≠ some key) := by
  have hhashed : c.image.header.isHashed = false := decide_eq_false (Nat.not_lt.2 hsize)
  obtain ⟨-, -, -, hascending⟩ := check_eq_ok_iff.1 (ofBytes_eq_ok_iff.1 hload).1
  obtain ⟨keys, hkeys⟩ := (Image.isAscending_iff _).1 (hascending hcheck hhashed)
  refine ⟨?_, fun index hindex => ?_, hkeys.findByOrder_eq_none_iff key⟩
  · unfold Image.find
    rw [hhashed]
    rfl
  · have hfound := Image.key?_of_findBetween hindex
    exact ⟨Image.lt_count_of_key? hfound, hfound⟩

/-- A file without a hash table, and with three entries. The first two have the same key. -/
def repeated : Bytes :=
  ([signature, 0, 3, 28, 52, 0, 76] ++ [1, 76, 3, 76, 1, 79] ++ [1, 76, 1, 78, 9, 9]).flatMap
    ByteOrder.little.word ++ [97, 0, 112, 98]

theorem find_of_checkOrder_repeated :
    ∃ c, (ofBytes repeated "repeated" ⟨1024, true⟩).value = .ok c ∧
      c.image.header.hashSize ≤ 2 ∧ c.image.key? 0 = some [97] ∧ c.image.key? 1 = some [97] ∧
      (∃ index, c.image.findByOrder [97] = some index ∧ c.image.key? index = some [97]) ∧
      c.image.findByOrder [99] = none := by
  let image : Image := ⟨⟨.little, 0, 3, 28, 52, 0, 76⟩, repeated.toArray⟩
  have hcheck : check repeated ⟨1024, true⟩ = .ok image := by decide +kernel
  have hload := ofBytes_of_check hcheck "repeated"
  have hsize : image.header.hashSize ≤ 2 := by decide
  have hkeys : ∀ index < 3, image.key? index ≠ some [99] := by decide +kernel
  obtain ⟨-, hfound, hnone⟩ := find_of_checkOrder hload rfl hsize [97]
  obtain ⟨-, -, hnone'⟩ := find_of_checkOrder hload rfl hsize [99]
  refine ⟨_, hload, hsize, by decide +kernel, by decide +kernel, ?_, hnone'.2 hkeys⟩
  have hne : image.findByOrder [97] ≠ none := fun h => hnone.1 h 0 (by decide) (by decide +kernel)
  obtain ⟨index, hindex⟩ := Option.ne_none_iff_exists'.1 hne
  exact ⟨index, hindex, (hfound index hindex).2⟩

end MessageCatalog.Catalog
