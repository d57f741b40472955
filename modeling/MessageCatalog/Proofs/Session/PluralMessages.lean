import MessageCatalog.Proofs.Draft.Insertion
import MessageCatalog.Proofs.Draft.Lookup
import MessageCatalog.Proofs.Plural.Forms
import MessageCatalog.Proofs.Po.Sources
import MessageCatalog.Session

set_option autoImplicit false

/-! # Plural messages, from the draft to the reader

A plural message is put into a draft, written to a file, loaded, found under its key, and split into
its forms, of which the plural rule chooses one. At the end of this way stands the form that the
message was given (`ask_of_isAloneIn`), unless the rule chooses a form that does not exist or is
empty: then the text stays untranslated.
-/

namespace MessageCatalog

/-- A plural message as it is put into a draft: its context, if it has one, its singular, its
plural, and its forms in the language of the catalog. -/
structure PluralMessage extends Po.Pair where
  plural : Bytes
  forms : List String
  deriving Repr, DecidableEq

namespace PluralMessage

/-- The draft with the message. -/
def addTo (m : PluralMessage) (d : Draft) : Draft :=
  match m.context with
  | some context =>
      d.addPluralIn (Utf8.encode context) (Utf8.encode m.id) m.plural (m.forms.map Utf8.encode)
  | none => d.addPlural (Utf8.encode m.id) m.plural (m.forms.map Utf8.encode)

/-- What a session says for the message and a number. The plural that is shown if there is no
translation is up to the program. -/
def ask (m : PluralMessage) (s : Session) (plural : String) (n : Int32) : String :=
  match m.context with
  | some context => s.pluralIn context m.id plural n
  | none => s.plural m.id plural n

/-- The form with an index, where a negative index counts as zero; the fallback if there is no such
form, or an empty one. -/
def shown (m : PluralMessage) (index : Int32) (fallback : String) : String :=
  match m.forms[(max 0 index.toInt).toNat]? with
  | some form => if form = "" then fallback else form
  | none => fallback

/-- Nothing of the message is cut short at a NUL. Its plural may hold any bytes. -/
structure IsUncut (m : PluralMessage) : Prop where
  context : ∀ context ∈ m.context, '\x00' ∉ context.toList
  singular : '\x00' ∉ m.id.toList
  forms : ∀ form ∈ m.forms, '\x00' ∉ form.toList

/-- What a draft stores for the message. -/
def record (m : PluralMessage) : Record :=
  (m.key ++ 0 :: m.plural, Separated.join 0 (m.forms.map Utf8.encode))

/-- The draft stores the message, and no other source is equal to its source up to the first
NUL. -/
structure IsAloneIn (m : PluralMessage) (d : Draft) : Prop where
  stored : m.record ∈ d.messages
  alone : ∀ r ∈ d.messages, Bytes.beforeNul r.1 = Bytes.beforeNul m.record.1 → r.1 = m.record.1

variable {m : PluralMessage} {d : Draft}

/-! ## In a draft -/

theorem addTo_eq (m : PluralMessage) (d : Draft) : m.addTo d = d.add m.record.1 m.record.2 := by
  unfold addTo record Po.Pair.key
  cases m.context <;> rfl

/-- A message is alone once it is put into a draft that has nothing else under its key. -/
theorem isAloneIn_addTo
    (h : ∀ r ∈ d.messages, Bytes.beforeNul r.1 = Bytes.beforeNul m.record.1 → r.1 = m.record.1) :
    m.IsAloneIn (m.addTo d) := by
  rw [addTo_eq]
  refine ⟨(mem_insertRecord_iff d.ascending).2 (.inl rfl), fun r hr hkey => ?_⟩
  rcases mem_insertRecord hr with rfl | hr
  · rfl
  · exact h r hr hkey

/-- It stays alone when a message with another key is put into the draft. -/
theorem IsAloneIn.add (h : m.IsAloneIn d) {source target : Bytes}
    (hkey : Bytes.beforeNul source ≠ Bytes.beforeNul m.record.1) :
    m.IsAloneIn (d.add source target) := by
  have hne : m.record.1 ≠ source := fun heq => hkey (heq ▸ rfl)
  refine ⟨(mem_insertRecord_iff d.ascending).2 (.inr ⟨h.stored, hne⟩), fun r hr hrkey => ?_⟩
  rcases mem_insertRecord hr with rfl | hr
  · exact absurd hrkey hkey
  · exact h.alone r hr hrkey

/-! ## In a file -/

/-- A message that is alone in a draft is what the file has under its key. -/
theorem IsAloneIn.lookup_image (h : m.IsAloneIn d) (hm : m.IsUncut)
    (hfit : d.write.length < 2 ^ 32) : d.image.lookup m.key = some m.record.2 := by
  have hkey : 0 ∉ m.key := Po.Pair.zero_not_mem_key_of hm.context hm.singular
  have hquery : Bytes.beforeNul m.key = Bytes.beforeNul m.record.1 := by
    rw [Bytes.beforeNul_of_not_mem hkey]
    exact (Bytes.beforeNul_append_nul hkey m.plural).symm
  have hsome := (Draft.isSome_lookup_image hfit m.key).2 ⟨m.record, h.stored, hquery.symm⟩
  obtain ⟨target, htarget⟩ := Option.isSome_iff_exists.1 hsome
  obtain ⟨r, hr, hrkey, rfl⟩ := Draft.lookup_image_eq_some hfit htarget
  have hsource : r.1 = m.record.1 := h.alone r hr (hrkey.trans hquery)
  rw [htarget, d.ascending.eq_of_source_eq hr h.stored hsource]

/-! ## In a session -/

/-- The form that a rule selects, as text. -/
theorem decode?_select (hm : m.IsUncut) (hne : m.forms ≠ []) (rule : Plural.Rule) (n : Int32)
    (fallback : String) :
    (Session.decode? (rule.select n m.record.2)).getD fallback =
      m.shown (rule.index n) fallback := by
  have hfree : ∀ form ∈ m.forms.map Utf8.encode, 0 ∉ form := by
    intro form hform
    obtain ⟨text, htext, rfl⟩ := List.mem_map.1 hform
    exact Utf8.zero_not_mem_encode (hm.forms text htext)
  have hmax : (max 0 (rule.index n).toInt).toNat = (rule.index n).toInt.toNat := by omega
  have hpick : rule.select n m.record.2 =
      ((m.forms.map Utf8.encode)[(rule.index n).toInt.toNat]?).getD [] :=
    Plural.pick_join (mt List.map_eq_nil_iff.1 hne) hfree _
  rw [hpick, List.getElem?_map, shown, hmax]
  cases m.forms[(rule.index n).toInt.toNat]? with
  | none => rfl
  | some form =>
      by_cases hform : form = ""
      · subst hform
        rfl
      · have hencode : (Utf8.encode form).isEmpty = false := by
          rw [List.isEmpty_eq_false_iff]
          exact mt Utf8.encode_eq_nil_iff.1 hform
        simp [Session.decode?, hencode, Utf8.lossy_encode, hform]

/-- What a session says for a message that its catalog has. -/
theorem ask_of_lookup (hm : m.IsUncut) (hne : m.forms ≠ []) {s : Session} {c : Catalog}
    (hactive : s.active = some c) (hlookup : c.lookup m.key = some m.record.2) (plural : String)
    (n : Int32) :
    m.ask s plural n = m.shown (c.rule.index n) (if n = 1 then m.id else plural) := by
  have hask : m.ask s plural n =
      s.translate (fun c => (c.lookup m.key).map (c.select n))
        (Session.untranslated m.id plural n) := by
    unfold ask Po.Pair.key
    cases m.context <;> rfl
  rw [hask, Session.translate, hactive, Option.bind_some, hlookup, Option.map_some,
    Option.bind_some]
  exact decode?_select hm hne c.rule n _

/-- **A plural message comes back.** If a message is alone under its key in a draft, then the file
of the draft can be loaded, and with that catalog active a session shows for every number the form
that the plural rule chooses, whatever the byte order and with or without a hash table. If there is
no such form, or an empty one, it shows the singular for the number one and for all others the
plural that it is asked with. -/
theorem ask_of_isAloneIn (hm : m.IsUncut) (hne : m.forms ≠ []) (halone : m.IsAloneIn d)
    (hfit : d.write.length < 2 ^ 32) {options : LoadOptions}
    (hmax : d.write.length ≤ options.maxSize) (name : String) :
    ∃ c, (Catalog.ofBytes d.write name options).value = .ok c ∧
      ∀ s : Session, s.active = some c → ∀ (plural : String) (n : Int32),
        m.ask s plural n = m.shown (c.rule.index n) (if n = 1 then m.id else plural) := by
  have hmessages : d.messages ≠ [] := List.ne_nil_of_mem halone.stored
  exact ⟨_, Draft.ofBytes_write hmessages hfit hmax name, fun s hactive =>
    ask_of_lookup hm hne hactive (halone.lookup_image hm hfit)⟩

/-- A message whose second form is missing in its translation. -/
def files : PluralMessage := ⟨⟨some "menu", "file"⟩, Utf8.encode "files", ["Datei", ""]⟩

/-- The message between others, one with the same key but for the context. -/
def menu : Draft :=
  (files.addTo ((Draft.empty.withOrder .big).add (Utf8.encode "file") (Utf8.encode "Akte"))).add
    (Utf8.encode "quit") (Utf8.encode "Beenden")

theorem ask_of_isAloneIn_files :
    files.IsUncut ∧ files.forms ≠ [] ∧ files.IsAloneIn menu ∧ menu.write.length < 2 ^ 32 ∧
      menu.write.length ≤ ({} : LoadOptions).maxSize ∧
      ∃ c, (Catalog.ofBytes menu.write "menu" {}).value = .ok c ∧
        files.ask (Session.empty.install c) "files" 1 = "Datei" ∧
        files.ask (Session.empty.install c) "files" 2 = "files" := by
  have huncut : files.IsUncut := ⟨by decide, by decide, by decide⟩
  have hne : files.forms ≠ [] := by decide
  have halone : files.IsAloneIn menu :=
    (isAloneIn_addTo (by decide +kernel)).add (by decide +kernel)
  have hfit : menu.write.length < 2 ^ 32 := by decide +kernel
  have hmax : menu.write.length ≤ ({} : LoadOptions).maxSize := by decide +kernel
  have hrule : (Catalog.ofBytes menu.write "menu" {}).value.map Catalog.rule =
      .ok Plural.Rule.default := by decide +kernel
  obtain ⟨c, hc, hask⟩ := ask_of_isAloneIn huncut hne halone hfit hmax "menu"
  rw [hc] at hrule
  have hdefault : c.rule = Plural.Rule.default := Except.ok.inj hrule
  refine ⟨huncut, hne, halone, hfit, hmax, c, hc, ?_, ?_⟩
  · rw [hask (Session.empty.install c) rfl, hdefault]
    decide +kernel
  · rw [hask (Session.empty.install c) rfl, hdefault]
    decide +kernel

end PluralMessage

end MessageCatalog
