import MessageCatalog.Po.Entry
import MessageCatalog.Proofs.Po.Grammar
import MessageCatalog.Proofs.Po.Scanning

set_option autoImplicit false

/-! # Reading a listing

Entries shown in PO syntax are PO text again: the scanner reads their keywords and literals off
the lines, and the reader puts them together to one message for each entry (`read_listing`). All
texts have to be writable, and the entry has to have a target for each of its lines.
-/

namespace MessageCatalog.Po

/-! ## Literals of a text -/

/-- The literals that a text is written as: one for each line, with an empty one in front if there
are several, and an empty one if there are none. -/
def literals (text : String) : List String :=
  match Text.lines text.toList with
  | [] => [""]
  | [line] => [String.ofList line]
  | several => "" :: several.map String.ofList

theorem literals_ne_nil (text : String) : literals text ≠ [] := by
  unfold literals
  split <;> simp

theorem flatMap_map_ofList {α : Type} (f : List Char → List α) (lines : List (List Char)) :
    (lines.map String.ofList).flatMap (fun line => f line.toList) = lines.flatMap f := by
  rw [List.flatMap_map]
  simp only [String.toList_ofList]

theorem joined_literals (text : String) : joined (literals text) = text := by
  have hlines := Text.flatten_lines text.toList
  rw [← String.toList_inj, toList_joined]
  unfold literals
  split
  · next h => rw [← hlines, h]; rfl
  · next line h => rw [← hlines, h, List.flatMap_singleton, String.toList_ofList]; simp
  · have h := flatMap_map_ofList id (Text.lines text.toList)
    rw [List.flatMap_id, hlines] at h
    rw [List.flatMap_cons]
    exact h

/-- The lines that a keyword and its text are written as. -/
theorem keywordLines_eq (keyword text : String) :
    keywordLines keyword text =
      (keyword.toList ++ [' ']) ++
        (literals text).flatMap fun line => literal line.toList ++ ['\n'] := by
  unfold keywordLines literals
  rw [List.append_assoc, List.singleton_append]
  rcases Text.lines text.toList with _ | ⟨line, _ | ⟨next, more⟩⟩
  · rfl
  · simp
  · have h := flatMap_map_ofList (fun line => literal line ++ ['\n']) (line :: next :: more)
    simp only [List.map_cons, List.flatMap_cons] at h ⊢
    rw [h]
    simp [List.flatMap_def]

/-- All characters of the text are writable. -/
def Writable (text : String) : Prop := ∀ c ∈ text.toList, IsWritable c

instance : DecidablePred Writable := fun text => List.decidableBAll IsWritable text.toList

theorem Writable.of_mem_literals {text line : String} (h : Writable text)
    (hline : line ∈ literals text) : Writable line := by
  intro c hc
  refine h c ?_
  rw [← joined_literals text, toList_joined]
  exact List.mem_flatMap.2 ⟨line, hline, hc⟩

theorem spells_keywordLines {keyword text : String} {l : Lexeme}
    (hkeyword : Spells (keyword.toList ++ [' ']) [l]) (htext : Writable text) :
    Spells (keywordLines keyword text) (said l (literals text)) := by
  rw [keywordLines_eq, said, ← List.singleton_append, ← List.flatMap_singleton' (List.map _ _),
    List.flatMap_map]
  refine hkeyword.append (spells_flatMap fun line hline => ?_)
  have hspells := spells_literal (htext.of_mem_literals hline)
  rwa [String.ofList_toList] at hspells

/-! ## Entries -/

namespace Entry

/-- The message that an entry is shown as. -/
def message (e : Entry) : Message where
  translatorComments := []
  automaticComments := []
  references := []
  flagLines := []
  context := e.context.map literals
  id := literals e.id
  plural := e.plural.map literals
  targets := e.targets.map literals

/-- An entry that can be shown and read again: its texts are writable, and there is one target, or
at least one form and no more than can be numbered. -/
structure IsListable (e : Entry) : Prop where
  context : ∀ text ∈ e.context, Writable text
  id : Writable e.id
  plural : ∀ text ∈ e.plural, Writable text
  targets : ∀ text ∈ e.targets, Writable text
  forms : if e.plural.isSome then e.targets ≠ [] else ∃ target, e.targets = [target]
  count : e.targets.length < UInt64.size

variable {e : Entry}

theorem isPlain_message (he : e.IsListable) : e.message.IsPlain := by
  have hsome : ∀ text : Option String, text.map literals ≠ some [] := by
    intro text h
    obtain ⟨text, -, hliterals⟩ := Option.map_eq_some_iff.1 h
    exact literals_ne_nil text hliterals
  refine ⟨rfl, rfl, rfl, rfl, hsome _, literals_ne_nil _, hsome _, ?_, ?_⟩
  · intro h
    obtain ⟨text, -, hliterals⟩ := List.mem_map.1 h
    exact literals_ne_nil text hliterals
  · have hforms := he.forms
    show if (e.plural.map literals).isSome then e.targets.map literals ≠ [] else _
    rw [Option.isSome_map]
    split
    · next hplural =>
        rw [if_pos hplural] at hforms
        exact fun h => hforms (List.map_eq_nil_iff.1 h)
    · next hplural =>
        rw [if_neg hplural] at hforms
        obtain ⟨target, htarget⟩ := hforms
        exact ⟨literals target, congrArg (List.map literals) htarget⟩

theorem spells_formLines {forms : List String} (hforms : ∀ text ∈ forms, Writable text)
    {index : Nat} (hcount : index + forms.length ≤ UInt64.size) :
    Spells (formLines index forms) (formLexemes index (forms.map literals)) := by
  induction forms generalizing index with
  | nil => exact spells_nil
  | cons form rest ih =>
      obtain ⟨hform, hrest⟩ := List.forall_mem_cons.1 hforms
      rw [List.length_cons] at hcount
      have hindex : index < UInt64.size := by omega
      exact (spells_keywordLines (spells_formKeyword hindex) hform).append (ih hrest (by omega))

theorem spells_optional {keyword : String} {l : Lexeme}
    (hkeyword : Spells (keyword.toList ++ [' ']) [l]) {text : Option String}
    (htext : ∀ t ∈ text, Writable t) :
    Spells (text.elim [] (keywordLines keyword)) ((text.map literals).elim [] (said l)) := by
  cases text with
  | none => exact spells_nil
  | some text => exact spells_keywordLines hkeyword (htext text rfl)

theorem toList_toPo (he : e.IsListable) :
    e.toPo.toList =
      e.context.elim [] (keywordLines "msgctxt") ++ (keywordLines "msgid" e.id ++
        (e.plural.elim [] (keywordLines "msgid_plural") ++
          if e.plural.isSome then formLines 0 e.targets
          else e.targets.flatMap (keywordLines "msgstr"))) := by
  have hforms := he.forms
  unfold toPo
  rw [String.toList_ofList, List.append_assoc]
  congr 1
  · cases e.context <;> rfl
  · congr 1
    cases hplural : e.plural with
    | some plural => rfl
    | none =>
        rw [hplural] at hforms
        obtain ⟨target, htarget⟩ := hforms
        rw [htarget]
        simp

/-- An entry in PO syntax spells its message. -/
theorem spells_toPo (he : e.IsListable) : Spells e.toPo.toList e.message.lexemes := by
  rw [toList_toPo he, Message.lexemes]
  refine (spells_optional (spells_keyword rfl) he.context).append
    ((spells_keywordLines (spells_keyword rfl) he.id).append
      ((spells_optional (spells_keyword rfl) he.plural).append ?_))
  have hplural : e.message.plural.isSome = e.plural.isSome := Option.isSome_map
  rw [Message.targetLexemes, hplural]
  split
  · exact spells_formLines he.targets (by have := he.count; omega)
  · show Spells _ ((e.targets.map literals).flatMap _)
    rw [List.flatMap_map]
    exact spells_flatMap fun text htext =>
      spells_keywordLines (spells_keyword rfl) (he.targets text htext)

end Entry

/-! ## Listings -/

theorem spells_listing {entries : List Entry} (hall : ∀ e ∈ entries, e.IsListable) :
    Spells (listing entries).toList ((entries.map Entry.message).flatMap Message.lexemes) := by
  induction entries with
  | nil => exact spells_nil
  | cons e rest ih =>
      obtain ⟨he, hrest⟩ := List.forall_mem_cons.1 hall
      cases rest with
      | nil =>
          have hone : listing [e] = e.toPo := String.intercalate_singleton
          rw [hone, List.map_singleton, List.flatMap_singleton]
          exact Entry.spells_toPo he
      | cons next more =>
          have hcons : (listing (e :: next :: more)).toList =
              e.toPo.toList ++ (['\n'] ++ (listing (next :: more)).toList) := by
            unfold listing
            rw [List.map_cons, List.map_cons, String.intercalate_cons_cons, String.toList_append,
              String.toList_append, List.append_assoc]
            rfl
          rw [hcons]
          exact (Entry.spells_toPo he).append ((spells_space rfl).append (ih hrest))

theorem scan_of_spells {text : String} {ls : List Lexeme} (h : Spells text.toList ls) :
    (Reading.ofText text).Says ls := by
  have hplaced : (Text.positions text.toList).map Prod.snd = text.toList ++ [] := by
    rw [Text.positions, Text.map_snd_positionsFrom, List.append_nil]
  obtain ⟨tokens, chars', hnil, htokens, hscan⟩ := h _ _ hplaced
  obtain rfl := List.map_eq_nil_iff.1 hnil
  have hdone : scanFrom [] = ([], none) := scanFrom_eq []
  rw [hdone, List.append_nil] at hscan
  unfold Reading.ofText scan
  rw [hscan]
  exact ⟨rfl, htokens⟩

/-- **What was listed is read**: one message for each entry, and no error. -/
theorem read_listing {entries : List Entry} (hall : ∀ e ∈ entries, e.IsListable) :
    read (listing entries) = (entries.map Entry.message, none) :=
  messages_of_says (fun m hm => by
    obtain ⟨e, he, rfl⟩ := List.mem_map.1 hm
    exact Entry.isPlain_message (hall e he)) (scan_of_spells (spells_listing hall))

end MessageCatalog.Po
