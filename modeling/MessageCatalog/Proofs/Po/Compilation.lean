import MessageCatalog.Po.Compile
import MessageCatalog.Proofs.Draft.Insertion
import MessageCatalog.Proofs.Po.Sources

set_option autoImplicit false

/-! # What compiling stores

Compiling turns each message into a record, or leaves it out (`Message.record?`), and inserts the
records into the draft one after another (`compile_value_iff`), the metadata under the empty source.
-/

namespace MessageCatalog

namespace Po

/-! ## Records of messages -/

namespace Message

/-- The message goes in under its own key. -/
def isTaken (options : CompileOptions) (m : Message) : Bool :=
  !m.isHeader && !m.isUntranslated && !(m.isFuzzy && !options.useFuzzy)

/-- The context and the key of a message. -/
def pair (m : Message) : Pair := ⟨m.context.map joined, joined m.id⟩

/-- The plural of a message as one text. -/
def pluralText (m : Message) : Option String := m.plural.map joined

/-- The source that a message is stored with. -/
def storedSource (m : Message) : Bytes := sourceOf m.pair m.pluralText

/-- The target that a message is stored with. -/
def storedTarget (m : Message) : Bytes :=
  if m.plural.isSome then Separated.join 0 m.storedForms else m.storedForms.headD []

/-- What is stored for a message, if anything is. -/
def record? (options : CompileOptions) (m : Message) : Option Record :=
  if m.isHeader then some ([], m.storedForms.flatten)
  else if m.isTaken options then some (m.storedSource, m.storedTarget)
  else none

end Message

theorem Message.storedKey_eq (m : Message) : m.storedKey = m.pair.key := by
  unfold storedKey pair Pair.key
  cases m.context <;> rfl

namespace Compilation

variable (options : CompileOptions)

theorem store_eq (d : Draft) (m : Message) : store d m = d.add m.storedSource m.storedTarget := by
  unfold store Message.storedSource Message.storedTarget Message.pluralText
  rw [Message.storedKey_eq]
  cases m.plural with
  | none => rw [Option.map_none, sourceOf_none]; rfl
  | some plural => rfl

/-- One message adds its record, if it has one. -/
theorem step_value (c : Compilation) (m : Message) :
    (step options c m).value.draft =
      (m.record? options).elim c.draft fun r => c.draft.add r.1 r.2 := by
  unfold step Message.record? Message.isTaken
  cases m.isHeader with
  | true => rfl
  | false =>
      cases m.isUntranslated with
      | true => rfl
      | false =>
          cases m.isFuzzy && !options.useFuzzy with
          | true => rfl
          | false =>
              -- The remark on a duplicate has no part in the value.
              cases c.seen.contains m.storedKey <;> exact store_eq c.draft m

theorem run_value (c : Compilation) (messages : List Message) :
    (run options c messages).value.draft =
      (messages.filterMap (Message.record? options)).foldl (fun d r => d.add r.1 r.2) c.draft := by
  induction messages generalizing c with
  | nil => rfl
  | cons m rest ih =>
      have hrun : (run options c (m :: rest)).value =
          (run options (step options c m).value rest).value := rfl
      rw [hrun, ih, step_value]
      cases hr : m.record? options with
      | none => rw [List.filterMap_cons_none hr]; rfl
      | some r => rw [List.filterMap_cons_some hr]; rfl

end Compilation

/-- The draft that the messages of a text are compiled to. -/
def draftOf (options : CompileOptions) (messages : List Message) : Draft :=
  (messages.filterMap (Message.record? options)).foldl (fun d r => d.add r.1 r.2)
    (Compilation.start options).draft

theorem messages_draftOf (options : CompileOptions) (messages : List Message) :
    (draftOf options messages).messages =
      insertAll (messages.filterMap (Message.record? options)) := (Draft.foldl_add _ _).1

theorem hashed_draftOf (options : CompileOptions) (messages : List Message) :
    (draftOf options messages).hashed = options.hashed := (Draft.foldl_add _ _).2.1

theorem order_draftOf (options : CompileOptions) (messages : List Message) :
    (draftOf options messages).order = options.order := (Draft.foldl_add _ _).2.2

/-- **What compiling gives**: the draft of the messages, if the text is read to its end. -/
theorem compile_value_iff {text : String} {options : CompileOptions} {d : Draft} :
    (∃ tally, (compile text options).value = .ok (d, tally)) ↔
      (read text).2 = none ∧ draftOf options (read text).1 = d := by
  have hrun := Compilation.run_value options (.start options) (read text).1
  unfold compile
  rw [Logged.value_bind]
  cases (read text).2 with
  | some e =>
      constructor
      · rintro ⟨tally, h⟩
        cases h
      · rintro ⟨h, -⟩
        cases h
  | none =>
      constructor
      · rintro ⟨tally, h⟩
        cases h
        exact ⟨rfl, hrun.symm⟩
      · rintro ⟨-, rfl⟩
        exact ⟨_, congrArg (fun d => Except.ok (d, _)) hrun⟩

end Po

end MessageCatalog
