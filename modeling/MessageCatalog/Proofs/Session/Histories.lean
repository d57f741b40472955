import MessageCatalog.Draft
import MessageCatalog.Session

set_option autoImplicit false

/-! # The active catalog over time

A program installs, loads and unloads catalogs as it likes. Which catalog is active afterwards is
decided by the last of these operations alone, as if nothing had come before it: it is the catalog
that this operation installs or loads, and there is none after an unload or a failed load
(`active_run`). A catalog that was taken from the session stays what it was, whatever becomes of
the session later.

There is an afterwards unless an overflow ends the program on the way. `Operation.Fits` says for
which operations none does, and with these a history only does what `Program.after` says of each of
its steps (`value_run_of_fits`).
-/

namespace MessageCatalog.Session

/-! ## Operations -/

/-- What a program does about the active catalog. To load a catalog and be told no more than whether
that worked is a `load` or `loadFile` with the default options. -/
inductive Operation
  | install (c : Catalog)
  | unload
  | load (stream : ByteStream) (name : String) (options : LoadOptions)
  | loadFile (file : Except ReadFailure ByteStream) (path : String) (options : LoadOptions)

namespace Operation

/-- The session after an operation. -/
def perform (s : Session) : Operation → Checked Session
  | install c => pure (s.install c)
  | unload => liftM s.unload
  | load stream name options => do
      let (_, s) ← s.load stream name options
      pure s
  | loadFile file path options => do
      let (_, s) ← s.loadFile file path options
      pure s

/-- What the loader says to the data of a load, looked at on its own. -/
def result? : Operation → Option (Except LoadError Catalog)
  | install _ => none
  | unload => none
  | load stream name options => (Catalog.load stream name options).value.toOption
  | loadFile file path options => (Catalog.ofFile file path options).value.toOption

/-- The catalog that an operation brings: the installed one, or one that the loader accepts. -/
def catalog? : Operation → Option Catalog
  | install c => some c
  | op => op.result?.bind Except.toOption

/-- No overflow ends the program: if bytes are read from a stream, then a word can hold the largest
accepted size and one more. -/
def Fits : Operation → Prop
  | install _ => True
  | unload => True
  | load _ _ options => options.maxSize + 1 < UInt64.size
  | loadFile file _ options => file.isOk → options.maxSize + 1 < UInt64.size

end Operation

theorem value_unload (s : Session) : s.unload.value = empty := by
  unfold unload
  cases s.active <;> rfl

/-- After a load the session is what the result of the load calls for. -/
theorem value_finish (s : Session) (name : String) (result : Except LoadError Catalog) :
    (s.finish name result).value = ⟨result.toOption⟩ := by
  cases result with
  | ok c => rfl
  | error e => exact value_unload s

section
variable {loading : Checked (Except LoadError Catalog)}

/-- A load has its result, and leaves active the catalog that it loaded. -/
theorem value_after {result : Except LoadError Catalog} (h : loading.value = .ok result)
    (s : Session) (name : String) :
    (s.after name loading).value = .ok (result, ⟨result.toOption⟩) := by
  rw [after, Checked.value_bind_of_ok h, ← value_finish s name result]
  rfl

end

/-- The loader has a result for a file that cannot be opened, and for any other if a word can hold
the number of bytes to ask for. -/
theorem exists_value_ofFile {file : Except ReadFailure ByteStream} {options : LoadOptions}
    (h : file.isOk → options.maxSize + 1 < UInt64.size) (path : String) :
    ∃ result, (Catalog.ofFile file path options).value = .ok result := by
  cases file with
  | error f => exact ⟨_, rfl⟩
  | ok stream => exact ⟨_, Catalog.value_load_of_lt (h rfl) stream path⟩

/-- An operation leaves active what it brings, whatever was active before. -/
theorem value_perform_of_fits {op : Operation} (h : op.Fits) (s : Session) :
    (op.perform s).value = .ok ⟨op.catalog?⟩ := by
  cases op with
  | install c => rfl
  | unload => exact congrArg Except.ok (value_unload s)
  | load stream name options =>
      have hresult := Catalog.value_load_of_lt h stream name
      rw [Operation.perform, Session.load, Checked.value_bind_of_ok (value_after hresult s name),
        Operation.catalog?, Operation.result?, hresult]
      · rfl
      · exact nofun
  | loadFile file path options =>
      obtain ⟨result, hresult⟩ := exists_value_ofFile h path
      rw [Operation.perform, Session.loadFile,
        Checked.value_bind_of_ok (value_after hresult s path), Operation.catalog?,
        Operation.result?, hresult]
      · rfl
      · exact nofun

/-- A load brings what the loader accepts, and nothing if it fails. -/
theorem catalog?_of_result? {op : Operation} {result : Except LoadError Catalog}
    (h : op.result? = some result) : op.catalog? = result.toOption := by
  cases op with
  | install c => cases h
  | _ => exact congrArg (Option.bind · Except.toOption) h

/-! ## Questions -/

/-- What a program asks a session. -/
inductive Question
  | text (message : String)
  | textIn (context message : String)
  | plural (singular plural : String) (n : Int32)
  | pluralIn (context singular plural : String) (n : Int32)
  | credits

/-- What a session says to a question. -/
def answer (s : Session) : Question → String
  | .text message => s.text message
  | .textIn context message => s.textIn context message
  | .plural singular plural n => s.plural singular plural n
  | .pluralIn context singular plural n => s.pluralIn context singular plural n
  | .credits => s.credits

/-! ## Programs -/

/-- A program: its session, and the catalogs that it took from the session and still holds, oldest
first. -/
structure Program where
  session : Session := {}
  held : List Catalog := []

/-- A step of a program: an operation, or taking the active catalog, if there is one, to hold it. -/
inductive Step
  | operate (op : Operation)
  | hold

/-- No overflow ends the program at a step. -/
def Step.Fits : Step → Prop
  | operate op => op.Fits
  | hold => True

namespace Program

/-- The program after a step. -/
def step (p : Program) : Step → Checked Program
  | .operate op => do
      let s ← op.perform p.session
      pure { p with session := s }
  | .hold => pure { p with held := p.held ++ p.session.active.toList }

/-- The program after a history. -/
def run (p : Program) (history : List Step) : Checked Program := history.foldlM step p

/-- The program after a step that no overflow ends. -/
def after (p : Program) : Step → Program
  | .operate op => { p with session := ⟨op.catalog?⟩ }
  | .hold => { p with held := p.held ++ p.session.active.toList }

/-- The file of a catalog in which one message has the given target. -/
def fileOf (target : String) : Bytes :=
  (Draft.empty.add (Utf8.encode "yes") (Utf8.encode target)).write

end Program

end MessageCatalog.Session
