import MessageCatalog.Interface
import MessageCatalog.Proofs.Session.Histories
import MessageCatalog.Proofs.Text.WellFormed

set_option autoImplicit false

/-! # Calls from C and the session behind them

A program in C makes one call after another. `IsAnswered` says what each of them is to reply and to
leave behind, in terms of what the same request does to a session directly: a call with a bad
argument does nothing, a load does to the session what `Session.Operation.perform` does and reports
the result of the loader, and a question is answered by the active catalog and changes nothing.
`isAnswered_serve` is that for every call in every sequence of calls. No overflow ends such a
sequence, since loads are made with the options of the interface (`Request.Means.fits`).
-/

namespace MessageCatalog.Interface

open Session (Operation)

/-! ## Arguments -/

namespace Argument

/-- The bytes that an argument stands for. -/
def value : Argument → Bytes
  | bytes value => value
  | null _ => []

/-- Only a null pointer that should have bytes has none. -/
theorem read?_eq_none_iff {a : Argument} : a.read? = none ↔ ∃ n, 0 < n ∧ a = .null n := by
  cases a with
  | bytes value => simp [read?]
  | null length =>
      cases length with
      | zero =>
          constructor
          · intro h
            cases h
          · rintro ⟨n, hn, h⟩
            cases h
            cases hn
      | succ length => exact ⟨fun _ => ⟨_, Nat.succ_pos length, rfl⟩, fun _ => rfl⟩

theorem read?_eq_some {a : Argument} {b : Bytes} (h : a.read? = some b) : b = a.value := by
  cases a with
  | bytes value => exact (Option.some.inj h).symm
  | null length =>
      cases length with
      | zero => exact (Option.some.inj h).symm
      | succ length => cases h

end Argument

/-! ## Calls -/

namespace Call

/-- The arguments that a call gets as a pointer and a length. -/
def arguments : Call → List Argument
  | loadMemory data name => [data, name]
  | loadFile path => [path]
  | unload => []
  | isLoaded => []
  | lookup message => [message]
  | pick _ forms => [forms]
  | credits => []

/-- A bad argument: a null pointer that should have bytes, or a path that is not UTF-8. -/
def IsInvalid (call : Call) : Prop :=
  (∃ n, 0 < n ∧ .null n ∈ call.arguments) ∨
    ∃ path, call = .loadFile path ∧ ∀ text, Utf8.encode text ≠ path.value

/-- The call loads a catalog. -/
def isLoad : Call → Bool
  | loadMemory _ _ => true
  | loadFile _ => true
  | _ => false

/-- The call asks the active catalog something. -/
def isQuestion : Call → Bool
  | lookup _ => true
  | pick _ _ => true
  | credits => true
  | _ => false

/-- The call has somewhere to write a value to. -/
def hasOutput (call : Call) : Bool := call.isQuestion || call == .isLoaded

theorem isInvalid_iff (call : Call) (h : ∀ path, call ≠ .loadFile path) :
    call.IsInvalid ↔ ∃ a ∈ call.arguments, a.read? = none := by
  constructor
  · rintro (⟨n, hn, hmem⟩ | ⟨path, hpath, -⟩)
    · exact ⟨_, hmem, Argument.read?_eq_none_iff.2 ⟨n, hn, rfl⟩⟩
    · exact absurd hpath (h path)
  · rintro ⟨a, hmem, ha⟩
    obtain ⟨n, hn, rfl⟩ := Argument.read?_eq_none_iff.1 ha
    exact .inl ⟨n, hn, hmem⟩

/-- The arguments of a good call can be read. -/
theorem read?_ne_none {call : Call} {a : Argument} (hvalid : ¬ call.IsInvalid)
    (h : ∀ path, call ≠ .loadFile path) (hmem : a ∈ call.arguments) : a.read? ≠ none :=
  fun ha => hvalid ((isInvalid_iff call h).2 ⟨a, hmem, ha⟩)

theorem isInvalid_loadFile_iff {path : Argument} :
    (loadFile path).IsInvalid ↔ path.read?.bind Utf8.text? = none := by
  constructor
  · rintro (⟨n, hn, hmem⟩ | ⟨_, h, htext⟩)
    · obtain rfl := List.mem_singleton.1 hmem
      rw [Argument.read?_eq_none_iff.2 ⟨n, hn, rfl⟩]
      rfl
    · cases h
      rw [Option.eq_none_iff_forall_ne_some]
      intro text h
      obtain ⟨b, hb, hb'⟩ := Option.bind_eq_some_iff.1 h
      obtain rfl := Argument.read?_eq_some hb
      exact htext text (Utf8.text?_eq_some_iff.1 hb')
  · intro h
    cases hread : path.read? with
    | none =>
        obtain ⟨n, hn, rfl⟩ := Argument.read?_eq_none_iff.1 hread
        exact .inl ⟨n, hn, List.mem_singleton_self _⟩
    | some b =>
        rw [hread] at h
        obtain rfl := Argument.read?_eq_some hread
        refine .inr ⟨path, rfl, fun text htext => ?_⟩
        rw [← Utf8.text?_eq_some_iff] at htext
        cases htext.symm.trans h

end Call

/-! ## What a call is to do -/

/-- A call, and what opening a file leads to while it is made. -/
structure Request where
  file : String → Except ReadFailure ByteStream
  call : Call

/-- What a request does to a session if its arguments are good. -/
inductive Request.Means : Request → Operation → Prop
  | loadMemory (file : String → Except ReadFailure ByteStream) (data name : Argument) :
      Means ⟨file, .loadMemory data name⟩ (.load (.ofBytes data.value) (Utf8.lossy name.value) {})
  | loadFile (file : String → Except ReadFailure ByteStream) {path : Argument} {text : String}
      (h : Utf8.encode text = path.value) :
      Means ⟨file, .loadFile path⟩ (.loadFile (file text) text {})
  | unload (file : String → Except ReadFailure ByteStream) : Means ⟨file, .unload⟩ .unload

/-- Loads ask for a number of bytes that a word can hold. -/
theorem Request.Means.fits {r : Request} {op : Operation} (h : r.Means op) : op.Fits := by
  cases h with
  | loadMemory file data name => exact Catalog.maxSize_default_lt
  | loadFile file h => exact fun _ => Catalog.maxSize_default_lt
  | unload file => trivial

/-- The reply to a request in one session, and the session after it. -/
structure IsAnswered (r : Request) (s : Session) (reply : Reply) (s' : Session) : Prop where
  invalid : r.call.IsInvalid → reply = { status := .invalidArgument } ∧ s' = s
  /-- A load does what it does to a session directly, and reports what the loader says. -/
  load : r.call.isLoad → ¬ r.call.IsInvalid →
    ∃ op result, r.Means op ∧ (op.perform s).value = .ok s' ∧ op.result? = some result ∧
      s'.active = result.toOption ∧
      reply = { status := match result with
        | .ok _ => .ok
        | .error .notFound => .notFound
        | .error (.corrupt _) => .corrupt
        | .error (.unreadable _) => .unreadable }
  unload : r.call = .unload → reply = { status := .ok } ∧ s'.active = none
  isLoaded : r.call = .isLoaded →
    reply = { status := .ok, value := some (.flag s.active.isSome) }
  notLoaded : r.call.isQuestion → ¬ r.call.IsInvalid →
    (reply.status = .notLoaded ↔ s.active = none)
  lookup : ∀ message c, r.call = .lookup message → ¬ r.call.IsInvalid → s.active = some c →
    reply = match c.lookup message.value with
      | some target => { status := .ok, value := some (.bytes target) }
      | none => { status := .notFound }
  pick : ∀ n forms c, r.call = .pick n forms → ¬ r.call.IsInvalid → s.active = some c →
    reply = { status := .ok, value := some (.bytes (c.select n forms.value)) }
  credits : ∀ c, r.call = .credits → s.active = some c →
    reply = { status := .ok, value := some (.bytes c.credits) }
  written : reply.value.isSome ↔ r.call.hasOutput ∧ reply.status = .ok
  kept : r.call.hasOutput → s' = s

/-! ## One call -/

section
variable {file : String → Except ReadFailure ByteStream} {s s' : Session} {call : Call}
  {reply : Reply}

/-- A question with a bad argument is not asked. -/
theorem ask_of_none {argument : Argument} (h : argument.read? = none)
    (question : Catalog → Bytes → Reply) :
    ask s argument question = { status := .invalidArgument } := by
  rw [ask, h]

/-- A good question needs a catalog that can answer it. -/
theorem ask_of_some {argument : Argument} (h : argument.read? ≠ none)
    (question : Catalog → Bytes → Reply) :
    ask s argument question =
      match s.active with
      | none => { status := .notLoaded }
      | some c => question c argument.value := by
  obtain ⟨b, hb⟩ := Option.ne_none_iff_exists'.1 h
  rw [ask, hb, Argument.read?_eq_some hb]
  cases s.active <;> rfl

/-- With a bad argument no call does anything. -/
theorem perform_of_isInvalid (h : call.IsInvalid) :
    (perform file s call).value = .ok ({ status := .invalidArgument }, s) := by
  by_cases hfile : ∃ path, call = .loadFile path
  · obtain ⟨path, rfl⟩ := hfile
    rw [Call.isInvalid_loadFile_iff] at h
    rw [perform, h]
    rfl
  · obtain ⟨a, hmem, ha⟩ := (Call.isInvalid_iff call (not_exists.1 hfile)).1 h
    cases call with
    | loadMemory data name =>
        obtain rfl | hmem := List.mem_cons.1 hmem
        · rw [perform, ha]
          rfl
        · obtain rfl := List.mem_singleton.1 hmem
          rw [perform, ha]
          cases data.read? <;> rfl
    | loadFile path => exact absurd ⟨path, rfl⟩ hfile
    | lookup message =>
        obtain rfl := List.mem_singleton.1 hmem
        rw [perform, ask_of_none ha]
        rfl
    | pick n forms =>
        obtain rfl := List.mem_singleton.1 hmem
        rw [perform, ask_of_none ha]
        rfl
    | unload => cases hmem
    | isLoaded => cases hmem
    | credits => cases hmem

/-- The status of a load says how the loader answered. -/
theorem ofLoad_eq (result : Except LoadError Catalog) :
    Status.ofLoad result = match result with
      | .ok _ => .ok
      | .error .notFound => .notFound
      | .error (.corrupt _) => .corrupt
      | .error (.unreadable _) => .unreadable := by
  cases result with
  | ok c => rfl
  | error e => cases e <;> rfl

/-- A load with good arguments does what the same load does to a session directly. -/
theorem perform_load (hload : call.isLoad) (hvalid : ¬ call.IsInvalid) :
    ∃ op result, Request.Means ⟨file, call⟩ op ∧ op.result? = some result ∧
      (perform file s call).value = .ok ({ status := .ofLoad result }, ⟨result.toOption⟩) := by
  cases call with
  | loadMemory data name =>
      have hread : ∀ a ∈ [data, name], a.read? ≠ none := fun a => Call.read?_ne_none hvalid nofun
      obtain ⟨b, hb⟩ := Option.ne_none_iff_exists'.1 (hread data (by simp))
      obtain ⟨d, hd⟩ := Option.ne_none_iff_exists'.1 (hread name (by simp))
      have hmeans := Request.Means.loadMemory file data name
      have hresult := Catalog.value_load_of_lt hmeans.fits (.ofBytes data.value)
        (Utf8.lossy name.value)
      refine ⟨_, _, hmeans, congrArg Except.toOption hresult, ?_⟩
      rw [perform, hb, hd, Argument.read?_eq_some hb, Argument.read?_eq_some hd]
      exact Checked.value_bind_of_ok (Session.value_after hresult s _) _
  | loadFile path =>
      rw [Call.isInvalid_loadFile_iff] at hvalid
      obtain ⟨text, htext⟩ := Option.ne_none_iff_exists'.1 hvalid
      obtain ⟨b, hb, hb'⟩ := Option.bind_eq_some_iff.1 htext
      obtain rfl := Argument.read?_eq_some hb
      have hmeans := Request.Means.loadFile file (Utf8.text?_eq_some_iff.1 hb')
      obtain ⟨result, hresult⟩ := Session.exists_value_ofFile hmeans.fits text
      refine ⟨_, result, hmeans, congrArg Except.toOption hresult, ?_⟩
      rw [perform, htext]
      exact Checked.value_bind_of_ok (Session.value_after hresult s _) _
  | _ => cases hload

/-- A good question is answered by the active catalog, if there is one. -/
theorem perform_lookup {message : Argument} (hvalid : ¬ (Call.lookup message).IsInvalid)
    (h : (perform file s (.lookup message)).value = .ok (reply, s')) :
    reply = match s.active with
      | none => { status := .notLoaded }
      | some c => replyToLookup (c.lookup message.value) := by
  obtain ⟨rfl, -⟩ := Prod.mk.inj (Except.ok.inj h)
  exact ask_of_some (Call.read?_ne_none hvalid nofun (List.mem_singleton_self _)) _

theorem perform_pick {n : Int32} {forms : Argument} (hvalid : ¬ (Call.pick n forms).IsInvalid)
    (h : (perform file s (.pick n forms)).value = .ok (reply, s')) :
    reply = match s.active with
      | none => { status := .notLoaded }
      | some c => { status := .ok, value := some (.bytes (c.select n forms.value)) } := by
  obtain ⟨rfl, -⟩ := Prod.mk.inj (Except.ok.inj h)
  exact ask_of_some (Call.read?_ne_none hvalid nofun (List.mem_singleton_self _)) _

theorem perform_credits (h : (perform file s .credits).value = .ok (reply, s')) :
    reply = match s.active with
      | none => { status := .notLoaded }
      | some c => { status := .ok, value := some (.bytes c.credits) } := by
  obtain ⟨rfl, -⟩ := Prod.mk.inj (Except.ok.inj h)
  exact ask_of_some (by decide) _

theorem status_replyToLookup_ne (found : Option Bytes) :
    (replyToLookup found).status ≠ .notLoaded := by
  cases found <;> exact nofun

theorem isSome_value_replyToLookup (found : Option Bytes) :
    (replyToLookup found).value.isSome ↔ (replyToLookup found).status = .ok := by
  cases found with
  | none => exact iff_of_false nofun nofun
  | some target => exact iff_of_true rfl rfl

/-- A good question has no answer exactly if there is no catalog to answer it. -/
theorem status_ask_iff {argument : Argument} {question : Catalog → Bytes → Reply}
    (hread : argument.read? ≠ none) (h : ∀ c b, (question c b).status ≠ .notLoaded) :
    (ask s argument question).status = .notLoaded ↔ s.active = none := by
  rw [ask_of_some hread]
  cases s.active with
  | none => exact iff_of_true rfl rfl
  | some c => exact iff_of_false (h c _) nofun

theorem perform_notLoaded_iff (h : (perform file s call).value = .ok (reply, s'))
    (hquestion : call.isQuestion) (hvalid : ¬ call.IsInvalid) :
    reply.status = .notLoaded ↔ s.active = none := by
  have hread : ∀ a ∈ call.arguments, a.read? ≠ none := fun a =>
    Call.read?_ne_none hvalid (by rintro path rfl; cases hquestion)
  cases call with
  | lookup message =>
      obtain ⟨rfl, -⟩ := Prod.mk.inj (Except.ok.inj h)
      exact status_ask_iff (hread message (List.mem_singleton_self _)) fun _ _ =>
        status_replyToLookup_ne _
  | pick n forms =>
      obtain ⟨rfl, -⟩ := Prod.mk.inj (Except.ok.inj h)
      exact status_ask_iff (hread forms (List.mem_singleton_self _)) fun _ _ => nofun
  | credits =>
      obtain ⟨rfl, -⟩ := Prod.mk.inj (Except.ok.inj h)
      exact status_ask_iff (by decide) fun _ _ => nofun
  | _ => cases hquestion

/-- A question writes a value exactly if all is well. -/
theorem isSome_value_ask {argument : Argument} {question : Catalog → Bytes → Reply}
    (h : ∀ c b, (question c b).value.isSome ↔ (question c b).status = .ok) :
    (ask s argument question).value.isSome ↔ (ask s argument question).status = .ok := by
  unfold ask
  cases argument.read? with
  | none => exact iff_of_false nofun nofun
  | some b =>
      cases s.active with
      | none => exact iff_of_false nofun nofun
      | some c => exact h c b

theorem perform_written (h : (perform file s call).value = .ok (reply, s')) :
    reply.value.isSome ↔ call.hasOutput ∧ reply.status = .ok := by
  by_cases hload : call.isLoad
  · -- A load has no value to write, with good arguments or bad.
    have hvalue : reply.value = none := by
      by_cases hinvalid : call.IsInvalid
      · rw [perform_of_isInvalid hinvalid] at h
        cases h
        rfl
      · obtain ⟨op, result, -, -, hvalue⟩ := perform_load hload hinvalid
        rw [hvalue] at h
        cases h
        rfl
    have houtput : ¬ call.hasOutput := by
      cases call with
      | loadMemory data name => exact nofun
      | loadFile path => exact nofun
      | _ => cases hload
    rw [hvalue]
    exact iff_of_false nofun fun h => houtput h.1
  · cases call with
    | loadMemory data name => exact absurd rfl hload
    | loadFile path => exact absurd rfl hload
    | unload =>
        obtain ⟨rfl, -⟩ := Prod.mk.inj (Except.ok.inj h)
        exact iff_of_false nofun fun h => nomatch h.1
    | isLoaded =>
        obtain ⟨rfl, -⟩ := Prod.mk.inj (Except.ok.inj h)
        exact iff_of_true rfl ⟨rfl, rfl⟩
    | lookup message =>
        obtain ⟨rfl, -⟩ := Prod.mk.inj (Except.ok.inj h)
        refine (isSome_value_ask fun c b => ?_).trans (and_iff_right rfl).symm
        exact isSome_value_replyToLookup (c.lookup b)
    | pick n forms =>
        obtain ⟨rfl, -⟩ := Prod.mk.inj (Except.ok.inj h)
        exact (isSome_value_ask fun c b => iff_of_true rfl rfl).trans (and_iff_right rfl).symm
    | credits =>
        obtain ⟨rfl, -⟩ := Prod.mk.inj (Except.ok.inj h)
        exact (isSome_value_ask fun c b => iff_of_true rfl rfl).trans (and_iff_right rfl).symm

/-- A question changes nothing. -/
theorem perform_kept (h : (perform file s call).value = .ok (reply, s')) (hcall : call.hasOutput) :
    s' = s := by
  cases call with
  | loadMemory data name => cases hcall
  | loadFile path => cases hcall
  | unload => cases hcall
  | _ => exact (Prod.mk.inj (Except.ok.inj h)).2.symm

/-- No overflow ends the program at a call. -/
theorem exists_value_perform (file : String → Except ReadFailure ByteStream) (s : Session)
    (call : Call) : ∃ reply s', (perform file s call).value = .ok (reply, s') := by
  by_cases hinvalid : call.IsInvalid
  · exact ⟨_, _, perform_of_isInvalid hinvalid⟩
  · by_cases hload : call.isLoad
    · obtain ⟨op, result, -, -, hvalue⟩ := perform_load hload hinvalid
      exact ⟨_, _, hvalue⟩
    · cases call with
      | loadMemory data name => exact absurd rfl hload
      | loadFile path => exact absurd rfl hload
      | _ => exact ⟨_, _, rfl⟩

end

/-- Every call is answered as it should be. -/
theorem isAnswered_perform {r : Request} {s s' : Session} {reply : Reply}
    (h : (perform r.file s r.call).value = .ok (reply, s')) : IsAnswered r s reply s' where
  invalid := by
    intro hinvalid
    rw [perform_of_isInvalid hinvalid] at h
    cases h
    exact ⟨rfl, rfl⟩
  load := by
    intro hload hvalid
    obtain ⟨op, result, hop, hresult, hvalue⟩ := perform_load hload hvalid
    have hperform := Session.value_perform_of_fits hop.fits s
    rw [Session.catalog?_of_result? hresult] at hperform
    rw [hvalue] at h
    cases h
    refine ⟨op, result, hop, hperform, hresult, rfl, ?_⟩
    rw [ofLoad_eq]
  unload := by
    intro hcall
    rw [hcall] at h
    obtain ⟨rfl, rfl⟩ := Prod.mk.inj (Except.ok.inj h)
    exact ⟨rfl, congrArg Session.active (Session.value_unload s)⟩
  isLoaded := by
    intro hcall
    rw [hcall] at h
    exact (Prod.mk.inj (Except.ok.inj h)).1.symm
  notLoaded := perform_notLoaded_iff h
  lookup := by
    intro message c hcall hvalid hactive
    rw [hcall] at hvalid h
    rw [perform_lookup hvalid h, hactive]
    rfl
  pick := by
    intro n forms c hcall hvalid hactive
    rw [hcall] at hvalid h
    rw [perform_pick hvalid h, hactive]
  credits := by
    intro c hcall hactive
    rw [hcall] at h
    rw [perform_credits h, hactive]
  written := perform_written h
  kept := perform_kept h

/-! ## Many calls -/

/-- Answers requests one after another: the replies, and the session after all of them. -/
def serve (s : Session) : List Request → Checked (List Reply × Session)
  | [] => pure ([], s)
  | r :: rest => do
      let (reply, s) ← perform r.file s r.call
      let (replies, s) ← serve s rest
      pure (reply :: replies, s)

section
variable {s s' s'' : Session} {requests more : List Request} {replies replies' : List Reply}

theorem value_serve_cons {r : Request} {reply : Reply}
    (hfirst : (perform r.file s r.call).value = .ok (reply, s'))
    (hrest : (serve s' requests).value = .ok (replies, s'')) :
    (serve s (r :: requests)).value = .ok (reply :: replies, s'') := by
  rw [serve, Checked.value_bind_of_ok hfirst]
  exact Checked.value_bind_of_ok hrest _

theorem value_serve_append (hfirst : (serve s requests).value = .ok (replies, s'))
    (hmore : (serve s' more).value = .ok (replies', s'')) :
    (serve s (requests ++ more)).value = .ok (replies ++ replies', s'') := by
  induction requests generalizing s replies with
  | nil =>
      obtain ⟨rfl, rfl⟩ := Prod.mk.inj (Except.ok.inj hfirst)
      exact hmore
  | cons r rest ih =>
      obtain ⟨⟨reply, s₁⟩, hr, hthen⟩ := Checked.exists_of_value_bind hfirst
      obtain ⟨⟨replies₁, s₂⟩, hrest, hreplies⟩ := Checked.exists_of_value_bind hthen
      obtain ⟨rfl, rfl⟩ := Prod.mk.inj (Except.ok.inj hreplies)
      exact value_serve_cons hr (ih hrest)

/-- No overflow ends the program at any of the calls, so each of them has its reply. -/
theorem exists_value_serve (s : Session) (requests : List Request) :
    ∃ replies s', (serve s requests).value = .ok (replies, s') ∧
      replies.length = requests.length := by
  induction requests generalizing s with
  | nil => exact ⟨_, _, rfl, rfl⟩
  | cons r rest ih =>
      obtain ⟨reply, s₁, hr⟩ := exists_value_perform r.file s r.call
      obtain ⟨replies, s', hrest, hlength⟩ := ih s₁
      exact ⟨_, _, value_serve_cons hr hrest, congrArg (· + 1) hlength⟩

end

/-- **The interface does what the session does.** In any sequence of calls, made with any arguments
from an empty session on, every call gets the reply that it should get and leaves behind the session
that it should leave. -/
theorem isAnswered_serve (before : List Request) (r : Request) (after : List Request) :
    ∃ replies reply later s s' last,
      (serve .empty before).value = .ok (replies, s) ∧
      (serve .empty (before ++ [r])).value = .ok (replies ++ [reply], s') ∧
      (serve .empty (before ++ r :: after)).value = .ok (replies ++ reply :: later, last) ∧
      replies.length = before.length ∧ IsAnswered r s reply s' := by
  obtain ⟨replies, s, hbefore, hlength⟩ := exists_value_serve .empty before
  obtain ⟨reply, s', hr⟩ := exists_value_perform r.file s r.call
  obtain ⟨later, last, hafter, -⟩ := exists_value_serve s' after
  refine ⟨replies, reply, later, s, s', last, hbefore, ?_, ?_, hlength, isAnswered_perform hr⟩
  · exact value_serve_append hbefore (value_serve_cons hr rfl)
  · exact value_serve_append hbefore (value_serve_cons hr hafter)

end MessageCatalog.Interface
