import MessageCatalog.Proofs.Catalog.Loading
import MessageCatalog.Proofs.Draft.Image

set_option autoImplicit false

/-! # Loading from streams

A stream is read up to one byte past the largest accepted size. So of data that is not too large
nothing is missing, and what is left of data that is too large is still too large: a load from a
stream ends like a load of the same bytes from memory, however the stream is cut into pieces, and a
failure of the stream shows only behind data that is not too large (`LoadsLikeMemory`).

All this holds as long as a word can hold one byte more than the largest accepted size
(`load_agrees`). With the largest size that a word can hold nothing is read and nothing is loaded:
the program ends, where a load from memory gives a catalog (`load_largestSize_ne`).
-/

namespace MessageCatalog

namespace LoadError

/-- The kinds of failed loads. -/
inductive Kind
  | notFound
  | corrupt
  | unreadable
  deriving Repr, DecidableEq

/-- The kind of a failed load, whatever is wrong in particular. -/
def kind : LoadError → Kind
  | notFound => .notFound
  | corrupt _ => .corrupt
  | unreadable _ => .unreadable

end LoadError

namespace Catalog

variable {data : Bytes} {options : LoadOptions} {stream : ByteStream} {name : String}

/-- The loads give the same catalog, or they fail for reasons of the same kind. -/
def EndAlike : Except LoadError Catalog → Except LoadError Catalog → Prop
  | .ok c, .ok c' => c = c'
  | .error e, .error e' => e.kind = e'.kind
  | _, _ => False

theorem EndAlike.refl (result : Except LoadError Catalog) : EndAlike result result := by
  cases result <;> rfl

/-- A load from a stream has a result, which is as good as that of a load of all the bytes of the
stream from memory. -/
structure LoadsLikeMemory (stream : ByteStream) (name : String) (options : LoadOptions) : Prop where
  alike : stream.failure = none →
    ∃ result, (load stream name options).value = .ok result ∧
      EndAlike result (ofBytes stream.pieces.flatten name options).value
  /-- The failure of a stream is met if its data could still be a catalog. -/
  failed : ∀ f, stream.failure = some f → stream.pieces.flatten.length ≤ options.maxSize →
    (load stream name options).value = .ok (.error (.ofRead f))
  /-- Data that is too large is refused before a failure behind it is met. -/
  tooLarge : ∀ f, stream.failure = some f → options.maxSize < stream.pieces.flatten.length →
    ∃ defect, (load stream name options).value = .ok (.error (.corrupt defect))

/-! ## Data from memory -/

/-- Whatever else may be wrong with data that is too large, it is corrupt. -/
theorem check_of_maxSize_lt (h : options.maxSize < data.length) :
    ∃ defect, check data options = .error (.corrupt defect) := by
  have hempty : data.isEmpty = false := by
    rw [List.isEmpty_eq_false_iff]
    rintro rfl
    exact Nat.not_lt_zero _ h
  unfold check
  simp only [hempty, Bool.false_eq_true, if_false, if_pos h]
  by_cases hmin : data.length < minSize
  · exact ⟨.tooSmall, by rw [if_pos hmin]; rfl⟩
  · exact ⟨.tooLarge, by rw [if_neg hmin]; rfl⟩

theorem ofBytes_of_maxSize_lt (h : options.maxSize < data.length) (name : String) :
    ∃ defect, (ofBytes data name options).value = .error (.corrupt defect) := by
  obtain ⟨defect, hcheck⟩ := check_of_maxSize_lt h
  refine ⟨defect, ?_⟩
  rw [value_ofBytes, hcheck]
  rfl

/-! ## Data from streams -/

/-- What a load leaves of a stream: all of it, if the program ends before anything is read. -/
def unread (stream : ByteStream) (options : LoadOptions) : ByteStream :=
  match (readLimit options).value with
  | .ok limit => (stream.read limit).2
  | .error _ => stream

theorem unread_of_lt (h : options.maxSize + 1 < UInt64.size) (stream : ByteStream) :
    unread stream options = (stream.read (options.maxSize + 1)).2 := by
  rw [unread, readLimit, value_addSizes_of_lt h]

theorem unread_of_le (h : UInt64.size ≤ options.maxSize + 1) (stream : ByteStream) :
    unread stream options = stream := by
  rw [unread, readLimit, value_addSizes_of_le h]

/-- No more than one byte past the largest accepted size is taken from a stream. -/
theorem exists_taken (stream : ByteStream) (options : LoadOptions) :
    ∃ taken, stream.pieces.flatten = taken ++ (unread stream options).pieces.flatten ∧
      taken.length ≤ options.maxSize + 1 := by
  rcases Nat.lt_or_ge (options.maxSize + 1) UInt64.size with h | h
  · refine ⟨stream.pieces.flatten.take (options.maxSize + 1), ?_, List.length_take_le _ _⟩
    have hleft : (unread stream options).pieces.flatten =
        stream.pieces.flatten.drop (options.maxSize + 1) := by
      rw [unread_of_lt h]
      exact ByteStream.flatten_readFrom stream.failure (options.maxSize + 1) stream.pieces
    rw [hleft, List.take_append_drop]
  · exact ⟨[], by rw [unread_of_le h, List.nil_append], Nat.zero_le _⟩

/-- Data that is not too large is read to its end, and then loaded if the stream just ends there. -/
theorem load_of_length_le (hlimit : options.maxSize + 1 < UInt64.size)
    (hdata : stream.pieces.flatten.length ≤ options.maxSize) (name : String) :
    (load stream name options).value = .ok (match stream.failure with
      | some f => .error (.ofRead f)
      | none => (ofBytes stream.pieces.flatten name options).value) := by
  have hlt : stream.pieces.flatten.length < options.maxSize + 1 := by omega
  rw [value_load_of_lt hlimit, ByteStream.fst_read]
  cases stream.failure with
  | some f => simp only [if_pos hlt]
  | none => simp only [List.take_of_length_le (Nat.le_of_lt hlt)]

/-- Of data that is too large so much is read that it is refused, and a failure behind it is not
met. -/
theorem load_of_lt_length (hlimit : options.maxSize + 1 < UInt64.size)
    (hdata : options.maxSize < stream.pieces.flatten.length) (name : String) :
    ∃ defect, (load stream name options).value = .ok (.error (.corrupt defect)) := by
  have hread : (stream.read (options.maxSize + 1)).1 =
      .ok (stream.pieces.flatten.take (options.maxSize + 1)) := by
    have hnlt : ¬ stream.pieces.flatten.length < options.maxSize + 1 := by omega
    rw [ByteStream.fst_read]
    cases stream.failure with
    | some f => simp only [if_neg hnlt]
    | none => rfl
  have htaken : options.maxSize < (stream.pieces.flatten.take (options.maxSize + 1)).length := by
    rw [List.length_take]
    omega
  obtain ⟨defect, hdefect⟩ := ofBytes_of_maxSize_lt htaken name
  refine ⟨defect, ?_⟩
  rw [value_load_of_lt hlimit, hread]
  exact congrArg Except.ok hdefect

theorem loadsLikeMemory (hlimit : options.maxSize + 1 < UInt64.size) (stream : ByteStream)
    (name : String) : LoadsLikeMemory stream name options := by
  refine ⟨fun hends => ?_, fun f hfails hdata => ?_, fun f hfails hdata => ?_⟩
  · rcases Nat.lt_or_ge options.maxSize stream.pieces.flatten.length with hdata | hdata
    · obtain ⟨defect, hload⟩ := load_of_lt_length hlimit hdata name
      obtain ⟨defect', hmemory⟩ := ofBytes_of_maxSize_lt hdata name
      refine ⟨_, hload, ?_⟩
      rw [hmemory]
      rfl
    · refine ⟨_, load_of_length_le hlimit hdata name, ?_⟩
      rw [hends]
      exact EndAlike.refl _
  · rw [load_of_length_le hlimit hdata, hfails]
  · exact load_of_lt_length hlimit hdata name

/-- **Loading from a stream is as good as loading from memory**, for every stream and every largest
size but one, and never takes more than one byte past that size from the stream. With the largest
size of all the program ends. -/
theorem load_agrees (stream : ByteStream) (name : String) (options : LoadOptions)
    (hsize : options.maxSize < UInt64.size) :
    (options.maxSize + 1 ≠ UInt64.size → LoadsLikeMemory stream name options) ∧
      (options.maxSize + 1 = UInt64.size → (load stream name options).value = .error .addition) ∧
      ∃ taken, stream.pieces.flatten = taken ++ (unread stream options).pieces.flatten ∧
        taken.length ≤ options.maxSize + 1 :=
  ⟨fun hne => loadsLikeMemory (Nat.lt_of_le_of_ne hsize hne) stream name,
    fun hlimit => value_load_of_le (Nat.le_of_eq hlimit.symm) stream name,
    exists_taken stream options⟩

/-- The file of one message. -/
def oneMessage : Bytes := (Draft.empty.add [97] [88]).write

/-- The file in two pieces, and a failure behind them. -/
def interrupted : ByteStream where
  pieces := [oneMessage.take 40, oneMessage.drop 40]
  failure := some ⟨false, "connection lost"⟩

/-- The failure is met with a largest size that the file just keeps, and not with one less. -/
theorem load_agrees_interrupted :
    (60 : Nat) < UInt64.size ∧ (60 : Nat) + 1 ≠ UInt64.size ∧
      interrupted.pieces.flatten.length = 60 ∧
      (load interrupted "a" ⟨60, true⟩).value = .ok (.error (.unreadable "connection lost")) ∧
      ∃ defect, (load interrupted "a" ⟨59, true⟩).value = .ok (.error (.corrupt defect)) := by
  have hsize : (60 : Nat) < UInt64.size := by decide
  have hne : (60 : Nat) + 1 ≠ UInt64.size := by decide
  have hdata : interrupted.pieces.flatten.length = 60 := by decide +kernel
  have hkept := (load_agrees interrupted "a" ⟨60, true⟩ hsize).1 hne
  have hexceeded := (load_agrees interrupted "a" ⟨59, true⟩ (by decide)).1 (by decide)
  exact ⟨hsize, hne, hdata, hkept.failed _ rfl (Nat.le_of_eq hdata),
    hexceeded.tooLarge _ rfl (Nat.lt_of_lt_of_eq (Nat.lt_succ_self 59) hdata.symm)⟩

/-- The largest size that a word can hold. -/
def largestSize : LoadOptions := ⟨UInt64.size - 1, false⟩

/-- With the largest size a catalog is loaded from memory, and from a stream nothing is loaded at
all. -/
theorem load_largestSize_ne :
    largestSize.maxSize < UInt64.size ∧
      (∃ c, (ofBytes oneMessage "a" largestSize).value = .ok c ∧ c.lookup [97] = some [88]) ∧
      (load (.ofBytes oneMessage) "a" largestSize).value = .error .addition ∧
      ¬ LoadsLikeMemory (.ofBytes oneMessage) "a" largestSize := by
  have hmemory : (ofBytes oneMessage "a" largestSize).value = .ok _ :=
    Draft.ofBytes_write (by decide) (by decide +kernel) (by decide +kernel) "a"
  have hstream : (load (.ofBytes oneMessage) "a" largestSize).value = .error .addition :=
    value_load_of_le (by decide) _ _
  refine ⟨by decide, ⟨_, hmemory, ?_⟩, hstream, fun h => ?_⟩
  · show (Draft.empty.add [97] [88]).image.lookup [97] = some [88]
    decide +kernel
  · obtain ⟨result, hresult, -⟩ := h.alike rfl
    rw [hstream] at hresult
    cases hresult

end Catalog

end MessageCatalog
