import MessageCatalog.Catalog.Metadata
import Mathlib.Data.List.DropRight

set_option autoImplicit false

/-! # Fields of metadata

Metadata that were written as lines, a name, a colon and a value on each, are read again by name. A
name ends at the first colon of its line, so a name is not taken for one that it is only the
beginning of, and what a value looks like makes no difference (`valueOf?_line`). Of the fields with
one name the first counts, and its value is given without the white space around it
(`field?_written`).
-/

namespace MessageCatalog

/-! ## White space -/

namespace Bytes

variable {b t : Bytes}

/-- One string is another one without the white space at both ends. -/
structure IsTrimmed (b t : Bytes) : Prop where
  inside : ∃ front back, b = front ++ t ++ back ∧
    (∀ c ∈ front, isSpace c = true) ∧ ∀ c ∈ back, isSpace c = true
  head : ∀ c ∈ t.head?, isSpace c = false
  last : ∀ c ∈ t.getLast?, isSpace c = false

theorem trim_eq (b : Bytes) : trim b = (b.dropWhile isSpace).rdropWhile isSpace := rfl

theorem isTrimmed_trim (b : Bytes) : IsTrimmed b (trim b) := by
  constructor
  case inside =>
    refine ⟨b.takeWhile isSpace, (b.dropWhile isSpace).rtakeWhile isSpace, ?_, ?_, ?_⟩
    · rw [trim_eq, List.append_assoc, List.rdropWhile_append_rtakeWhile,
        List.takeWhile_append_dropWhile]
    · exact fun c hc => List.mem_takeWhile_imp hc
    · exact fun c hc => List.mem_rtakeWhile_imp hc
  case head =>
    intro c hc
    -- What is left at the end starts where the white space at the start ends.
    obtain ⟨tail, htail⟩ := List.rdropWhile_prefix isSpace (b.dropWhile isSpace)
    have hstart : (b.dropWhile isSpace).head? = some c := by
      rw [← htail, List.head?_append, ← trim_eq, Option.mem_def.1 hc, Option.some_or]
    have hnot := List.head?_dropWhile_not isSpace b
    rw [hstart] at hnot
    exact hnot
  case last =>
    intro c hc
    obtain ⟨hne, rfl⟩ := List.mem_getLast?_eq_getLast hc
    exact Bool.eq_false_iff.2 (List.rdropWhile_last_not isSpace _ hne)

/-- There is only one way to leave the white space out. -/
theorem IsTrimmed.trim_eq (h : IsTrimmed b t) : trim b = t := by
  obtain ⟨⟨front, back, rfl, hfront, hback⟩, hhead, hlast⟩ := h
  rw [Bytes.trim_eq, List.append_assoc, List.dropWhile_append_of_pos hfront]
  cases t with
  | nil => rw [List.nil_append, List.dropWhile_eq_nil_iff.2 hback, List.rdropWhile_nil]
  | cons c t =>
      have hc : ¬ isSpace c = true := Bool.eq_false_iff.1 (hhead c rfl)
      have hback' : ∀ d ∈ back.reverse, isSpace d = true := fun d hd =>
        hback d (List.mem_reverse.1 hd)
      rw [List.cons_append, List.dropWhile_cons_of_neg hc, ← List.cons_append, List.rdropWhile,
        List.reverse_append, List.dropWhile_append_of_pos hback']
      refine List.rdropWhile_eq_self_iff.2 fun hne => ?_
      exact Bool.eq_false_iff.1 (hlast _ (List.getLast?_eq_getLast_of_ne_nil hne))

theorem trim_eq_iff : trim b = t ↔ IsTrimmed b t :=
  ⟨fun h => h ▸ isTrimmed_trim b, IsTrimmed.trim_eq⟩

end Bytes

namespace Metadata

/-! ## Lines -/

/-- A name that may stand at the start of a line: it holds neither a colon nor a line feed. -/
def IsName (name : Bytes) : Prop := 58 ∉ name ∧ 10 ∉ name

instance (name : Bytes) : Decidable (IsName name) := inferInstanceAs (Decidable (_ ∧ _))

/-- A field: a name and a value without a line feed. -/
structure Field where
  name : Bytes
  value : Bytes
  isName : IsName name := by decide
  isLine : 10 ∉ value := by decide

/-- The line of a field. -/
def Field.line (f : Field) : Bytes := f.name ++ 58 :: f.value

/-- Metadata that consist of some fields, each on a line of its own. -/
def written (fields : List Field) : Bytes := fields.flatMap fun f => f.line ++ [10]

theorem Field.not_mem_line (f : Field) : 10 ∉ f.line := by
  intro h
  rcases List.mem_append.1 h with h | h
  · exact f.isName.2 h
  · rcases List.mem_cons.1 h with h | h
    · cases h
    · exact f.isLine h

/-- The lines are those of the fields, with nothing behind the last line feed. -/
theorem split_written (fields : List Field) :
    Separated.split 10 (written fields) = fields.map Field.line ++ [[]] := by
  induction fields with
  | nil => rfl
  | cons f rest ih =>
      have hcons : written (f :: rest) = f.line ++ 10 :: written rest := by
        rw [written, List.flatMap_cons, List.append_assoc]
        rfl
      rw [hcons, Separated.split_append_sep f.not_mem_line, ih]
      rfl

theorem stripStart?_eq_some_iff {start b rest : Bytes} :
    Bytes.stripStart? start b = some rest ↔ b = start ++ rest := by
  rw [Bytes.stripStart?]
  constructor
  · intro h
    split at h
    next hstart =>
      obtain ⟨tail, rfl⟩ := List.isPrefixOf_iff_prefix.1 hstart
      rw [List.drop_left] at h
      rw [Option.some.inj h]
    next => cases h
  · rintro rfl
    rw [if_pos (List.isPrefixOf_iff_prefix.2 (List.prefix_append _ _)), List.drop_left]

/-- A line gives a value to a field if it starts with the name and a colon. -/
theorem valueOf?_eq_some_iff {name line value : Bytes} :
    valueOf? name line = some value ↔
      ∃ rest, line = name ++ 58 :: rest ∧ Bytes.trim rest = value := by
  rw [valueOf?, Option.bind_eq_some_iff]
  constructor
  · rintro ⟨behind, hbehind, hvalue⟩
    obtain ⟨rest, hrest, hvalue⟩ := Option.map_eq_some_iff.1 hvalue
    rw [stripStart?_eq_some_iff] at hbehind hrest
    exact ⟨rest, by rw [hbehind, hrest]; rfl, hvalue⟩
  · rintro ⟨rest, hline, hvalue⟩
    refine ⟨58 :: rest, stripStart?_eq_some_iff.2 hline, ?_⟩
    exact Option.map_eq_some_iff.2 ⟨rest, stripStart?_eq_some_iff.2 rfl, hvalue⟩

/-- Two names that end at a colon are the same if the lines are. -/
theorem line_eq_iff {name name' rest rest' : Bytes} (h : 58 ∉ name) (h' : 58 ∉ name') :
    name ++ 58 :: rest = name' ++ 58 :: rest' ↔ name = name' ∧ rest = rest' := by
  constructor
  · intro heq
    have hsplit := congrArg (Separated.split 58) heq
    rw [Separated.split_append_sep h, Separated.split_append_sep h'] at hsplit
    obtain ⟨rfl, -⟩ := List.cons.inj hsplit
    exact ⟨rfl, (List.cons.inj (List.append_cancel_left heq)).2⟩
  · rintro ⟨rfl, rfl⟩
    rfl

/-- The line of a field gives its value to the field of that name and to no other. -/
theorem valueOf?_line {name : Bytes} (hname : IsName name) (f : Field) :
    valueOf? name f.line = if f.name = name then some (Bytes.trim f.value) else none := by
  split
  next heq => exact valueOf?_eq_some_iff.2 ⟨f.value, by rw [Field.line, heq], rfl⟩
  next hne =>
    rw [Option.eq_none_iff_forall_ne_some]
    intro value hvalue
    obtain ⟨rest, hline, -⟩ := valueOf?_eq_some_iff.1 hvalue
    exact hne ((line_eq_iff f.isName.1 hname.1).1 hline).1

theorem valueOf?_nil (name : Bytes) : valueOf? name [] = none := by
  rw [Option.eq_none_iff_forall_ne_some]
  intro value hvalue
  obtain ⟨rest, hline, -⟩ := valueOf?_eq_some_iff.1 hvalue
  exact List.append_ne_nil_of_right_ne_nil name (List.cons_ne_nil 58 rest) hline.symm

theorem field?_written_eq (fields : List Field) {name : Bytes} (hname : IsName name) :
    field? (written fields) name =
      (fields.find? fun f => f.name = name).map fun f => Bytes.trim f.value := by
  rw [field?, split_written, List.findSome?_append, List.findSome?_singleton, valueOf?_nil,
    Option.or_none]
  induction fields with
  | nil => rfl
  | cons f rest ih =>
      rw [List.map_cons, List.findSome?_cons, valueOf?_line hname, List.find?_cons, ih]
      by_cases h : f.name = name
      · rw [if_pos h, decide_eq_true h]
        rfl
      · rw [if_neg h, decide_eq_false h]

/-- **Fields are found by their name.** Whatever the fields are and whatever their values hold, a
name is given the value of the first field with exactly this name, without the white space at both
ends, and nothing if there is no field of this name. -/
theorem field?_written (fields : List Field) (name : Bytes) (hname : IsName name) :
    (∀ value, field? (written fields) name = some value ↔
      ∃ before f after, fields = before ++ f :: after ∧ (∀ g ∈ before, g.name ≠ name) ∧
        f.name = name ∧ Bytes.IsTrimmed f.value value) ∧
    (field? (written fields) name = none ↔ ∀ f ∈ fields, f.name ≠ name) := by
  rw [field?_written_eq fields hname]
  constructor
  · intro value
    rw [Option.map_eq_some_iff]
    constructor
    · rintro ⟨f, hfind, hvalue⟩
      obtain ⟨hsame, before, after, hsplit, hbefore⟩ := List.find?_eq_some_iff_append.1 hfind
      exact ⟨before, f, after, hsplit, by simpa using hbefore, of_decide_eq_true hsame,
        Bytes.trim_eq_iff.1 hvalue⟩
    · rintro ⟨before, f, after, hsplit, hbefore, hsame, htrimmed⟩
      refine ⟨f, List.find?_eq_some_iff_append.2 ?_, Bytes.trim_eq_iff.2 htrimmed⟩
      exact ⟨decide_eq_true hsame, before, after, hsplit, by simpa using hbefore⟩
  · rw [Option.map_eq_none_iff, List.find?_eq_none]
    simp

/-- The lines `ab:1`, `b: a:2 `, `a:` with a tab and a carriage return around `3`, and `a:4`. -/
def sampleFields : List Field :=
  [{ name := [97, 98], value := [49] }, { name := [98], value := [32, 97, 58, 50, 32] },
    { name := [97], value := [9, 51, 13] }, { name := [97], value := [52] }]

/-- Neither a longer name nor a value that looks like a field is taken for the field `a`. -/
theorem field?_written_sampleFields :
    IsName [97] ∧ field? (written sampleFields) [97] = some [51] ∧
      IsName [49] ∧ field? (written sampleFields) [49] = none := by
  have ha : IsName [97] := by decide
  have hone : IsName [49] := by decide
  refine ⟨ha, ?_, hone, (field?_written sampleFields [49] hone).2.2 (by decide)⟩
  refine ((field?_written sampleFields [97] ha).1 [51]).2 ⟨sampleFields.take 2, _, [_], rfl, ?_⟩
  refine ⟨by decide, rfl, ⟨[9], [13], rfl, ?_, ?_⟩, ?_, ?_⟩ <;> simp [Bytes.isSpace]

end Metadata

end MessageCatalog
