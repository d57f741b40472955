import MessageCatalog.Catalog
import MessageCatalog.Po.Entry
import MessageCatalog.Proofs.Text.Utf8

set_option autoImplicit false

/-! # The parts of a source

A message is stored under a source made of up to three texts: its context, its key and its plural.
`sourceOf` puts them together. They are set apart by the bytes four and zero, so as long as the
texts are free of these, the parts can be cut out of the source again (`cutAt?_zero_sourceOf`,
`cutAt?_four_sourceOf`) and different parts make different sources (`sourceOf_inj`).
-/

namespace MessageCatalog.Po

/-! ## Cutting -/

theorem bne_of_not_mem {b : UInt8} {bytes : Bytes} (h : b ∉ bytes) :
    ∀ c ∈ bytes, (c != b) = true :=
  fun _ hc => bne_iff_ne.2 fun hcb => h (hcb ▸ hc)

theorem cutAt?_of_not_mem {b : UInt8} {bytes : Bytes} (h : b ∉ bytes) : cutAt? b bytes = none := by
  have hdrop : (bytes ++ []).dropWhile (· != b) = [].dropWhile (· != b) :=
    List.dropWhile_append_of_pos (bne_of_not_mem h)
  rw [List.append_nil, List.dropWhile_nil] at hdrop
  rw [cutAt?, hdrop]

theorem cutAt?_append {b : UInt8} {front : Bytes} (h : b ∉ front) (back : Bytes) :
    cutAt? b (front ++ b :: back) = some (front, back) := by
  have hfront := bne_of_not_mem h
  rw [cutAt?, List.dropWhile_append_of_pos hfront, List.takeWhile_append_of_pos hfront]
  simp

/-- Parts that are set apart by another byte do not hold `b` if neither of them does. -/
theorem not_mem_append_cons {b c : UInt8} {front back : Bytes} (hne : b ≠ c) (hfront : b ∉ front)
    (hback : b ∉ back) : b ∉ front ++ c :: back :=
  List.not_mem_append hfront (List.not_mem_cons_of_ne_of_not_mem hne hback)

/-! ## Texts without separators -/

/-- A text without the characters whose bytes set the parts of a source apart. -/
def IsFree (text : String) : Prop := '\x00' ∉ text.toList ∧ '\x04' ∉ text.toList

instance : DecidablePred IsFree := fun text => by unfold IsFree; infer_instance

theorem IsFree.zero_not_mem {text : String} (h : IsFree text) : 0 ∉ Utf8.encode text :=
  Utf8.zero_not_mem_encode h.1

theorem IsFree.four_not_mem {text : String} (h : IsFree text) : 4 ∉ Utf8.encode text := by
  rw [Utf8.mem_encode_iff (by decide)]
  exact h.2

/-! ## Pairs -/

/-- A context, if there is one, and a key. -/
structure Pair where
  context : Option String
  id : String
  deriving Repr, DecidableEq

namespace Pair

/-- The pair of the metadata. -/
def header : Pair := ⟨none, ""⟩

/-- What a pair is looked up by. -/
def key (p : Pair) : Bytes :=
  match p.context with
  | some context => Catalog.keyIn (Utf8.encode context) (Utf8.encode p.id)
  | none => Utf8.encode p.id

/-- Both texts are without separators. -/
structure IsFree (p : Pair) : Prop where
  context : ∀ text ∈ p.context, Po.IsFree text
  id : Po.IsFree p.id

variable {p : Pair}

/-- A key holds no NUL if neither text does. The byte four may be in them. -/
theorem zero_not_mem_key_of (hcontext : ∀ text ∈ p.context, '\x00' ∉ text.toList)
    (hid : '\x00' ∉ p.id.toList) : 0 ∉ p.key := by
  unfold key
  cases hp : p.context with
  | none => exact Utf8.zero_not_mem_encode hid
  | some context =>
      exact not_mem_append_cons (by decide) (Utf8.zero_not_mem_encode (hcontext context hp))
        (Utf8.zero_not_mem_encode hid)

theorem zero_not_mem_key (hp : p.IsFree) : 0 ∉ p.key :=
  zero_not_mem_key_of (fun text htext => (hp.context text htext).1) hp.id.1

end Pair

/-! ## Sources -/

/-- The source of a message with a pair and perhaps a plural. -/
def sourceOf (p : Pair) (plural : Option String) : Bytes :=
  p.key ++ plural.elim [] fun text => 0 :: Utf8.encode text

variable {p q : Pair} {plural plural' : Option String}

theorem sourceOf_none (p : Pair) : sourceOf p none = p.key := List.append_nil _

theorem sourceOf_eq_nil_iff : sourceOf p plural = [] ↔ p = .header ∧ plural = none := by
  obtain ⟨context, id⟩ := p
  unfold sourceOf Pair.key Pair.header
  cases context <;> cases plural <;> simp [Catalog.keyIn, Utf8.encode_eq_nil_iff]

theorem cutAt?_zero_sourceOf (hp : p.IsFree) :
    cutAt? 0 (sourceOf p plural) = plural.map fun text => (p.key, Utf8.encode text) := by
  cases plural with
  | none => rw [sourceOf_none]; exact cutAt?_of_not_mem (Pair.zero_not_mem_key hp)
  | some text => exact cutAt?_append (Pair.zero_not_mem_key hp) _

/-- A lookup sees the key of a source and not its plural. -/
theorem beforeNul_sourceOf (hp : p.IsFree) : Bytes.beforeNul (sourceOf p plural) = p.key := by
  cases plural with
  | none => rw [sourceOf_none]; exact Bytes.beforeNul_of_not_mem (Pair.zero_not_mem_key hp)
  | some text => exact Bytes.beforeNul_append_nul (Pair.zero_not_mem_key hp) _

/-- Behind the context stands a source without a context. -/
theorem cutAt?_four_sourceOf (hp : p.IsFree) (hplural : ∀ text ∈ plural, IsFree text) :
    cutAt? 4 (sourceOf p plural) =
      p.context.map fun context => (Utf8.encode context, sourceOf ⟨none, p.id⟩ plural) := by
  obtain ⟨context, id⟩ := p
  cases context with
  | some context =>
      have hsource : sourceOf ⟨some context, id⟩ plural =
          Utf8.encode context ++ 4 :: sourceOf ⟨none, id⟩ plural := List.append_assoc _ _ _
      rw [hsource]
      exact cutAt?_append (hp.context context rfl).four_not_mem _
  | none =>
      refine cutAt?_of_not_mem ?_
      cases plural with
      | none => rw [sourceOf_none]; exact hp.id.four_not_mem
      | some text =>
          exact not_mem_append_cons (by decide) hp.id.four_not_mem (hplural text rfl).four_not_mem

/-- Different pairs are looked up by different keys. -/
theorem Pair.key_inj (hp : p.IsFree) (hq : q.IsFree) (h : p.key = q.key) : p = q := by
  have hnone : ∀ text ∈ (none : Option String), Po.IsFree text := fun _ h => nomatch h
  have hcut := congrArg (cutAt? 4) h
  rw [← sourceOf_none, ← sourceOf_none, cutAt?_four_sourceOf hp hnone,
    cutAt?_four_sourceOf hq hnone] at hcut
  simp only [sourceOf_none] at hcut
  obtain ⟨context, id⟩ := p
  obtain ⟨context', id'⟩ := q
  cases context <;> cases context'
  case none.none => exact congrArg (Pair.mk none) (Utf8.encode_injective h)
  case some.some =>
    obtain ⟨hcontext, hid⟩ := Prod.mk.inj (Option.some.inj hcut)
    have hid : id = id' := Utf8.encode_injective hid
    rw [Utf8.encode_injective hcontext, hid]
  all_goals cases hcut

/-- **Different parts make different sources.** -/
theorem sourceOf_inj (hp : p.IsFree) (hq : q.IsFree) (h : sourceOf p plural = sourceOf q plural') :
    p = q ∧ plural = plural' := by
  have hkey : p.key = q.key := by
    rw [← beforeNul_sourceOf hp, h, beforeNul_sourceOf hq]
  have hcut := congrArg (cutAt? 0) h
  rw [cutAt?_zero_sourceOf hp, cutAt?_zero_sourceOf hq] at hcut
  refine ⟨Pair.key_inj hp hq hkey, ?_⟩
  cases plural <;> cases plural'
  case none.none => rfl
  case some.some =>
    obtain ⟨-, htext⟩ := Prod.mk.inj (Option.some.inj hcut)
    exact congrArg some (Utf8.encode_injective htext)
  all_goals cases hcut

end MessageCatalog.Po
