import Mathlib.Logic.Function.Iterate
import MessageCatalog.Plural.Expr

set_option autoImplicit false

/-! # The leftmost marker

A node of a tree has an address: for each node on the way to it the number of the subtree to take.
In the order of their addresses the nodes stand from left to right. `isLeftmost_iff_head?` says that
`Expr.markers` lists the markers in that order.

`firstMarker?` finds the first of them with a list of trees that are still to be looked at. `Search`
is the same search with a stack that grows at its end, so that subtrees have to be pushed from right
to left. A round of it keeps what will be found (`answer_round`) and leaves fewer rounds to go
(`remaining_round`), so it ends after at most one round for each node and one for the empty stack
(`iterate_round`).
-/

namespace MessageCatalog.Plural

variable {e tree : Expr} {m m' : Marker} {trees : List Expr} {path : List Nat}

namespace Expr

/-! ## Addresses -/

/-- The subtrees of a node from left to right: the condition of a conditional comes before its
branches. -/
def children : Expr → List Expr
  | literal _ | number | invalid _ => []
  | binary _ lhs rhs => [lhs, rhs]
  | conditional condition ifTrue ifFalse => [condition, ifTrue, ifFalse]

/-- The tree at an address, unless the address leads out of the tree. -/
def subtree? (e : Expr) : List Nat → Option Expr
  | [] => some e
  | i :: path => e.children[i]?.bind fun child => child.subtree? path

/-- The marker that comes first in the order of the addresses: the number in which they differ
first is the smaller one. -/
def IsLeftmost (e : Expr) (m : Marker) : Prop :=
  ∃ path, e.subtree? path = some (invalid m) ∧
    ∀ path' m', e.subtree? path' = some (invalid m') →
      path = path' ∨ List.Lex (· < ·) path path'

theorem subtree?_cons_eq_some {i : Nat} :
    e.subtree? (i :: path) = some tree ↔
      ∃ child, e.children[i]? = some child ∧ child.subtree? path = some tree := by
  simp [subtree?, Option.bind_eq_some_iff]

/-- There is only one leftmost marker. -/
theorem IsLeftmost.unique (h : IsLeftmost e m) (h' : IsLeftmost e m') : m = m' := by
  obtain ⟨path, hpath, hfirst⟩ := h
  obtain ⟨path', hpath', hfirst'⟩ := h'
  have heq : path = path' := by
    rcases hfirst path' m' hpath' with heq | hlt
    · exact heq
    · rcases hfirst' path m hpath with heq | hgt
      · exact heq.symm
      · exact absurd hgt (List.lex_asymm Nat.lt_asymm hlt)
  subst heq
  simpa [hpath] using hpath'

/-! ## Markers in the order of their addresses -/

/-- What holds of a tree whenever it holds of its subtrees holds of every tree. -/
theorem children_induction {P : Expr → Prop} (step : ∀ e, (∀ child ∈ e.children, P child) → P e)
    (e : Expr) : P e := by
  induction e with
  | literal value => exact step _ (by simp [children])
  | number => exact step _ (by simp [children])
  | binary op lhs rhs ihl ihr => exact step _ (by simp [children, ihl, ihr])
  | conditional condition ifTrue ifFalse ihc iht ihf =>
      exact step _ (by simp [children, ihc, iht, ihf])
  | invalid m => exact step _ (by simp [children])

theorem isInvalid_eq_false_or (e : Expr) : e.isInvalid = false ∨ ∃ m, e = invalid m := by
  cases e <;> simp [isInvalid]

theorem markers_eq_flatMap (h : e.isInvalid = false) : e.markers = e.children.flatMap markers := by
  cases e with
  | literal value => rfl
  | number => rfl
  | binary op lhs rhs => simp [markers, children]
  | conditional condition ifTrue ifFalse => simp [markers, children]
  | invalid m => simp [isInvalid] at h

theorem subtree?_invalid_eq_some :
    (invalid m).subtree? path = some tree ↔ path = [] ∧ invalid m = tree := by
  cases path with
  | nil => simp [subtree?]
  | cons i path => simp [subtree?, children]

/-- A marker is in a subtree if the tree itself is none. -/
theorem exists_of_subtree?_eq_invalid (h : e.isInvalid = false)
    (hpath : e.subtree? path = some (invalid m)) :
    ∃ i rest child, path = i :: rest ∧ e.children[i]? = some child ∧
      child.subtree? rest = some (invalid m) := by
  cases path with
  | nil =>
      obtain rfl : e = invalid m := by simpa [subtree?] using hpath
      simp [isInvalid] at h
  | cons i rest =>
      obtain ⟨child, hchild, hrest⟩ := subtree?_cons_eq_some.1 hpath
      exact ⟨i, rest, child, rfl, hchild, hrest⟩

/-- The markers that are listed are those that have an address. -/
theorem mem_markers_iff : m ∈ e.markers ↔ ∃ path, e.subtree? path = some (invalid m) := by
  induction e using children_induction with
  | step e ih =>
      rcases e.isInvalid_eq_false_or with h | ⟨m', rfl⟩
      · rw [markers_eq_flatMap h, List.mem_flatMap]
        constructor
        · rintro ⟨child, hchild, hm⟩
          obtain ⟨path, hpath⟩ := (ih child hchild).1 hm
          obtain ⟨i, hi⟩ := List.mem_iff_getElem?.1 hchild
          exact ⟨i :: path, subtree?_cons_eq_some.2 ⟨child, hi, hpath⟩⟩
        · rintro ⟨path, hpath⟩
          obtain ⟨i, rest, child, -, hchild, hrest⟩ := exists_of_subtree?_eq_invalid h hpath
          have hmem := List.mem_of_getElem? hchild
          exact ⟨child, hmem, (ih child hmem).2 ⟨rest, hrest⟩⟩
      · simp only [markers, subtree?_invalid_eq_some, List.mem_singleton, exists_eq_left,
          invalid.injEq]
        exact eq_comm

theorem IsLeftmost.mem_markers (h : IsLeftmost e m) : m ∈ e.markers := by
  obtain ⟨path, hpath, -⟩ := h
  exact mem_markers_iff.2 ⟨path, hpath⟩

/-- The leftmost marker of a subtree is that of the tree, if no marker is further to the left. -/
theorem IsLeftmost.of_child {before after : List Expr} {child : Expr} (h : IsLeftmost child m)
    (hvalid : e.isInvalid = false) (hchildren : e.children = before ++ child :: after)
    (hbefore : ∀ tree ∈ before, tree.markers = []) : IsLeftmost e m := by
  obtain ⟨path, hpath, hfirst⟩ := h
  refine ⟨before.length :: path, ?_, ?_⟩
  · exact subtree?_cons_eq_some.2 ⟨child, by simp [hchildren], hpath⟩
  · intro path' m' hpath'
    obtain ⟨i, rest, tree, rfl, htree, hrest⟩ := exists_of_subtree?_eq_invalid hvalid hpath'
    rw [hchildren] at htree
    rcases Nat.lt_trichotomy before.length i with hlt | rfl | hlt
    · exact .inr (.rel hlt)
    · obtain rfl : child = tree := by simpa using htree
      rcases hfirst rest m' hrest with rfl | hlt
      · exact .inl rfl
      · exact .inr (.cons hlt)
    · -- An address further to the left leads into a subtree without markers.
      rw [List.getElem?_append_left hlt] at htree
      have hmem := mem_markers_iff.2 ⟨rest, hrest⟩
      simp [hbefore tree (List.mem_of_getElem? htree)] at hmem

/-- The first marker in the list is the leftmost one. -/
theorem isLeftmost_of_head? (h : e.markers.head? = some m) : IsLeftmost e m := by
  induction e using children_induction with
  | step e ih =>
      rcases e.isInvalid_eq_false_or with hvalid | ⟨m', rfl⟩
      · rw [markers_eq_flatMap hvalid, List.head?_flatMap, List.findSome?_eq_some_iff] at h
        obtain ⟨before, child, after, hchildren, hchild, hbefore⟩ := h
        have hleftmost := ih child (by simp [hchildren]) hchild
        exact hleftmost.of_child hvalid hchildren fun tree htree => by
          simpa using hbefore tree htree
      · obtain rfl : m' = m := by simpa [markers] using h
        refine ⟨[], rfl, ?_⟩
        intro path' m hpath'
        exact .inl (subtree?_invalid_eq_some.1 hpath').1.symm

/-- **The markers are listed from left to right.** -/
theorem isLeftmost_iff_head? : IsLeftmost e m ↔ e.markers.head? = some m := by
  constructor
  · intro h
    have hmem := h.mem_markers
    cases hhead : e.markers.head? with
    | none => simp [List.head?_eq_none_iff.1 hhead] at hmem
    | some first => rw [(isLeftmost_of_head? hhead).unique h]
  · exact isLeftmost_of_head?

end Expr

/-! ## The search with a stack -/

/-- A search for a marker: the trees that are still to be looked at, the next one at the end, or
what was found. -/
inductive Search
  | underway (stack : Array Expr)
  | ended (found : Option Marker)

namespace Search

/-- One round: the last tree is taken off the stack, and its subtrees are pushed from right to
left. -/
def round : Search → Search
  | ended found => ended found
  | underway stack =>
      match stack.back? with
      | none => ended none
      | some (.literal _) | some .number => underway stack.pop
      | some (.binary _ lhs rhs) => underway ((stack.pop.push rhs).push lhs)
      | some (.conditional condition ifTrue ifFalse) =>
          underway (((stack.pop.push ifFalse).push ifTrue).push condition)
      | some (.invalid m) => ended (some m)

/-- What the search will find. -/
def answer : Search → Option Marker
  | underway stack => firstMarker? stack.toList.reverse
  | ended found => found

/-- The rounds that are left at most: one for each node, and one that finds the stack empty. -/
def remaining : Search → Nat
  | underway stack => Expr.totalSize stack.toList.reverse + 1
  | ended _ => 0

theorem exists_push (stack : Array Expr) : stack = #[] ∨ ∃ rest e, stack = Array.push rest e := by
  by_cases h : stack = #[]
  · exact .inl h
  · exact .inr (Array.exists_push_of_ne_empty h)

/-- A round makes no difference to what will be found: the subtrees take the place of their tree in
the order in which they are looked at. -/
theorem answer_round (s : Search) : s.round.answer = s.answer := by
  cases s with
  | ended found => rfl
  | underway stack =>
      rcases exists_push stack with rfl | ⟨rest, e, rfl⟩
      · simp [round, answer, firstMarker?]
      · cases e <;> simp [round, answer, firstMarker?]

/-- A round leaves fewer rounds to go: the subtrees have fewer nodes than their tree. -/
theorem remaining_round (s : Search) : s.round.remaining ≤ s.remaining - 1 := by
  cases s with
  | ended found => exact Nat.zero_le _
  | underway stack =>
      rcases exists_push stack with rfl | ⟨rest, e, rfl⟩
      · simp [round, remaining]
      · cases e <;> simp [round, remaining, Expr.totalSize, Expr.size] <;> omega

/-- After so many rounds the search has ended. -/
theorem iterate_round {s : Search} {rounds : Nat} (h : s.remaining ≤ rounds) :
    round^[rounds] s = ended s.answer := by
  induction rounds generalizing s with
  | zero =>
      cases s with
      | ended found => rfl
      | underway stack => simp [remaining] at h
  | succ rounds ih =>
      have hround := s.remaining_round
      rw [Function.iterate_succ_apply, ih (by omega), answer_round]

end Search

/-- **The search is in order, and ends.** For every tree the search with a stack ends after no more
rounds than there are nodes and one, and it finds what the work list finds: the leftmost marker of
the tree, which is the first one in its list of markers, and nothing exactly if no node is a
marker. -/
theorem firstMarker?_leftmost (e : Expr) :
    Search.round^[e.size + 1] (.underway #[e]) = .ended (firstMarker? [e]) ∧
      firstMarker? [e] = e.markers.head? ∧
      (∀ m, firstMarker? [e] = some m ↔ e.IsLeftmost m) ∧
      (firstMarker? [e] = none ↔ ∀ path m, e.subtree? path ≠ some (.invalid m)) := by
  have hfirst : firstMarker? [e] = e.markers.head? := by
    rw [firstMarker?_eq_head?, List.flatMap_singleton]
  refine ⟨?_, hfirst, ?_, ?_⟩
  · have hremaining : (Search.underway #[e]).remaining = e.size + 1 := by
      simp [Search.remaining, Expr.totalSize]
    exact Search.iterate_round (Nat.le_of_eq hremaining)
  · intro m
    rw [hfirst, Expr.isLeftmost_iff_head?]
  · rw [hfirst, List.head?_eq_none_iff, List.eq_nil_iff_forall_not_mem]
    simp only [Expr.mem_markers_iff, not_exists]
    exact forall_comm

/-- Of the markers in the two branches the one in the first branch is found, although the other one
stands higher in the tree. -/
example : firstMarker? [.conditional .number
    (.binary .add (.literal 1) (.invalid ⟨5, .missingOperand⟩))
    (.invalid ⟨9, .endOfText⟩)] = some ⟨5, .missingOperand⟩ := by
  simp [firstMarker?]

end MessageCatalog.Plural
