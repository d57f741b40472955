import MessageCatalog.Proofs.Plural.Grammar

set_option autoImplicit false

/-! # What is read is derived

Every rule of `parse` that returns a tree without markers has read a word of its nonterminal, the
tree is the tree of a derivation of that word, and its nodes are the nodes that were counted. A
marker is never lost on the way: it stays in the tree of whoever read it.
-/

namespace MessageCatalog.Plural

variable {outer : Nat} {s : Nonterminal} {l : Level} {operand nested : Reader}
variable {word : Bytes} {e e' lhs : Expr} {c c' c₁ : Cursor}

/-! ## Words between cursors -/

/-- The word and then blanks stand between the two cursors. -/
def Between (word : Bytes) (c c' : Cursor) : Prop :=
  ∃ blanks, (∀ b ∈ blanks, Cursor.isBlank b = true) ∧ c.rest = word ++ (blanks ++ c'.rest)

theorem Between.of_eq (h : c.rest = word ++ c'.rest) : Between word c c' := ⟨[], by simp, h⟩

theorem Between.skipBlanks (h : Between word c c') : Between word c c'.skipBlanks := by
  obtain ⟨blanks, hblanks, h⟩ := h
  obtain ⟨more, hmore, hrest⟩ := exists_blanks c'.rest
  refine ⟨blanks ++ more, ?_, ?_⟩
  · intro b hb
    exact (List.mem_append.1 hb).elim (hblanks b) (hmore b)
  · rw [rest_skipBlanks, List.append_assoc, ← hrest, h]

/-- With a token at the second cursor the blanks belong to the token. -/
theorem Between.token (h : Between word c c') {token : Bytes} (ht : c'.rest = token ++ c₁.rest) :
    ∃ sign, Spaced token sign ∧ c.rest = (word ++ sign) ++ c₁.rest := by
  obtain ⟨blanks, hblanks, h⟩ := h
  refine ⟨blanks ++ token, ⟨blanks, hblanks, rfl⟩, ?_⟩
  rw [h, ht]
  simp only [List.append_assoc]

theorem Between.byte (h : Between word c c') {b : UInt8} (hb : c'.rest.head? = some b) :
    ∃ sign, Spaced [b] sign ∧ c.rest = (word ++ sign) ++ (c'.advance 1).rest := by
  obtain ⟨tail, ht⟩ := List.head?_eq_some_iff.1 hb
  refine h.token ?_
  show c'.rest = [b] ++ c'.rest.drop 1
  rw [ht]
  rfl

theorem Between.append {before : Bytes} (h : c.rest = before ++ c₁.rest)
    (hword : Between word c₁ c') : Between (before ++ word) c c' := by
  obtain ⟨blanks, hblanks, hrest⟩ := hword
  exact ⟨blanks, hblanks, by rw [h, hrest, List.append_assoc]⟩

/-! ## Rules that the grammar explains -/

/-- What a rule read between two cursors is a word of the nonterminal, and the nodes of its tree
are counted. -/
structure Explained (outer : Nat) (s : Nonterminal) (c : Cursor) (e : Expr) (c' : Cursor) :
    Prop where
  derived : ∃ depth word, depth ≤ outer ∧ Derives s depth word e ∧ Between word c c'
  nodes : c'.nodes = c.nodes + e.size
  within : c'.nodes ≤ maxNodes

/-- Where the tree that the rule reads has no markers, the grammar explains it. -/
def Sound (outer : Nat) (s : Nonterminal) (reader : Reader) : Prop :=
  ∀ c, (reader c).1.markers = [] → Explained outer s c (reader c).1 (reader c).2

theorem Explained.skipBlanks (h : Explained outer s c e c') :
    Explained outer s c e c'.skipBlanks := by
  obtain ⟨depth, word, hdepth, hderives, hbetween⟩ := h.derived
  exact ⟨⟨depth, word, hdepth, hderives, hbetween.skipBlanks⟩, h.nodes, h.within⟩

theorem markers_fault (c : Cursor) (f : Fault) : (c.fault f).markers ≠ [] := by
  simp [Cursor.fault, Expr.markers]

theorem node_snd (c : Cursor) (e : Expr) : (c.node e).2 = { c with nodes := c.nodes + 1 } := by
  unfold Cursor.node
  dsimp only
  split <;> rfl

/-- A counted node is the tree it was made of, unless there were too many. -/
theorem node_fst (hm : (c.node e).1.markers = []) :
    (c.node e).1 = e ∧ c.nodes + 1 ≤ maxNodes := by
  unfold Cursor.node at hm ⊢
  dsimp only at hm ⊢
  split
  case isTrue h =>
      rw [if_pos h] at hm
      exact absurd hm (markers_fault _ _)
  case isFalse h => exact ⟨rfl, Nat.le_of_not_lt h⟩

theorem markers_node (hm : (c.node e).1.markers = []) : e.markers = [] := by
  rwa [(node_fst hm).1] at hm

theorem explained_node {depth : Nat} (hm : (c'.node e).1.markers = []) (hdepth : depth ≤ outer)
    (hderives : Derives s depth word e) (hbetween : Between word c c')
    (hnodes : c'.nodes + 1 = c.nodes + e.size) :
    Explained outer s c (c'.node e).1 (c'.node e).2 := by
  obtain ⟨he, hwithin⟩ := node_fst hm
  rw [he, node_snd]
  exact ⟨⟨depth, word, hdepth, hderives, hbetween⟩, hnodes, hwithin⟩

/-! ## Chains -/

theorem markers_binary {op : Operator} {rhs : Expr} (h : (Expr.binary op lhs rhs).markers = []) :
    lhs.markers = [] ∧ rhs.markers = [] := List.append_eq_nil_iff.1 h

/-- A chain keeps the markers of what it goes on from. -/
theorem markers_lhs {rounds : Nat} (hm : (chainFrom operand l rounds lhs c).1.markers = []) :
    lhs.markers = [] := by
  induction rounds generalizing lhs c with
  | zero => exact hm
  | succ rounds ih =>
      unfold chainFrom at hm
      dsimp only at hm
      split at hm
      · exact hm
      · split at hm
        · exact hm
        · exact (markers_binary (markers_node (ih hm))).1

/-- An operator and an operand behind a chain make it a longer chain. -/
theorem explained_operation (hoperand : Sound outer l.operand operand) {op : Operator}
    {width : Nat} (hlhs : Explained outer (.level l) c lhs c₁)
    (hop : l.operator? c₁.rest = some (op, width))
    (hm : ((operand (c₁.advance width)).2.node
      (.binary op lhs (operand (c₁.advance width)).1)).1.markers = []) :
    Explained outer (.level l) c
      ((operand (c₁.advance width)).2.node (.binary op lhs (operand (c₁.advance width)).1)).1
      ((operand (c₁.advance width)).2.node (.binary op lhs (operand (c₁.advance width)).1)).2 := by
  obtain ⟨rfl, rfl, htext⟩ := eq_spelling_append hop
  have hsign : c₁.rest = op.spelling ++ (c₁.advance op.spelling.length).rest := htext
  have hrhs := hoperand _ (markers_binary (markers_node hm)).2
  obtain ⟨i, left, hi, hleft, hbetween⟩ := hlhs.derived
  obtain ⟨j, right, hj, hright, hbetween'⟩ := hrhs.derived
  obtain ⟨sign, hsign, hrest⟩ := hbetween.token hsign
  refine explained_node hm (Nat.max_le.2 ⟨hi, hj⟩) (.operation hleft hsign hright)
    (hbetween'.append hrest) ?_
  have hnodes := hlhs.nodes
  rw [hrhs.nodes]
  show c₁.nodes + _ + 1 = _
  simp only [Expr.size]
  omega

theorem explained_chainFrom (hoperand : Sound outer l.operand operand) {rounds : Nat}
    (hlhs : Explained outer (.level l) c lhs c₁)
    (hm : (chainFrom operand l rounds lhs c₁).1.markers = []) :
    Explained outer (.level l) c (chainFrom operand l rounds lhs c₁).1
      (chainFrom operand l rounds lhs c₁).2 := by
  induction rounds generalizing lhs c₁ with
  | zero => exact hlhs
  | succ rounds ih =>
      unfold chainFrom at hm ⊢
      dsimp only at hm ⊢
      split at hm
      case isTrue h =>
          rw [if_pos h]
          exact hlhs
      case isFalse h =>
          rw [if_neg h]
          split at hm
          · exact hlhs.skipBlanks
          · next op width hop =>
              exact ih (explained_operation hoperand hlhs.skipBlanks hop (markers_lhs hm)) hm

theorem sound_chain (hoperand : Sound outer l.operand operand) :
    Sound outer (.level l) (chain operand l) := by
  intro c hm
  have hfirst := hoperand c (markers_lhs hm)
  obtain ⟨depth, word, hdepth, hderives, hbetween⟩ := hfirst.derived
  exact explained_chainFrom hoperand
    ⟨⟨depth, word, hdepth, .operand hderives, hbetween⟩, hfirst.nodes, hfirst.within⟩ hm

/-! ## Atoms -/

theorem clamp_valueUpTo (negative : Bool) (digits : List Nat) :
    clamp (if negative then -(Decimal.valueUpTo UInt32.size digits : Int)
        else Decimal.valueUpTo UInt32.size digits) =
      clamp (if negative then -(Decimal.value digits : Int) else Decimal.value digits) := by
  rw [Decimal.valueUpTo_eq]
  cases negative with
  | true => exact (clamp_min _).2
  | false => exact (clamp_min _).1

theorem explained_integer {negative : Bool} (hbetween : Between [] c c')
    (hsign : c'.rest = (if negative then [45] else []) ++ c₁.rest) (hnodes : c₁.nodes = c.nodes)
    (hdigit : c₁.rest.head?.any Bytes.isDigit = true)
    (hm : (integer negative c₁).1.markers = []) :
    Explained outer .atom c (integer negative c₁).1 (integer negative c₁).2 := by
  have hdigits : ∀ d ∈ c₁.rest.takeWhile Bytes.isDigit, Bytes.isDigit d = true :=
    fun _ hd => List.mem_takeWhile_imp hd
  have hne : c₁.rest.takeWhile Bytes.isDigit ≠ [] := by
    cases hrest : c₁.rest with
    | nil => simp [hrest] at hdigit
    | cons d tail =>
        have hd : Bytes.isDigit d = true := by simpa [hrest] using hdigit
        simp [hd]
  have htail : c₁.rest.takeWhile Bytes.isDigit ++
      (c₁.advance (c₁.rest.takeWhile Bytes.isDigit).length).rest = c₁.rest :=
    List.prefix_iff_eq_append.1 (List.takeWhile_prefix _)
  have htoken : c'.rest = ((if negative then [45] else []) ++ c₁.rest.takeWhile Bytes.isDigit) ++
      (c₁.advance (c₁.rest.takeWhile Bytes.isDigit).length).rest := by
    rw [List.append_assoc, htail, hsign]
  obtain ⟨word, hword, hrest⟩ := hbetween.token htoken
  have hderives := Derives.integer negative hne hdigits hword
  rw [← clamp_valueUpTo] at hderives
  exact explained_node hm (Nat.zero_le _) hderives (.of_eq hrest)
    (congrArg (· + 1) hnodes)

theorem explained_parentheses (hnested : Sound outer .ternary nested)
    (hbetween : Between [] c c₁) (hnodes : c₁.nodes = c.nodes) (hopen : c₁.rest.head? = some 40)
    (hclose : (nested (c₁.advance 1)).2.skipBlanks.rest.head? = some 41)
    (hm : (nested (c₁.advance 1)).1.markers = []) :
    Explained outer .atom c (nested (c₁.advance 1)).1
      ((nested (c₁.advance 1)).2.skipBlanks.advance 1) := by
  have hinner := hnested _ hm
  obtain ⟨depth, inner, hdepth, hderives, hword⟩ := hinner.derived
  obtain ⟨opening, hopening, hrest⟩ := hbetween.byte hopen
  obtain ⟨closing, hclosing, htail⟩ := (hword.append hrest).skipBlanks.byte hclose
  have hnodes' := hinner.nodes
  rw [show (c₁.advance 1).nodes = c.nodes from hnodes] at hnodes'
  exact ⟨⟨depth, _, hdepth, .parentheses hopening hderives hclosing, .of_eq htail⟩, hnodes',
    hinner.within⟩

theorem sound_atom (hnested : Sound outer .ternary nested) :
    Sound outer .atom (atom nested) := by
  intro c
  have hstart : Between [] c c.skipBlanks := (Between.of_eq rfl).skipBlanks
  have hnodes : c.skipBlanks.nodes = c.nodes := rfl
  unfold atom
  dsimp only
  generalize c.skipBlanks = c₁ at hstart hnodes ⊢
  split
  next => exact fun hm => absurd hm (markers_fault _ _)
  next b rest hrest =>
      have hhead : c₁.rest.head? = some b := by rw [hrest]; rfl
      split
      next hb =>
          subst hb
          split
          next hinvalid =>
              intro hm
              rw [isInvalid_eq_false hm] at hinvalid
              contradiction
          next =>
              split
              next hclose => exact explained_parentheses hnested hstart hnodes hhead hclose
              next => exact fun hm => absurd hm (markers_fault _ _)
      split
      next hb =>
          subst hb
          intro hm
          obtain ⟨word, hword, htail⟩ := hstart.byte hhead
          exact explained_node hm (Nat.zero_le _) (.number hword) (.of_eq htail)
            (congrArg (· + 1) hnodes)
      split
      next hb => exact explained_integer hstart rfl hnodes (by rw [hhead]; exact hb)
      split
      next hb =>
          obtain ⟨rfl, hdigit⟩ : b = 45 ∧ rest.head?.any Bytes.isDigit = true := by simpa using hb
          have htail : (c₁.advance 1).rest = rest := rest_advance_one hrest
          refine explained_integer hstart ?_ hnodes (by rw [htail]; exact hdigit)
          rw [htail, hrest]
          rfl
      next => exact fun hm => absurd hm (markers_fault _ _)

/-! ## Conditionals -/

theorem sound_condition (hnested : Sound outer .ternary nested) :
    Sound outer (.level .condition) (condition nested) :=
  sound_chain (sound_chain (sound_chain (sound_chain (sound_atom hnested))))

theorem markers_conditional {condition ifTrue ifFalse : Expr}
    (h : (Expr.conditional condition ifTrue ifFalse).markers = []) :
    condition.markers = [] ∧ ifTrue.markers = [] ∧ ifFalse.markers = [] := by
  simpa [Expr.markers, and_assoc] using h

theorem Explained.plain (h : Explained outer (.level .condition) c e c') :
    Explained (outer + 1) .ternary c e c' := by
  obtain ⟨depth, word, hdepth, hderives, hbetween⟩ := h.derived
  exact ⟨⟨depth + 1, word, Nat.succ_le_succ hdepth, .plain hderives, hbetween⟩, h.nodes, h.within⟩

theorem explained_conditional {condition ifTrue ifFalse : Expr} {c₂ c₃ : Cursor}
    (hcondition : Explained outer (.level .condition) c condition c₁)
    (hquestion : c₁.skipBlanks.rest.head? = some 63)
    (hifTrue : Explained outer .ternary (c₁.skipBlanks.advance 1) ifTrue c₂)
    (hcolon : c₂.skipBlanks.rest.head? = some 58)
    (hifFalse : Explained outer .ternary (c₂.skipBlanks.advance 1) ifFalse c₃)
    (hm : (c₃.node (.conditional condition ifTrue ifFalse)).1.markers = []) :
    Explained (outer + 1) .ternary c (c₃.node (.conditional condition ifTrue ifFalse)).1
      (c₃.node (.conditional condition ifTrue ifFalse)).2 := by
  obtain ⟨i, first, hi, hfirst, hword⟩ := hcondition.derived
  obtain ⟨j, second, hj, hsecond, hword'⟩ := hifTrue.derived
  obtain ⟨k, third, hk, hthird, hword''⟩ := hifFalse.derived
  obtain ⟨question, hquestion, hrest⟩ := hword.skipBlanks.byte hquestion
  obtain ⟨colon, hcolon, hrest'⟩ := (hword'.append hrest).skipBlanks.byte hcolon
  refine explained_node hm ?_ (.conditional hfirst hquestion hsecond hcolon hthird)
    (hword''.append hrest') ?_
  · exact Nat.succ_le_succ (Nat.max_le.2 ⟨hi, Nat.max_le.2 ⟨hj, hk⟩⟩)
  · have h₁ := hcondition.nodes
    have h₂ : c₂.nodes = c₁.nodes + ifTrue.size := hifTrue.nodes
    have h₃ : c₃.nodes = c₂.nodes + ifFalse.size := hifFalse.nodes
    simp only [Expr.size]
    omega

theorem sound_ternary (outer : Nat) : Sound outer .ternary (ternary outer) := by
  induction outer with
  | zero => exact fun c hm => absurd hm (markers_fault c .tooDeep)
  | succ outer ih =>
      intro c
      unfold ternary
      dsimp only
      have hcondition := sound_condition ih c
      generalize condition (ternary outer) c = first at hcondition ⊢
      split
      next hquestion =>
          have hifTrue := ih (first.2.skipBlanks.advance 1)
          generalize ternary outer (first.2.skipBlanks.advance 1) = second at hifTrue ⊢
          split
          next hcolon =>
              have hifFalse := ih (second.2.skipBlanks.advance 1)
              generalize ternary outer (second.2.skipBlanks.advance 1) = third at hifFalse ⊢
              intro hm
              obtain ⟨hm₁, hm₂, hm₃⟩ := markers_conditional (markers_node hm)
              exact explained_conditional (hcondition hm₁) hquestion (hifTrue hm₂) hcolon
                (hifFalse hm₃) hm
          next =>
              intro hm
              exact absurd (markers_conditional (markers_node hm)).2.2 (markers_fault _ _)
      next => exact fun hm => (hcondition hm).skipBlanks.plain

/-! ## The whole text -/

/-- The error of a text is the first marker of the whole tree, and without a marker it is what
stands behind the expression. -/
theorem parse_eq (text : Bytes) :
    parse text =
      match (ternary maxDepth (.start text)).1.markers.head? with
      | some m => .error m
      | none =>
          if (ternary maxDepth (.start text)).2.skipBlanks.rest.head?.all isTerminator then
            .ok (ternary maxDepth (.start text)).1
          else .error ⟨(ternary maxDepth (.start text)).2.skipBlanks.byte, .trailingText⟩ := by
  unfold parse
  generalize ternary maxDepth (.start text) = result
  have hfirst : firstMarker? [result.1] = result.1.markers.head? := by
    rw [firstMarker?_eq_head?, List.flatMap_singleton]
  cases hm : result.1.markers.head? with
  | none => simp only [hfirst, hm]
  | some m => simp only [hfirst, hm]

/-- A text that is accepted is a word of the grammar, blanks, and then its end or a terminator. -/
theorem exists_derives_of_parse {text : Bytes} (h : parse text = .ok e) :
    ∃ depth word blanks rest, depth ≤ maxDepth ∧ Derives .ternary depth word e ∧
      e.size ≤ maxNodes ∧ (∀ b ∈ blanks, Cursor.isBlank b = true) ∧
      text = word ++ (blanks ++ rest) ∧ rest.head?.all isTerminator = true := by
  rw [parse_eq] at h
  have hsound := sound_ternary maxDepth (.start text)
  generalize ternary maxDepth (.start text) = result at h hsound
  split at h
  next => cases h
  next hmarkers =>
      split at h
      next hend =>
          obtain rfl := Except.ok.inj h
          have hm : result.1.markers = [] := List.head?_eq_none_iff.1 hmarkers
          have hread := (hsound hm).skipBlanks
          obtain ⟨depth, word, hdepth, hderives, blanks, hblanks, htext⟩ := hread.derived
          have hnodes : result.2.nodes = 0 + result.1.size := (hsound hm).nodes
          have hwithin := (hsound hm).within
          exact ⟨depth, word, blanks, _, hdepth, hderives, by omega, hblanks, htext, hend⟩
      next => cases h

end MessageCatalog.Plural
