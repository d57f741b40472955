import MessageCatalog.Proofs.Plural.Soundness

set_option autoImplicit false

/-! # What is derived is read

A rule of `parse` at a word of its nonterminal reads the whole word and returns the tree of the
derivation, provided that what follows the word could not go on with it (`Stops`). A reader skips
blanks before it looks at a byte, so two cursors count as one place if only blanks lie between them.
-/

namespace MessageCatalog.Plural

variable {outer depth : Nat} {s : Nonterminal} {l : Level} {operand nested : Reader}
variable {word left right sign text : Bytes} {e lhs rhs : Expr} {op : Operator} {c c' : Cursor}

/-! ## Where a word ends -/

/-- A text that does not go on with a word of the nonterminal in front of it. -/
inductive Stops (text : Bytes) : Nonterminal → Prop
  | atom (h : text.head?.any Bytes.isDigit = false) : Stops text .atom
  | level {l : Level} (h : Stops text l.operand) (hop : l.operator? text = none) :
      Stops text (.level l)
  | ternary (h : Stops text (.level .condition)) (hquestion : text.head? ≠ some 63) :
      Stops text .ternary

/-- A byte that ends a `ternary`: a closing parenthesis, a colon, or a terminator. -/
def isEnd (b : UInt8) : Bool := b == 41 || b == 58 || isTerminator b

theorem stops_ternary (h : text.head?.all isEnd = true) : Stops text .ternary := by
  cases text with
  | nil =>
      exact .ternary (.level (.level (.level (.level (.atom rfl) rfl) rfl) rfl) rfl) nofun
  | cons b rest =>
      have hb : b = 41 ∨ b = 58 ∨ b = 59 ∨ b = 13 ∨ b = 10 := by
        simpa [isEnd, isTerminator, or_assoc] using h
      rcases hb with rfl | rfl | rfl | rfl | rfl
      all_goals
        exact .ternary (.level (.level (.level (.level (.atom rfl) rfl) rfl) rfl) rfl) (by simp)

theorem stops_question (rest : Bytes) : Stops (63 :: rest) (.level .condition) :=
  .level (.level (.level (.level (.atom rfl) rfl) rfl) rfl) rfl

theorem stops_sign (op : Operator) (rest : Bytes) :
    Stops (op.spelling ++ rest) op.level.operand := by
  cases op with
  | mul | div | rem => exact .atom rfl
  | add | sub => exact .level (.atom rfl) rfl
  | eq | ne | lt | le | gt | ge => exact .level (.level (.atom rfl) rfl) rfl
  | and | or => exact .level (.level (.level (.atom rfl) rfl) rfl) rfl

/-! ## Rules that read what is derived -/

/-- From the one cursor to the other a tree was read, and its nodes were counted. The text goes on
with `rest`, up to blanks. -/
structure After (rest : Bytes) (c : Cursor) (e : Expr) (c' : Cursor) : Prop where
  rest_eq : dropBlanks c'.rest = dropBlanks rest
  nodes_eq : c'.nodes = c.nodes + e.size

/-- The rule reads the word wherever the text behind it allows it. -/
def Reads (reader : Reader) (s : Nonterminal) (word : Bytes) (e : Expr) : Prop :=
  ∀ (c : Cursor) (rest : Bytes), c.rest = word ++ rest → c.nodes + e.size ≤ maxNodes →
    Stops (dropBlanks rest) s → ∃ c', reader c = (e, c') ∧ After rest c e c'

/-- The chain reads the word and is then about to go on. -/
def Resumes (operand : Reader) (l : Level) (word : Bytes) (e : Expr) : Prop :=
  ∀ (c : Cursor) (rest : Bytes), c.rest = word ++ rest → c.nodes + e.size ≤ maxNodes →
    Stops (dropBlanks rest) l.operand → ∃ rounds c',
      chain operand l c = chainFrom operand l rounds e c' ∧ After rest c e c' ∧
        (dropBlanks rest).length ≤ rounds

theorem node_of_le (h : c.nodes + 1 ≤ maxNodes) :
    c.node e = (e, { c with nodes := c.nodes + 1 }) :=
  if_neg (Nat.not_lt.2 h)

/-! ## Chains -/

theorem resumes_operand (h : Reads operand l.operand word e) : Resumes operand l word e := by
  intro c rest hrest hnodes hstops
  obtain ⟨c', hread, hafter⟩ := h c rest hrest hnodes hstops
  refine ⟨c'.rest.length, c', ?_, hafter, ?_⟩
  · unfold chain
    rw [hread]
  · rw [← hafter.rest_eq]
    exact List.length_dropWhile_le _ _

theorem chainFrom_of_none (he : e.isInvalid = false) (hop : l.operator? (dropBlanks c.rest) = none)
    (rounds : Nat) : ∃ c', chainFrom operand l rounds e c = (e, c') ∧
      dropBlanks c'.rest = dropBlanks c.rest ∧ c'.nodes = c.nodes := by
  cases rounds with
  | zero => exact ⟨c, rfl, rfl, rfl⟩
  | succ rounds =>
      refine ⟨c.skipBlanks, ?_, ?_, rfl⟩
      · unfold chainFrom
        rw [if_neg (by simp [he])]
        dsimp only
        rw [rest_skipBlanks, hop]
      · rw [rest_skipBlanks, dropBlanks_dropBlanks]

theorem chainFrom_of_some (hlhs : lhs.isInvalid = false)
    (hop : l.operator? (dropBlanks c.rest) = some (op, op.spelling.length))
    (hread : operand (c.skipBlanks.advance op.spelling.length) = (rhs, c'))
    (hnodes : c'.nodes + 1 ≤ maxNodes) (rounds : Nat) :
    chainFrom operand l (rounds + 1) lhs c =
      chainFrom operand l rounds (.binary op lhs rhs) { c' with nodes := c'.nodes + 1 } := by
  conv => lhs; unfold chainFrom
  rw [if_neg (by simp [hlhs])]
  dsimp only
  rw [rest_skipBlanks, hop]
  dsimp only
  rw [hread]
  dsimp only
  rw [node_of_le hnodes]

theorem Resumes.reads (h : Resumes operand l word e) (he : e.isInvalid = false) :
    Reads (chain operand l) (.level l) word e := by
  intro c rest hrest hnodes hstops
  obtain _ | ⟨hstops, hop⟩ | _ := hstops
  obtain ⟨rounds, c₁, hchain, hafter, -⟩ := h c rest hrest hnodes hstops
  rw [← hafter.rest_eq] at hop
  obtain ⟨c', hread, hrest', hnodes'⟩ := chainFrom_of_none he hop rounds
  exact ⟨c', hchain.trans hread, hrest'.trans hafter.rest_eq, hnodes'.trans hafter.nodes_eq⟩

theorem resumes_operation (hleft : Resumes operand op.level left lhs)
    (hlhs : lhs.isInvalid = false) (hsign : Spaced op.spelling sign)
    (hright : Reads operand op.level.operand right rhs)
    (hne : ∀ rest, (right ++ rest).head? ≠ some 61) :
    Resumes operand op.level (left ++ sign ++ right) (.binary op lhs rhs) := by
  intro c rest hrest hnodes hstops
  have hsize : (Expr.binary op lhs rhs).size = 1 + lhs.size + rhs.size := rfl
  have hdrop := dropBlanks_sign hsign (right ++ rest)
  obtain ⟨rounds, c₁, hchain, hafter, hrounds⟩ :=
    hleft c (sign ++ (right ++ rest)) (by rw [hrest]; simp only [List.append_assoc]) (by omega)
      (by rw [hdrop]; exact stops_sign op _)
  have hplace : dropBlanks c₁.rest = op.spelling ++ (right ++ rest) := hafter.rest_eq.trans hdrop
  have hrest₁ : (c₁.skipBlanks.advance op.spelling.length).rest = right ++ rest :=
    rest_advance ((rest_skipBlanks c₁).trans hplace)
  have hnodes₁ : (c₁.skipBlanks.advance op.spelling.length).nodes = c.nodes + lhs.size :=
    hafter.nodes_eq
  obtain ⟨c₂, hread, hafter'⟩ := hright _ rest hrest₁ (by omega) hstops
  have hnodes₂ := hafter'.nodes_eq
  -- The operator is at least one byte, which pays for the round.
  have hlength : 0 < op.spelling.length := by cases op <;> exact Nat.zero_lt_succ _
  rw [hdrop, List.length_append, List.length_append] at hrounds
  obtain ⟨rounds, rfl⟩ : ∃ more, rounds = more + 1 := ⟨rounds - 1, by omega⟩
  have hop : op.level.operator? (dropBlanks c₁.rest) = some (op, op.spelling.length) := by
    rw [hplace]
    exact operator?_spelling op (hne rest)
  refine ⟨rounds, _, hchain.trans (chainFrom_of_some hlhs hop hread (by omega) rounds),
    ⟨hafter'.rest_eq, ?_⟩, ?_⟩
  · show c₂.nodes + 1 = _
    omega
  · have : (dropBlanks rest).length ≤ rest.length := List.length_dropWhile_le _ _
    omega

/-! ## Atoms -/

theorem rest_skipBlanks_byte {b : UInt8} {rest : Bytes} (h : Spaced [b] word)
    (hb : Cursor.isBlank b = false) (hrest : c.rest = word ++ rest) :
    c.skipBlanks.rest = b :: rest := by
  rw [rest_skipBlanks, hrest, dropBlanks_spaced h hb]
  rfl

theorem reads_number (h : Spaced [110] word) : Reads (atom nested) .atom word .number := by
  intro c rest hrest hnodes _
  have hplace := rest_skipBlanks_byte h rfl hrest
  have htail : (c.skipBlanks.advance 1).rest = rest := rest_advance_one hplace
  refine ⟨{ c.skipBlanks.advance 1 with nodes := c.nodes + 1 }, ?_, congrArg dropBlanks htail, rfl⟩
  unfold atom
  dsimp only
  rw [hplace]
  exact node_of_le hnodes

theorem isBlank_of_isDigit {d : UInt8} (h : Bytes.isDigit d = true) :
    Cursor.isBlank d = false := by
  have h32 : d ≠ 32 := by rintro rfl; exact absurd h (by decide)
  have h9 : d ≠ 9 := by rintro rfl; exact absurd h (by decide)
  simp [Cursor.isBlank, h32, h9]

/-- There is no digit where there is none behind the blanks. -/
theorem any_isDigit_of_dropBlanks {rest : Bytes}
    (h : (dropBlanks rest).head?.any Bytes.isDigit = false) :
    rest.head?.any Bytes.isDigit = false := by
  cases rest with
  | nil => rfl
  | cons b tail =>
      cases hb : Bytes.isDigit b with
      | false => exact hb
      | true =>
          have hblank := isBlank_of_isDigit hb
          rwa [dropBlanks, List.dropWhile_cons_of_neg (by simp [hblank])] at h

theorem takeWhile_isDigit {digits rest : Bytes} (hdigits : ∀ d ∈ digits, Bytes.isDigit d = true)
    (h : rest.head?.any Bytes.isDigit = false) :
    (digits ++ rest).takeWhile Bytes.isDigit = digits := by
  rw [List.takeWhile_append_of_pos hdigits]
  cases rest with
  | nil => simp
  | cons b tail =>
      have hb : Bytes.isDigit b = false := by simpa using h
      rw [List.takeWhile_cons_of_neg (by simp [hb]), List.append_nil]

theorem integer_eq {negative : Bool} {digits rest : Bytes}
    (hdigits : ∀ d ∈ digits, Bytes.isDigit d = true) (hrest : c.rest = digits ++ rest)
    (hend : (dropBlanks rest).head?.any Bytes.isDigit = false) (hnodes : c.nodes + 1 ≤ maxNodes) :
    ∃ c', integer negative c = (.literal (clamp
      (if negative then -(Decimal.value (Bytes.digits digits) : Int)
        else Decimal.value (Bytes.digits digits))), c') ∧
      c'.rest = rest ∧ c'.nodes = c.nodes + 1 := by
  have htake : c.rest.takeWhile Bytes.isDigit = digits := by
    rw [hrest, takeWhile_isDigit hdigits (any_isDigit_of_dropBlanks hend)]
  refine ⟨{ c.advance digits.length with nodes := c.nodes + 1 }, ?_, ?_, rfl⟩
  · unfold integer
    rw [htake]
    dsimp only
    rw [clamp_valueUpTo]
    exact node_of_le hnodes
  · exact rest_advance hrest

theorem atom_of_digit {d : UInt8} {tail : Bytes} (hd : Bytes.isDigit d = true)
    (h : c.skipBlanks.rest = d :: tail) : atom nested c = integer false c.skipBlanks := by
  have h40 : d ≠ 40 := by rintro rfl; exact absurd hd (by decide)
  have h110 : d ≠ 110 := by rintro rfl; exact absurd hd (by decide)
  unfold atom
  dsimp only
  rw [h]
  dsimp only
  rw [if_neg h40, if_neg h110, if_pos hd]

theorem atom_of_minus {tail : Bytes} (htail : tail.head?.any Bytes.isDigit = true)
    (h : c.skipBlanks.rest = 45 :: tail) :
    atom nested c = integer true (c.skipBlanks.advance 1) := by
  unfold atom
  dsimp only
  rw [h]
  exact if_pos (by simpa using htail)

theorem reads_integer {negative : Bool} {digits : Bytes} (hne : digits ≠ [])
    (hdigits : ∀ d ∈ digits, Bytes.isDigit d = true)
    (h : Spaced ((if negative then [45] else []) ++ digits) word) :
    Reads (atom nested) .atom word (.literal (clamp
      (if negative then -(Decimal.value (Bytes.digits digits) : Int)
        else Decimal.value (Bytes.digits digits)))) := by
  intro c rest hrest hnodes hstops
  obtain ⟨hend⟩ | _ | _ := hstops
  obtain ⟨d, tail, rfl⟩ := List.exists_cons_of_ne_nil hne
  have hd : Bytes.isDigit d = true := hdigits d List.mem_cons_self
  have hread : ∃ c₁ : Cursor, atom nested c = integer negative c₁ ∧
      c₁.rest = (d :: tail) ++ rest ∧ c₁.nodes = c.nodes := by
    cases negative with
    | false =>
        have hplace : c.skipBlanks.rest = d :: (tail ++ rest) := by
          rw [rest_skipBlanks, hrest, dropBlanks_spaced h (isBlank_of_isDigit hd)]
        exact ⟨_, atom_of_digit hd hplace, hplace, rfl⟩
    | true =>
        have hplace : c.skipBlanks.rest = 45 :: ((d :: tail) ++ rest) := by
          rw [rest_skipBlanks, hrest, dropBlanks_spaced h rfl]
          rfl
        exact ⟨_, atom_of_minus (by simpa using hd) hplace, rest_advance_one hplace, rfl⟩
  obtain ⟨c₁, hatom, hrest₁, hnodes₁⟩ := hread
  obtain ⟨c', hinteger, hrest', hnodes'⟩ :=
    integer_eq hdigits hrest₁ hend (by rw [hnodes₁]; exact hnodes)
  exact ⟨c', hatom.trans hinteger, congrArg dropBlanks hrest', by rw [hnodes', hnodes₁]; rfl⟩

theorem reads_parentheses {opening inner closing : Bytes}
    (hnested : Reads nested .ternary inner e) (he : e.isInvalid = false)
    (hopening : Spaced [40] opening) (hclosing : Spaced [41] closing) :
    Reads (atom nested) .atom (opening ++ inner ++ closing) e := by
  intro c rest hrest hnodes _
  have hplace : c.skipBlanks.rest = 40 :: (inner ++ (closing ++ rest)) :=
    rest_skipBlanks_byte hopening rfl (by rw [hrest]; simp only [List.append_assoc])
  have hdrop : dropBlanks (closing ++ rest) = 41 :: rest := dropBlanks_spaced hclosing rfl
  obtain ⟨c₁, hread, hafter⟩ := hnested _ (closing ++ rest) (rest_advance_one hplace) hnodes
    (by rw [hdrop]; exact stops_ternary rfl)
  have hplace₁ : c₁.skipBlanks.rest = 41 :: rest := by
    rw [rest_skipBlanks, hafter.rest_eq, hdrop]
  refine ⟨c₁.skipBlanks.advance 1, ?_, congrArg dropBlanks (rest_advance_one hplace₁),
    hafter.nodes_eq⟩
  unfold atom
  dsimp only
  rw [hplace]
  dsimp only
  rw [if_pos rfl, hread]
  dsimp only
  rw [if_neg (by simp [he]), hplace₁]
  rfl

/-! ## Conditionals -/

theorem reads_plain (h : Reads (condition (ternary outer)) (.level .condition) word e) :
    Reads (ternary (outer + 1)) .ternary word e := by
  intro c rest hrest hnodes hstops
  obtain _ | _ | ⟨hstops, hquestion⟩ := hstops
  obtain ⟨c₁, hread, hafter⟩ := h c rest hrest hnodes hstops
  refine ⟨c₁.skipBlanks, ?_, ?_, hafter.nodes_eq⟩
  · unfold ternary
    dsimp only
    rw [hread]
    dsimp only
    rw [rest_skipBlanks, hafter.rest_eq, if_neg hquestion]
  · rw [rest_skipBlanks, dropBlanks_dropBlanks, hafter.rest_eq]

theorem reads_conditional {first question second colon third : Bytes}
    {cond ifTrue ifFalse : Expr}
    (hcondition : Reads (condition (ternary outer)) (.level .condition) first cond)
    (hquestion : Spaced [63] question) (hifTrue : Reads (ternary outer) .ternary second ifTrue)
    (hcolon : Spaced [58] colon) (hifFalse : Reads (ternary outer) .ternary third ifFalse) :
    Reads (ternary (outer + 1)) .ternary (first ++ question ++ second ++ colon ++ third)
      (.conditional cond ifTrue ifFalse) := by
  intro c rest hrest hnodes hstops
  have hsize : (Expr.conditional cond ifTrue ifFalse).size =
      1 + cond.size + ifTrue.size + ifFalse.size := rfl
  have hdrop : dropBlanks (question ++ (second ++ (colon ++ (third ++ rest)))) =
      63 :: (second ++ (colon ++ (third ++ rest))) := dropBlanks_spaced hquestion rfl
  have hdrop' : dropBlanks (colon ++ (third ++ rest)) = 58 :: (third ++ rest) :=
    dropBlanks_spaced hcolon rfl
  obtain ⟨c₁, hread₁, hafter₁⟩ := hcondition c (question ++ (second ++ (colon ++ (third ++ rest))))
    (by rw [hrest]; simp only [List.append_assoc]) (by omega)
    (by rw [hdrop]; exact stops_question _)
  have hplace₁ : c₁.skipBlanks.rest = 63 :: (second ++ (colon ++ (third ++ rest))) := by
    rw [rest_skipBlanks, hafter₁.rest_eq, hdrop]
  have hnodes₁ : (c₁.skipBlanks.advance 1).nodes = c.nodes + cond.size := hafter₁.nodes_eq
  obtain ⟨c₂, hread₂, hafter₂⟩ := hifTrue _ (colon ++ (third ++ rest)) (rest_advance_one hplace₁)
    (by omega) (by rw [hdrop']; exact stops_ternary rfl)
  have hplace₂ : c₂.skipBlanks.rest = 58 :: (third ++ rest) := by
    rw [rest_skipBlanks, hafter₂.rest_eq, hdrop']
  have hnodes₂ : (c₂.skipBlanks.advance 1).nodes = c.nodes + cond.size + ifTrue.size := by
    rw [← hnodes₁]
    exact hafter₂.nodes_eq
  obtain ⟨c₃, hread₃, hafter₃⟩ := hifFalse _ rest (rest_advance_one hplace₂) (by omega) hstops
  have hnodes₃ := hafter₃.nodes_eq
  have hwithin : c₃.nodes + 1 ≤ maxNodes := by omega
  refine ⟨{ c₃ with nodes := c₃.nodes + 1 }, ?_, hafter₃.rest_eq, ?_⟩
  · unfold ternary
    dsimp only
    rw [hread₁]
    dsimp only
    rw [if_pos (by rw [hplace₁]; rfl), hread₂]
    dsimp only
    rw [if_pos (by rw [hplace₂]; rfl), hread₃]
    exact node_of_le hwithin
  · show c₃.nodes + 1 = _
    omega

/-! ## Every derivation -/

/-- The rule for a nonterminal where `ternary` may nest `outer` more times. -/
def readerOf (outer : Nat) : Nonterminal → Reader
  | .ternary => ternary outer
  | .level .condition => condition (ternary outer)
  | .level .comparison => chain (chain (chain (atom (ternary outer)) .factor) .summand) .comparison
  | .level .summand => chain (chain (atom (ternary outer)) .factor) .summand
  | .level .factor => chain (atom (ternary outer)) .factor
  | .atom => atom (ternary outer)

theorem readerOf_ternary (outer : Nat) : readerOf outer .ternary = ternary outer := rfl

theorem readerOf_level (outer : Nat) (l : Level) :
    readerOf outer (.level l) = chain (readerOf outer l.operand) l := by
  cases l <;> rfl

/-- A chain is read as far as it has been derived, because the derivation of a longer chain goes on
from there. -/
theorem Derives.reads (h : Derives s depth word e) (hdepth : depth ≤ outer) :
    Reads (readerOf outer s) s word e ∧
      ∀ l, s = .level l → Resumes (readerOf outer l.operand) l word e := by
  induction h generalizing outer with
  | number h => exact ⟨reads_number h, nofun⟩
  | integer negative hne hdigits h => exact ⟨reads_integer hne hdigits h, nofun⟩
  | parentheses hopening hinner hclosing ih =>
      have hvalid := isInvalid_eq_false hinner.markers_eq_nil
      exact ⟨reads_parentheses (ih hdepth).1 hvalid hopening hclosing, nofun⟩
  | @operand l _ _ _ h ih =>
      have hvalid := isInvalid_eq_false h.markers_eq_nil
      have hresumes := resumes_operand (ih hdepth).1
      rw [readerOf_level]
      refine ⟨hresumes.reads hvalid, ?_⟩
      rintro _ ⟨⟩
      exact hresumes
  | @operation op _ _ _ _ _ _ _ hleft hsign hright ihl ihr =>
      obtain ⟨hi, hj⟩ := Nat.max_le.1 hdepth
      have hvalid := isInvalid_eq_false hleft.markers_eq_nil
      have hresumes := resumes_operation ((ihl hi).2 op.level rfl) hvalid hsign (ihr hj).1
        hright.head?_ne
      rw [readerOf_level]
      refine ⟨hresumes.reads rfl, ?_⟩
      rintro _ ⟨⟩
      exact hresumes
  | plain h ih =>
      obtain ⟨outer, rfl⟩ : ∃ more, outer = more + 1 := ⟨outer - 1, by omega⟩
      have hcondition : Reads (condition (ternary outer)) (.level .condition) _ _ :=
        (ih (Nat.le_of_succ_le_succ hdepth)).1
      rw [readerOf_ternary]
      exact ⟨reads_plain hcondition, nofun⟩
  | conditional _ hquestion _ hcolon _ ihc iht ihf =>
      obtain ⟨outer, rfl⟩ : ∃ more, outer = more + 1 := ⟨outer - 1, by omega⟩
      obtain ⟨hi, hjk⟩ := Nat.max_le.1 (Nat.le_of_succ_le_succ hdepth)
      obtain ⟨hj, hk⟩ := Nat.max_le.1 hjk
      have hcondition : Reads (condition (ternary outer)) (.level .condition) _ _ := (ihc hi).1
      have hifTrue : Reads (ternary outer) .ternary _ _ := (iht hj).1
      have hifFalse : Reads (ternary outer) .ternary _ _ := (ihf hk).1
      rw [readerOf_ternary]
      exact ⟨reads_conditional hcondition hquestion hifTrue hcolon hifFalse, nofun⟩

theorem Derives.reads_ternary (h : Derives .ternary depth word e) (hdepth : depth ≤ outer) :
    Reads (ternary outer) .ternary word e := (h.reads hdepth).1

/-- A word of the grammar is accepted if blanks and then a terminator or the end follow it. -/
theorem parse_of_derives {blanks rest : Bytes} (hdepth : depth ≤ maxDepth)
    (h : Derives .ternary depth word e) (hsize : e.size ≤ maxNodes)
    (hblanks : ∀ b ∈ blanks, Cursor.isBlank b = true) (hend : rest.head?.all isTerminator = true) :
    parse (word ++ (blanks ++ rest)) = .ok e := by
  have hdrop : dropBlanks (blanks ++ rest) = rest := by
    rw [dropBlanks_append hblanks]
    cases rest with
    | nil => rfl
    | cons b tail =>
        have hb : b = 59 ∨ b = 13 ∨ b = 10 := by simpa [isTerminator, or_assoc] using hend
        rcases hb with rfl | rfl | rfl <;> rfl
  have hstops : Stops rest .ternary := by
    refine stops_ternary ?_
    cases rest with
    | nil => rfl
    | cons b tail =>
        have hb : isTerminator b = true := hend
        simp [isEnd, hb]
  obtain ⟨c, hread, hafter⟩ := h.reads_ternary hdepth (.start _) (blanks ++ rest) rfl
    (by show 0 + e.size ≤ maxNodes; omega) (by rw [hdrop]; exact hstops)
  have hmarkers : e.markers.head? = none := by rw [h.markers_eq_nil]; rfl
  have hplace : c.skipBlanks.rest = rest := by
    rw [rest_skipBlanks, hafter.rest_eq, hdrop]
  rw [parse_eq, hread]
  dsimp only
  rw [hmarkers, hplace]
  exact if_pos hend

/-! ## Exactly the grammar -/

/-- `parse` accepts the words of the grammar, with blanks and a terminator or the end behind them,
whose derivations keep within the limits, and its answer is the tree of the derivation. -/
theorem parse_eq_ok_iff (text : Bytes) (e : Expr) :
    parse text = .ok e ↔ ∃ depth word blanks rest, depth ≤ maxDepth ∧
      Derives .ternary depth word e ∧ e.size ≤ maxNodes ∧
      (∀ b ∈ blanks, Cursor.isBlank b = true) ∧ text = word ++ (blanks ++ rest) ∧
      rest.head?.all isTerminator = true := by
  constructor
  · exact exists_derives_of_parse
  · rintro ⟨depth, word, blanks, rest, hdepth, hderives, hsize, hblanks, rfl, hend⟩
    exact parse_of_derives hdepth hderives hsize hblanks hend

end MessageCatalog.Plural
