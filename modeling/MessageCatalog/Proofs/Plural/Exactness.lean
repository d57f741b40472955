import Mathlib.Algebra.Group.Nat.Defs
import MessageCatalog.Plural.Expr

set_option autoImplicit false

/-! # Expressions over all integers

The value of an expression is a 32-bit word, and arithmetic on words wraps. `Expr.evalExact` is the
evaluation without words: over all integers, where a division by zero has no value, and with a list
of the values that are computed on the way. As long as these fit into words the two evaluations
agree (`toInt_eval_exact`). A subexpression that is not evaluated has no part in either of them: the
second operand of a logical operator if the first one decides, and the branch of a conditional that
is not taken.
-/

namespace MessageCatalog.Plural

/-- A number that fits into a 32-bit word. -/
def InRange (v : Int) : Prop := -2147483648 ≤ v ∧ v ≤ 2147483647

instance (v : Int) : Decidable (InRange v) := inferInstanceAs (Decidable (_ ∧ _))

/-! ## Evaluation over all integers -/

/-- What keeps an expression from having a value over all integers. -/
inductive Obstacle
  | divisionByZero
  | marker (m : Marker)
  deriving Repr, DecidableEq

/-- A truth value as an integer. -/
def exactTruth (b : Bool) : Int := if b then 1 else 0

namespace Operator

/-- What a logical operator comes to if its first operand decides. -/
def settled? (op : Operator) (l : Int) : Option Int :=
  match op with
  | and => if l = 0 then some 0 else none
  | or => if l = 0 then none else some 1
  | _ => none

/-- The value of the operator for two integers. A quotient is truncated towards zero, and a
remainder has the sign of the dividend. -/
def applyExact (op : Operator) (l r : Int) : Except Obstacle Int :=
  match op with
  | add => .ok (l + r)
  | sub => .ok (l - r)
  | mul => .ok (l * r)
  | div => if r = 0 then .error .divisionByZero else .ok (l.tdiv r)
  | rem => if r = 0 then .error .divisionByZero else .ok (l.tmod r)
  | eq => .ok (exactTruth (l = r))
  | ne => .ok (exactTruth (l ≠ r))
  | lt => .ok (exactTruth (l < r))
  | le => .ok (exactTruth (l ≤ r))
  | gt => .ok (exactTruth (r < l))
  | ge => .ok (exactTruth (r ≤ l))
  | and => .ok (exactTruth (l ≠ 0 ∧ r ≠ 0))
  | or => .ok (exactTruth (l ≠ 0 ∨ r ≠ 0))

end Operator

/-- An evaluation over all integers: the value, and the values of all subexpressions that were
evaluated for it, the value itself included. -/
structure Evaluation where
  value : Int
  computed : List Int
  deriving Repr, DecidableEq

/-- The evaluation of an expression over all integers. -/
def Expr.evalExact (n : Int) : Expr → Except Obstacle Evaluation
  | literal value => .ok ⟨value.toInt, [value.toInt]⟩
  | number => .ok ⟨n, [n]⟩
  | binary op lhs rhs => do
      let l ← lhs.evalExact n
      match op.settled? l.value with
      | some v => pure ⟨v, l.computed ++ [v]⟩
      | none => do
          let r ← rhs.evalExact n
          let v ← op.applyExact l.value r.value
          pure ⟨v, l.computed ++ r.computed ++ [v]⟩
  | conditional condition ifTrue ifFalse => do
      let c ← condition.evalExact n
      let branch ← (if c.value = 0 then ifFalse.evalExact n else ifTrue.evalExact n)
      pure ⟨branch.value, c.computed ++ branch.computed⟩
  | invalid m => .error (.marker m)

/-! ## Operators on words -/

variable {l r : Int32} {v : Int} {op : Operator}

theorem InRange.bmod_eq (h : InRange v) : v.bmod (2 ^ 32) = v := by
  obtain ⟨hlower, hupper⟩ := h
  exact Int.bmod_eq_of_le (by omega) (by omega)

theorem toInt_eq_zero_iff : l.toInt = 0 ↔ l = 0 := Int32.toInt_inj (y := 0)

/-- A truth value is the same number as a word and as an integer. -/
theorem toInt_truth {p q : Prop} [Decidable p] [Decidable q] (h : q ↔ p) :
    (truth p).toInt = exactTruth q := by
  by_cases hp : p
  · rw [decide_eq_true hp, decide_eq_true (h.2 hp)]
    rfl
  · rw [decide_eq_false hp, decide_eq_false (mt h.1 hp)]
    rfl

/-- An operator on words is exact if its value fits into a word. -/
theorem toInt_apply (h : op.applyExact l.toInt r.toInt = .ok v) (hv : InRange v) :
    (op.apply l r).toInt = v := by
  cases op with
  | add =>
      cases h
      rw [Operator.apply, Int32.toInt_add, hv.bmod_eq]
  | sub =>
      cases h
      rw [Operator.apply, Int32.toInt_sub, hv.bmod_eq]
  | mul =>
      cases h
      rw [Operator.apply, Int32.toInt_mul, hv.bmod_eq]
  | div =>
      rw [Operator.applyExact] at h
      split at h
      next => cases h
      next hr =>
        cases h
        rw [Operator.apply, if_neg (mt toInt_eq_zero_iff.2 hr), Int32.toInt_div, hv.bmod_eq]
  | rem =>
      rw [Operator.applyExact] at h
      split at h
      next => cases h
      next hr =>
        cases h
        rw [Operator.apply, if_neg (mt toInt_eq_zero_iff.2 hr), Int32.toInt_mod]
  | eq => cases h; exact toInt_truth Int32.toInt_inj
  | ne => cases h; exact toInt_truth (not_congr Int32.toInt_inj)
  | lt => cases h; exact toInt_truth Int32.lt_iff_toInt_lt.symm
  | le => cases h; exact toInt_truth Int32.le_iff_toInt_le.symm
  | gt => cases h; exact toInt_truth Int32.lt_iff_toInt_lt.symm
  | ge => cases h; exact toInt_truth Int32.le_iff_toInt_le.symm
  | and =>
      cases h
      exact toInt_truth (and_congr (not_congr toInt_eq_zero_iff) (not_congr toInt_eq_zero_iff))
  | or =>
      cases h
      exact toInt_truth (or_congr (not_congr toInt_eq_zero_iff) (not_congr toInt_eq_zero_iff))

/-! ## Evaluations step by step -/

section

variable {α β : Type} {x : Except Obstacle α} {f : α → Except Obstacle β} {m : Marker}

theorem exists_of_bind_eq_ok {b : β} (h : x >>= f = .ok b) : ∃ a, x = .ok a ∧ f a = .ok b := by
  cases x with
  | ok a => exact ⟨a, rfl, h⟩
  | error o => cases h

theorem bind_ne_marker (hx : x ≠ .error (.marker m)) (hf : ∀ a, f a ≠ .error (.marker m)) :
    x >>= f ≠ .error (.marker m) := by
  cases x with
  | ok a => exact hf a
  | error o => exact fun h => hx (congrArg Except.error (Except.error.inj h))

theorem pure_ne_marker (a : α) (m : Marker) : (pure a : Except Obstacle α) ≠ .error (.marker m) :=
  nofun

theorem applyExact_ne_marker (op : Operator) (l r : Int) (m : Marker) :
    op.applyExact l r ≠ .error (.marker m) := by
  cases op with
  | div | rem =>
      rw [Operator.applyExact]
      split <;> nofun
  | _ => nofun

end

/-! ## Expressions on words -/

namespace Expr

variable {n : Int32}

/-- A binary expression looks at its second operand only if the first one does not decide. -/
theorem toInt_eval_binary (n : Int32) (op : Operator) (lhs rhs : Expr) :
    ((binary op lhs rhs).eval n).toInt =
      (op.settled? (lhs.eval n).toInt).getD (op.apply (lhs.eval n) (rhs.eval n)).toInt := by
  cases op with
  | and =>
      by_cases hzero : lhs.eval n = 0
      · rw [eval, if_pos hzero, Operator.settled?, if_pos (toInt_eq_zero_iff.2 hzero)]
        rfl
      · rw [eval, if_neg hzero, Operator.settled?, if_neg (mt toInt_eq_zero_iff.1 hzero),
          Option.getD_none, Operator.apply]
        simp only [ne_eq, hzero, not_false_eq_true, true_and]
  | or =>
      by_cases hzero : lhs.eval n = 0
      · rw [eval, if_pos hzero, Operator.settled?, if_pos (toInt_eq_zero_iff.2 hzero),
          Option.getD_none, Operator.apply]
        simp only [ne_eq, hzero, not_true_eq_false, false_or]
      · rw [eval, if_neg hzero, Operator.settled?, if_neg (mt toInt_eq_zero_iff.1 hzero)]
        rfl
  | _ => rfl

/-- The two evaluations agree as long as what is computed on the way fits into words. -/
theorem toInt_eval_of_evalExact {e : Expr} {ev : Evaluation} (h : e.evalExact n.toInt = .ok ev)
    (hrange : ∀ v ∈ ev.computed, InRange v) : (e.eval n).toInt = ev.value := by
  -- What a subexpression computes is on the list of the whole expression, so it fits too.
  induction e generalizing ev with
  | literal value => cases h; rfl
  | number => cases h; rfl
  | binary op lhs rhs ihl ihr =>
      obtain ⟨l, hl, h⟩ := exists_of_bind_eq_ok h
      cases hsettled : op.settled? l.value with
      | some v =>
          rw [hsettled] at h
          cases h
          have hlvalue := ihl hl fun w hw => hrange w (List.mem_append_left _ hw)
          rw [toInt_eval_binary, hlvalue, hsettled, Option.getD_some]
      | none =>
          rw [hsettled] at h
          obtain ⟨r, hr, h⟩ := exists_of_bind_eq_ok h
          obtain ⟨v, hv, h⟩ := exists_of_bind_eq_ok h
          cases h
          have hlvalue := ihl hl fun w hw =>
            hrange w (List.mem_append_left _ (List.mem_append_left _ hw))
          have hrvalue := ihr hr fun w hw =>
            hrange w (List.mem_append_left _ (List.mem_append_right _ hw))
          rw [toInt_eval_binary, hlvalue, hsettled, Option.getD_none]
          rw [← hlvalue, ← hrvalue] at hv
          exact toInt_apply hv (hrange v (List.mem_append_right _ (List.mem_singleton_self v)))
  | conditional condition ifTrue ifFalse ihc iht ihf =>
      obtain ⟨c, hc, h⟩ := exists_of_bind_eq_ok h
      obtain ⟨branch, hbranch, h⟩ := exists_of_bind_eq_ok h
      cases h
      have hcvalue := ihc hc fun w hw => hrange w (List.mem_append_left _ hw)
      have hbrange : ∀ v ∈ branch.computed, InRange v := fun w hw =>
        hrange w (List.mem_append_right _ hw)
      -- Both evaluations take the same branch, since the condition has the same value in both.
      by_cases hzero : condition.eval n = 0
      · rw [if_pos (hcvalue.symm.trans (toInt_eq_zero_iff.2 hzero))] at hbranch
        rw [eval, if_pos hzero, ihf hbranch hbrange]
      · rw [if_neg fun h => hzero (toInt_eq_zero_iff.1 (hcvalue.trans h))] at hbranch
        rw [eval, if_neg hzero, iht hbranch hbrange]
  | invalid m => cases h

/-- In a tree without markers no evaluation comes to one. -/
theorem evalExact_ne_marker {e : Expr} (h : e.markers = []) (n : Int) (m : Marker) :
    e.evalExact n ≠ .error (.marker m) := by
  induction e with
  | literal value => nofun
  | number => nofun
  | binary op lhs rhs ihl ihr =>
      obtain ⟨hl, hr⟩ := List.append_eq_nil_iff.1 h
      refine bind_ne_marker (ihl hl) fun l => ?_
      cases op.settled? l.value with
      | some v => exact pure_ne_marker _ m
      | none =>
          exact bind_ne_marker (ihr hr) fun r =>
            bind_ne_marker (applyExact_ne_marker op _ _ m) fun v => pure_ne_marker _ m
  | conditional condition ifTrue ifFalse ihc iht ihf =>
      obtain ⟨hcond, hf⟩ := List.append_eq_nil_iff.1 h
      obtain ⟨hc, ht⟩ := List.append_eq_nil_iff.1 hcond
      refine bind_ne_marker (ihc hc) fun c => bind_ne_marker ?_ fun branch => pure_ne_marker _ m
      split
      · exact ihf hf
      · exact iht ht
  | invalid marker => cases h

end Expr

/-- **Exact unless it must wrap.** A tree without markers has a value over all integers for every
number for which no division by zero comes up, and if all that is computed on the way to it fits
into words then this is its value on words. -/
theorem toInt_eval_exact (e : Expr) (n : Int32) (hmarkers : e.markers = [])
    (hdivides : e.evalExact n.toInt ≠ .error .divisionByZero) :
    ∃ ev, e.evalExact n.toInt = .ok ev ∧
      ((∀ v ∈ ev.computed, InRange v) → (e.eval n).toInt = ev.value) := by
  cases h : e.evalExact n.toInt with
  | ok ev => exact ⟨ev, rfl, Expr.toInt_eval_of_evalExact h⟩
  | error o =>
      cases o with
      | divisionByZero => exact absurd h hdivides
      | marker m => exact absurd h (Expr.evalExact_ne_marker hmarkers _ m)

/-- `n && 1 / 0 ? 2147483647 + 1 : -7 % 3`, where `n` is zero: neither the division by zero nor the
sum that does not fit is evaluated. -/
def unevaluated : Expr :=
  .conditional (.binary .and .number (.binary .div (.literal 1) (.literal 0)))
    (.binary .add (.literal Int32.maxValue) (.literal 1))
    (.binary .rem (.literal (-7)) (.literal 3))

theorem toInt_eval_exact_unevaluated :
    unevaluated.markers = [] ∧
      unevaluated.evalExact (0 : Int32).toInt = .ok ⟨-1, [0, 0, -7, 3, -1]⟩ ∧
      (∀ v ∈ [0, 0, -7, 3, -1], InRange v) ∧ (unevaluated.eval 0).toInt = -1 := by
  have hmarkers : unevaluated.markers = [] := rfl
  have hexact : unevaluated.evalExact (0 : Int32).toInt = .ok ⟨-1, [0, 0, -7, 3, -1]⟩ := rfl
  have hrange : ∀ v ∈ [0, 0, -7, 3, -1], InRange v := by decide
  obtain ⟨ev, hev, hvalue⟩ := toInt_eval_exact unevaluated 0 hmarkers (by rw [hexact]; nofun)
  obtain rfl := Except.ok.inj (hexact.symm.trans hev)
  exact ⟨hmarkers, hexact, hrange, hvalue hrange⟩

end MessageCatalog.Plural
