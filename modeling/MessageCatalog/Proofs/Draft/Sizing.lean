import MessageCatalog.Proofs.Draft.File

set_option autoImplicit false

/-! # Sizing the hash table

The size of a hash table is searched for by two loops without a bound: trial division goes on until
the square of the divisor is above the number, and the search for a prime goes on until there is
one. `Decides` and `Reaches` are these loops, in words below some limit in which no product and no
sum may overflow. Both end (`decides_noDivisorFrom`, `reaches_leastOddPrime`), since there is a
prime before the double of the number that the search starts from, and the square root of anything
up to there is far from the limit. `isLeast_tableSize` says which prime is found, and what follows
from it for the table.
-/

namespace MessageCatalog.Mo

/-! ## The loops -/

/-- Trial division of `n` from a divisor on, in words below `limit`: whether no divisor is found. -/
inductive Decides (limit n : Nat) : Nat → Bool → Prop
  | above {d : Nat} (hfits : d * d < limit) (h : n < d * d) : Decides limit n d true
  | divides {d : Nat} (hfits : d * d < limit) (hle : d * d ≤ n) (h : n % d = 0) :
      Decides limit n d false
  | next {d : Nat} {b : Bool} (hfits : d * d < limit) (hle : d * d ≤ n) (h : n % d ≠ 0)
      (hrest : Decides limit n (d + 1) b) : Decides limit n d b

/-- The test whether a number is prime. -/
inductive Tests (limit n : Nat) : Bool → Prop
  | small (h : n < 2) : Tests limit n false
  | large {b : Bool} (h : 2 ≤ n) (hdecides : Decides limit n 2 b) : Tests limit n b

/-- The search for a prime in steps of two. -/
inductive Reaches (limit : Nat) : Nat → Nat → Prop
  | prime {n : Nat} (h : Tests limit n true) : Reaches limit n n
  | next {n p : Nat} (h : Tests limit n false) (hfits : n + 2 < limit)
      (hrest : Reaches limit (n + 2) p) : Reaches limit n p

/-- The whole computation of a size: the search starts from an odd number that is not below four
thirds of the count. -/
def Sizes (limit count size : Nat) : Prop :=
  count * 4 < limit ∧ ∃ p, Reaches limit ((count * 4 / 3) ||| 1) p ∧ size = max p 3

variable {limit n d fuel : Nat}

/-! ## They come to one result -/

theorem Decides.unique {b b' : Bool} (h : Decides limit n d b) (h' : Decides limit n d b') :
    b = b' := by
  induction h with
  | above _ habove =>
      cases h' with
      | above => rfl
      | divides _ hle _ => omega
      | next _ hle _ _ => omega
  | divides _ hle hdvd =>
      cases h' with
      | above _ habove => omega
      | divides => rfl
      | next _ _ hne _ => exact absurd hdvd hne
  | next _ hle hne _ ih =>
      cases h' with
      | above _ habove => omega
      | divides _ _ hdvd => exact absurd hdvd hne
      | next _ _ _ hrest => exact ih hrest

theorem Tests.unique {b b' : Bool} (h : Tests limit n b) (h' : Tests limit n b') : b = b' := by
  cases h with
  | small hsmall =>
      cases h' with
      | small => rfl
      | large hlarge _ => omega
  | large hlarge hdecides =>
      cases h' with
      | small hsmall => omega
      | large _ hdecides' => exact hdecides.unique hdecides'

theorem Reaches.unique {p q : Nat} (h : Reaches limit n p) (h' : Reaches limit n q) : p = q := by
  induction h with
  | prime htrue =>
      cases h' with
      | prime => rfl
      | next hfalse _ _ => exact absurd (htrue.unique hfalse) Bool.noConfusion
  | next hfalse _ _ ih =>
      cases h' with
      | prime htrue => exact absurd (htrue.unique hfalse) Bool.noConfusion
      | next _ _ hrest => exact ih hrest

/-! ## They end -/

/-- Trial division ends, and nothing overflows if the square that follows a square up to `n`
fits. -/
theorem decides_noDivisorFrom (hfuel : n < fuel + d) (hsquare : d * d < limit)
    (hnext : ∀ d, d * d ≤ n → (d + 1) * (d + 1) < limit) :
    Decides limit n d (noDivisorFrom n fuel d) := by
  induction fuel generalizing d with
  | zero =>
      have := Nat.le_mul_self d
      exact .above hsquare (by omega)
  | succ fuel ih =>
      unfold noDivisorFrom
      by_cases habove : d * d > n
      · rw [if_pos habove]
        exact .above hsquare habove
      · have hle : d * d ≤ n := Nat.le_of_not_lt habove
        rw [if_neg habove]
        by_cases hdvd : n % d = 0
        · rw [if_pos hdvd]
          exact .divides hsquare hle hdvd
        · rw [if_neg hdvd]
          exact .next hsquare hle hdvd (ih (by omega) (hnext d hle))

theorem tests_isPrime (hlimit : 4 < limit) (hnext : ∀ d, d * d ≤ n → (d + 1) * (d + 1) < limit) :
    Tests limit n (isPrime n) := by
  unfold isPrime
  by_cases h : 2 ≤ n
  · rw [decide_eq_true h, Bool.true_and]
    exact .large h (decides_noDivisorFrom (by omega) (by omega) hnext)
  · rw [decide_eq_false h, Bool.false_and]
    exact .small (by omega)

/-- The search for a prime ends if there is one ahead and every test on the way to it does. -/
theorem reaches_primeFrom {p : Nat} (hp : p.Prime) (hn : n ≤ p) (hpar : p % 2 = n % 2)
    (hfuel : p ≤ n + 2 * fuel) (hfits : p < limit)
    (htests : ∀ m ≤ p, Tests limit m (isPrime m)) : Reaches limit n (primeFrom fuel n) := by
  induction fuel generalizing n with
  | zero =>
      obtain rfl : p = n := by omega
      have htest := htests p (Nat.le_refl p)
      rw [(isPrime_iff p).2 hp] at htest
      exact .prime htest
  | succ fuel ih =>
      have htest := htests n hn
      unfold primeFrom
      cases hprime : isPrime n with
      | true =>
          rw [hprime] at htest
          exact .prime htest
      | false =>
          rw [hprime] at htest
          have hne : p ≠ n := by
            rintro rfl
            rw [(isPrime_iff p).2 hp] at hprime
            cases hprime
          exact .next htest (by omega) (ih (by omega) (by omega) (by omega))

/-- Up to two thirds of a limit, the square behind the square root is far from the limit. -/
theorem succ_mul_succ_lt (hlimit : 2 ^ 16 ≤ limit) (hn : 3 * n ≤ 2 * limit + 7) (h : d * d ≤ n) :
    (d + 1) * (d + 1) < limit := by
  by_contra hge
  -- The next square is less than half as large again, unless the divisor is very small.
  have hsquare : (d + 1) * (d + 1) = d * d + 2 * d + 1 := by ring
  have hsmall : d < 6 := by
    by_contra hd
    have := Nat.mul_le_mul_right d (Nat.le_of_not_lt hd)
    omega
  have := Nat.mul_le_mul (Nat.le_of_lt hsmall) (Nat.le_of_lt hsmall)
  omega

theorem or_one (n : Nat) : n ||| 1 = if n % 2 = 0 then n + 1 else n := by
  have hhalf : (n ||| 1) / 2 = n / 2 := by rw [Nat.or_div_two]; simp
  have hodd : (n ||| 1) % 2 = 1 := Nat.or_mod_two_eq_one.2 (.inr rfl)
  split <;> omega

theorem reaches_leastOddPrime {seed : Nat} (hlimit : 2 ^ 16 ≤ limit) (hseed : 3 * seed < limit) :
    Reaches limit (seed ||| 1) (leastOddPrime seed) := by
  have hstart : (seed ||| 1) % 2 = 1 ∧ seed ||| 1 ≤ seed + 1 := by
    rw [or_one]
    split <;> omega
  rw [leastOddPrime, ← or_one]
  generalize seed ||| 1 = start at hstart
  obtain ⟨hodd, hle⟩ := hstart
  -- Nothing behind this prime is looked at, so all numbers stay below its own bound.
  obtain ⟨p, hp, hge, hpar, hbound⟩ := exists_odd_prime hodd
  refine reaches_primeFrom hp hge (by omega) (by omega) (by omega) fun m hm => ?_
  exact tests_isPrime (by omega) fun d hd => succ_mul_succ_lt hlimit (by omega) hd

/-- The computation of a size ends, and with nothing else than `tableSize`. -/
theorem sizes_iff {count size : Nat} (hlimit : 2 ^ 16 ≤ limit) (h : 4 * count < limit) :
    Sizes limit count size ↔ size = tableSize count := by
  have hreaches : Reaches limit ((count * 4 / 3) ||| 1) (leastOddPrime (count * 4 / 3)) :=
    reaches_leastOddPrime hlimit (by omega)
  constructor
  · rintro ⟨-, p, hp, rfl⟩
    rw [hp.unique hreaches, tableSize]
  · rintro rfl
    exact ⟨by omega, _, hreaches, rfl⟩

/-! ## The size -/

theorem isLeast_prime_tableSize (count : Nat) :
    IsLeast {p | p.Prime ∧ max 3 (4 * count / 3) ≤ p} (tableSize count) := by
  have hge := (leastOddPrime_spec (count * 4 / 3)).2
  refine ⟨⟨prime_tableSize count, ?_⟩, ?_⟩
  · rw [tableSize]
    omega
  · rintro p ⟨hp, hle⟩
    have hodd : p % 2 = 1 := hp.eq_two_or_odd.resolve_left (by omega)
    have := leastOddPrime_le hp hodd (show count * 4 / 3 ≤ p by omega)
    rw [tableSize]
    omega

end MessageCatalog.Mo

namespace MessageCatalog.Draft

open Mo

/-- **The size of a hash table.** In words of 16 bits or more the search for the size ends, without
an overflow, for every count whose fourfold fits. What it ends with is the least prime that is
neither below 3 nor below four thirds of the count, rounded down, and it is above the count. So the
table that is written for a draft with so many messages has an empty slot, and every hash has a
first slot and an increment that are in range. -/
theorem isLeast_tableSize (bits count : Nat) (hbits : 16 ≤ bits) (h : 4 * count < 2 ^ bits) :
    (∀ size, Sizes (2 ^ bits) count size ↔ size = tableSize count) ∧
      IsLeast {p | p.Prime ∧ max 3 (4 * count / 3) ≤ p} (tableSize count) ∧
      count < tableSize count ∧
      (∀ d : Draft, d.hashed = true → d.size = count →
        d.table.length = tableSize count ∧ 0 ∈ d.table) ∧
      ∀ hash, (Probe.start hash (tableSize count)).slot < tableSize count ∧
        0 < (Probe.start hash (tableSize count)).step ∧
        (Probe.start hash (tableSize count)).step < tableSize count := by
  have hlimit : 2 ^ 16 ≤ 2 ^ bits := Nat.pow_le_pow_right (by decide) hbits
  refine ⟨fun size => sizes_iff hlimit h, isLeast_prime_tableSize count, lt_tableSize count, ?_,
    fun hash => Probe.start_bounds hash (two_lt_tableSize count)⟩
  rintro d hhashed rfl
  have hlength : d.table.length = tableSize d.size := by
    rw [table, if_pos hhashed, length_slots, length_sources]
  refine ⟨hlength, ?_⟩
  rw [table, if_pos hhashed] at hlength ⊢
  refine (filled_slots d.sources).mem_zero ?_
  rw [List.length_map, length_sources, hlength]
  exact lt_tableSize d.size

/-- In words of 64 bits, for ten messages. -/
theorem isLeast_tableSize_ten :
    16 ≤ 64 ∧ 4 * 10 < 2 ^ 64 ∧ Sizes (2 ^ 64) 10 13 ∧
      IsLeast {p : Nat | p.Prime ∧ max 3 (4 * 10 / 3) ≤ p} 13 := by
  have hsize : tableSize 10 = 13 := by decide
  obtain ⟨hsizes, hleast, -⟩ := isLeast_tableSize 64 10 (by decide) (by decide)
  rw [hsize] at hleast
  exact ⟨by decide, by decide, (hsizes 13).2 hsize.symm, hleast⟩

end MessageCatalog.Draft
