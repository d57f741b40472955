import MessageCatalog.Mo.HashTable
import Mathlib.NumberTheory.Bertrand
import Mathlib.NumberTheory.LucasPrimality
import Mathlib.Tactic.ReduceModChar

set_option autoImplicit false

/-! # The size of a hash table

The size that is chosen for a table is a prime above the number of its entries (`prime_tableSize`,
`lt_tableSize`). The search for it ends, since by Bertrand's postulate there is a prime between an
odd number and its double. It passes over no prime, so with fewer than `2 ^ 31` entries the size
fits into a word (`tableSize_lt`): there is a prime below `2 ^ 32` that is large enough.
-/

namespace MessageCatalog.Mo

/-! ## Trial division -/

/-- With enough fuel to get past the square root, trial division leaves out no divisor. -/
theorem noDivisorFrom_iff {n fuel divisor : Nat} (h : n < fuel + divisor) :
    noDivisorFrom n fuel divisor = true ↔ ∀ m, divisor ≤ m → m * m ≤ n → ¬ m ∣ n := by
  induction fuel generalizing divisor with
  | zero =>
      simp only [noDivisorFrom, true_iff]
      intro m hm hsq
      have := Nat.le_mul_self m
      omega
  | succ fuel ih =>
      unfold noDivisorFrom
      by_cases hbig : divisor * divisor > n
      · simp only [if_pos hbig, true_iff]
        intro m hm hsq
        have := Nat.mul_le_mul hm hm
        omega
      · rw [if_neg hbig]
        by_cases hdvd : n % divisor = 0
        · rw [if_pos hdvd]
          simp only [Bool.false_eq_true, false_iff]
          intro hall
          exact hall divisor (Nat.le_refl _) (by omega) (Nat.dvd_of_mod_eq_zero hdvd)
        · -- The divisor itself is out, so only the larger ones are left to look at.
          have hfirst : ∀ m, m = divisor → ¬ m ∣ n := by
            rintro m rfl hd
            exact hdvd (Nat.mod_eq_zero_of_dvd hd)
          rw [if_neg hdvd, ih (by omega)]
          refine ⟨fun hall m hm hsq => ?_, fun hall m hm hsq => hall m (by omega) hsq⟩
          by_cases hm' : m = divisor
          · exact hfirst m hm'
          · exact hall m (by omega) hsq

theorem isPrime_iff (n : Nat) : isPrime n = true ↔ n.Prime := by
  rw [isPrime, Bool.and_eq_true, decide_eq_true_iff, noDivisorFrom_iff (by omega),
    Nat.prime_def_le_sqrt]
  simp only [Nat.le_sqrt]

/-! ## The search for a prime -/

/-- The search finds a prime if there is one among the candidates, and passes over none. -/
theorem primeFrom_spec (fuel : Nat) {n p : Nat} (hp : p.Prime) (hn : n ≤ p) (hpar : p % 2 = n % 2)
    (hfuel : p ≤ n + 2 * fuel) :
    (primeFrom fuel n).Prime ∧ n ≤ primeFrom fuel n ∧ primeFrom fuel n ≤ p := by
  induction fuel generalizing n with
  | zero =>
      obtain rfl : p = n := by omega
      exact ⟨hp, Nat.le_refl _, Nat.le_refl _⟩
  | succ fuel ih =>
      unfold primeFrom
      by_cases hprime : isPrime n = true
      · rw [if_pos hprime]
        exact ⟨(isPrime_iff n).1 hprime, Nat.le_refl _, hn⟩
      · rw [if_neg hprime]
        have hne : p ≠ n := fun e => hprime ((isPrime_iff n).2 (e ▸ hp))
        obtain ⟨h, hle, hmin⟩ := ih (by omega : n + 2 ≤ p) (by omega) (by omega)
        exact ⟨h, by omega, hmin⟩

/-- From an odd number on there is an odd prime, at the latest right behind its double. -/
theorem exists_odd_prime {n : Nat} (h : n % 2 = 1) :
    ∃ p, p.Prime ∧ n ≤ p ∧ p % 2 = 1 ∧ p ≤ 2 * n + 1 := by
  by_cases hone : n = 1
  · exact ⟨3, Nat.prime_three, by omega, rfl, by omega⟩
  · obtain ⟨p, hp, hlt, hle⟩ := Nat.exists_prime_lt_and_le_two_mul n (by omega)
    have hodd : p % 2 = 1 := (hp.eq_two_or_odd).resolve_left (by omega)
    exact ⟨p, hp, by omega, hodd, by omega⟩

theorem leastOddPrime_spec (seed : Nat) :
    (leastOddPrime seed).Prime ∧ seed ≤ leastOddPrime seed := by
  unfold leastOddPrime
  have hodd : (if seed % 2 = 0 then seed + 1 else seed) % 2 = 1 := by split <;> omega
  have hseed : seed ≤ if seed % 2 = 0 then seed + 1 else seed := by split <;> omega
  generalize (if seed % 2 = 0 then seed + 1 else seed) = odd at hodd hseed
  obtain ⟨p, hp, hle, hpar, hbound⟩ := exists_odd_prime hodd
  obtain ⟨h, hge, -⟩ := primeFrom_spec (odd + 1) hp hle (by omega) (by omega)
  exact ⟨h, Nat.le_trans hseed hge⟩

/-- No odd prime from the seed on is smaller than the one that is found. -/
theorem leastOddPrime_le {seed p : Nat} (hp : p.Prime) (hodd : p % 2 = 1) (hle : seed ≤ p) :
    leastOddPrime seed ≤ p := by
  unfold leastOddPrime
  have hstart : (if seed % 2 = 0 then seed + 1 else seed) % 2 = 1 ∧
      (if seed % 2 = 0 then seed + 1 else seed) ≤ p := by split <;> omega
  generalize (if seed % 2 = 0 then seed + 1 else seed) = start at hstart
  obtain ⟨hstart, hlt⟩ := hstart
  -- A prime out of reach of the search lies behind one within its reach.
  obtain ⟨q, hq, hge, hpar, hbound⟩ := exists_odd_prime hstart
  by_cases hreach : p ≤ start + 2 * (start + 1)
  · exact (primeFrom_spec (start + 1) hp hlt (by omega) hreach).2.2
  · exact (primeFrom_spec (start + 1) hq hge (by omega) (by omega)).2.2.trans (by omega)

/-! ## The size -/

theorem prime_tableSize (count : Nat) : (tableSize count).Prime := by
  rcases Nat.le_total (leastOddPrime (count * 4 / 3)) 3 with h | h
  · rw [tableSize, Nat.max_eq_right h]
    exact Nat.prime_three
  · rw [tableSize, Nat.max_eq_left h]
    exact (leastOddPrime_spec _).1

theorem two_lt_tableSize (count : Nat) : 2 < tableSize count := Nat.le_max_right _ 3

/-- There are more slots than entries, so one of them stays empty. -/
theorem lt_tableSize (count : Nat) : count < tableSize count := by
  have h := (leastOddPrime_spec (count * 4 / 3)).2
  have hmax : leastOddPrime (count * 4 / 3) ≤ tableSize count := Nat.le_max_left _ _
  have := two_lt_tableSize count
  omega

/-- The number `3 * 2 ^ 30 + 1` is prime: 5 is a primitive root. -/
theorem prime_3221225473 : Nat.Prime 3221225473 := by
  refine lucas_primality 3221225473 5 (by reduce_mod_char) fun q hq hdvd => ?_
  have hfactors : q = 2 ∨ q = 3 := by
    rcases hq.dvd_mul.1 (show q ∣ 3 * 2 ^ 30 by simpa using hdvd) with h | h
    · exact .inr ((Nat.prime_dvd_prime_iff_eq hq Nat.prime_three).1 h)
    · exact .inl ((Nat.prime_dvd_prime_iff_eq hq Nat.prime_two).1 (hq.dvd_of_dvd_pow h))
  obtain rfl | rfl := hfactors
  · reduce_mod_char
    decide
  · reduce_mod_char
    decide

/-- The size of a table with fewer than `2 ^ 31` entries fits into a word. -/
theorem tableSize_lt {count : Nat} (h : count < 2 ^ 31) : tableSize count < 2 ^ 32 := by
  have hle : leastOddPrime (count * 4 / 3) ≤ 3221225473 :=
    leastOddPrime_le prime_3221225473 rfl (by omega)
  rw [tableSize]
  omega

end MessageCatalog.Mo
