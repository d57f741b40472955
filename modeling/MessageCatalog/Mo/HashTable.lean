import MessageCatalog.Bytes

set_option autoImplicit false

/-! # The hash table of a catalog

A catalog may carry a table that sends the hash of a key to the number of its entry. Collisions
are resolved by double hashing: the hash fixes both the first slot and the increment, and the
probe walks from slot to slot by that increment, modulo the size of the table.

`hash` is the string hash of the format and has to agree bit for bit with whatever wrote the file.
`tableSize` is the size that is chosen when a table is written: a prime, so that every increment
visits every slot, and larger than the number of entries, so that a slot stays empty.
-/

namespace MessageCatalog.Mo

/-- One step of the string hash: shift by four bits, add the byte, and fold the topmost four bits
back into bits 4 to 7. -/
def hashStep (h : UInt32) (b : UInt8) : UInt32 :=
  let sum := (h <<< 4) + b.toUInt32
  let top := sum &&& 0xf0000000
  if top = 0 then sum else (sum ^^^ (top >>> 24)) ^^^ top

/-- The hash of a key. -/
def hash (key : Bytes) : UInt32 := key.foldl hashStep 0

/-- A walk through the slots of a table: where it stands and by how much it advances. -/
structure Probe where
  slot : Nat
  step : Nat
  deriving Repr, DecidableEq

/-- The walk for a hash value. The table must have more than two slots. -/
def Probe.start (h size : Nat) : Probe := ⟨h % size, 1 + h % (size - 2)⟩

/-- The next slot, wrapping round at the end of the table. -/
def Probe.next (size : Nat) (p : Probe) : Probe :=
  if p.slot ≥ size - p.step then { p with slot := p.slot - (size - p.step) }
  else { p with slot := p.slot + p.step }

/-- A walk stays in the table. -/
theorem Probe.slot_next_lt {size : Nat} {p : Probe} (h : p.slot < size) :
    (p.next size).slot < size := by
  unfold Probe.next
  split <;> simp only <;> omega

/-- Where a walk stands next is the sum of slot and increment, modulo the size of the table. -/
theorem Probe.slot_next {size : Nat} {p : Probe} (hslot : p.slot < size) (hpos : 0 < p.step)
    (hstep : p.step ≤ size) : (p.next size).slot = (p.slot + p.step) % size := by
  unfold Probe.next
  split
  · rename_i h
    show p.slot - (size - p.step) = _
    rw [Nat.mod_eq_sub_mod (by omega), Nat.mod_eq_of_lt (by omega)]
    omega
  · rename_i h
    show p.slot + p.step = _
    rw [Nat.mod_eq_of_lt (by omega)]

/-- The first `count` slots of a walk. -/
def Probe.slots (size : Nat) : Nat → Probe → List Nat
  | 0, _ => []
  | count + 1, p => p.slot :: Probe.slots size count (p.next size)

/-- No divisor from `divisor` up to the square root of `n`, looking at no more than `fuel` of
them. -/
def noDivisorFrom (n : Nat) : Nat → Nat → Bool
  | 0, _ => true
  | fuel + 1, divisor =>
      if divisor * divisor > n then true
      else if n % divisor = 0 then false
      else noDivisorFrom n fuel (divisor + 1)

/-- Primality by trial division. -/
def isPrime (n : Nat) : Bool := 2 ≤ n && noDivisorFrom n n 2

/-- The first prime among `n`, `n + 2`, `n + 4` and so on, looking at no more than `fuel` of
them. -/
def primeFrom : Nat → Nat → Nat
  | 0, n => n
  | fuel + 1, n => if isPrime n then n else primeFrom fuel (n + 2)

/-- The first odd prime that is not below `seed`. There is a prime between an odd number and its
double, so looking at as many candidates as the number is large is enough. -/
def leastOddPrime (seed : Nat) : Nat :=
  let odd := if seed % 2 = 0 then seed + 1 else seed
  primeFrom (odd + 1) odd

/-- The size of the table written for `count` entries: the next prime after four thirds of
them, and never less than three. -/
def tableSize (count : Nat) : Nat := max (leastOddPrime (count * 4 / 3)) 3

end MessageCatalog.Mo
