/-
# A quick bound on decimal digits

The digits of a large number are bounded through its base-two logarithm, in single
precision and never from below. The bound is the digit count itself for most numbers.
A number so close under a power of ten that its logarithm reaches that of the power is
counted as one digit longer.
-/

import LinearEnclosure.Binary.Arithmetic
import LinearEnclosure.Binary.Logarithm
import LinearEnclosure.Decimal.Digits

namespace LinearEnclosure

-- Powers are those of the core library.
attribute [local instance (high)] instPowNat

namespace Single

/-- An upper bound on the logarithm of a number, from its leading 24 bits. The nearest
value is off by half a step at most, so the next one is above the logarithm. Powers of
two have an exact one. -/
def logBound (n : Nat) : Single :=
  let rest := n.log2 - 23
  if n = 2 ^ n.log2 then log2 n
  else if rest = 0 then (log2 n).nextUp
  else ((log2 (n / 2 ^ rest + 1)).add (.ofNat rest)).nextUp

/-- An upper bound on the logarithm of a number of any length. Of one that fills more
than two words of 64 bits only the two leading words are looked at. A factor two steps
above one makes up for the rest. -/
def wideLogBound (n : Nat) : Single :=
  let rest := (n.log2 / 64 - 1) * 64
  if rest = 0 then logBound n
  else ((logBound (n / 2 ^ rest)).add (.ofNat rest)).mul Binary.one.nextUp.nextUp

/-- The logarithm of two to the base ten, which single precision rounds up. -/
def log10Two : Single :=
  .round false (30103 * 2 ^ Format.single.unitBits) (10 ^ (5 : Nat))

end Single

/-- The digits of `n` as its logarithm bounds them: one more than there are where the
bound reaches the next power of ten. -/
def digitBound (n : Nat) : Nat :=
  let log := (Single.wideLogBound n).mul Single.log10Two
  if log.compare? (.ofNat (digitCount n)) = some .lt then digitCount n else digitCount n + 1

/-- The bound counts every digit. -/
theorem digitCount_le_digitBound (n : Nat) : digitCount n ≤ digitBound n := by
  unfold digitBound
  grind

/-- The bound counts at most one digit too many. -/
theorem digitBound_le_digitCount_succ (n : Nat) : digitBound n ≤ digitCount n + 1 := by
  unfold digitBound
  grind

end LinearEnclosure
