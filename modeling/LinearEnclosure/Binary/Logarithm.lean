/-
# Base-two logarithms in single precision

The square of a number between one and two has twice its logarithm, so it reaches two
exactly where the next bit of the logarithm is set. Squaring again and again reads the
bits off one at a time.

The whole part of a logarithm is the place of the leading bit. Apart from powers of
two, a logarithm is irrational and lies strictly between two neighbouring multiples of
`2 ^ (-40)`. All halfway points of single precision are such multiples, for every
logarithm that is not below one, and so the middle of the gap rounds to the value
nearest to the logarithm.
-/

import LinearEnclosure.Binary.Basic

namespace LinearEnclosure

-- Powers are those of the core library.
attribute [local instance (high)] instPowNat

/-- The bits behind the point of the logarithm of `x`, a number from one up to two that
is written in units of `2 ^ (-62)`. -/
def logFraction : Nat → Nat → Nat
  | 0, _ => 0
  | places + 1, x =>
    let square := x * x / 2 ^ (62 : Nat)
    if square < 2 ^ (63 : Nat) then logFraction places square
    else 2 ^ places + logFraction places (square / 2)

/-- The logarithm of a positive number in units of `2 ^ (-40)`, cut to a whole one. -/
def logFloor (n : Nat) : Nat :=
  n.log2 * 2 ^ (40 : Nat) + logFraction 40 (n * 2 ^ (62 : Nat) / 2 ^ n.log2)

namespace Single

/-- The value nearest to the base-two logarithm of a positive number. -/
def log2 (n : Nat) : Single :=
  if n = 2 ^ n.log2 then .ofNat n.log2
  else .round false ((2 * logFloor n + 1) * 2 ^ Format.single.unitBits) (2 ^ (41 : Nat))

end Single

/-- The bits behind the point stay below one. -/
theorem logFraction_lt (places x : Nat) : logFraction places x < 2 ^ places := by
  fun_induction logFraction places x with
  | case1 => exact Nat.one_pos
  | case2 places x square small ih => omega
  | case3 places x square large ih => omega

/-- Cut to its whole part, a logarithm is the place of the leading bit. -/
theorem logFloor_div (n : Nat) : logFloor n / 2 ^ (40 : Nat) = n.log2 := by
  have fraction := logFraction_lt 40 (n * 2 ^ (62 : Nat) / 2 ^ n.log2)
  unfold logFloor
  omega

end LinearEnclosure
