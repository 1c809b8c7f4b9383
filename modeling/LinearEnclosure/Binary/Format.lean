/-
# Binary floating-point formats

Every finite magnitude of a format is a whole number of units, the unit being the least
positive magnitude. Listed in increasing order the magnitudes have ranks 0, 1, 2, …,
and a rank is also the word that stores the magnitude. Neighbours are therefore the
ranks one below and one above, and rounding is a map from exact fractions of units to
ranks.

With `h = 2 ^ fractionBits`, ranks below `2 * h` are their own number of units; each
further block of `h` ranks doubles the spacing.
-/

namespace LinearEnclosure

-- Powers are those of the core library.
attribute [local instance (high)] instPowNat

/-- A binary format: the bits behind the leading bit of a significand, the power of two
by which the unit lies below one, and the number of blocks of finite ranks. -/
structure Format where
  fractionBits : Nat
  unitBits : Nat
  blocks : Nat
  deriving DecidableEq, Repr

namespace Format

/-- The format with 64-bit words. -/
def double : Format := ⟨52, 1074, 2047⟩

/-- The format with 32-bit words. -/
def single : Format := ⟨23, 149, 255⟩

/-- The first rank beyond the finite ones. Its word stores infinity. -/
def infinityRank (F : Format) : Nat :=
  F.blocks * 2 ^ F.fractionBits

/-- The least rank whose neighbours on both sides keep a full significand apart; what
lies below it is subnormal. -/
def normalRank (F : Format) : Nat :=
  2 ^ F.fractionBits

/-- The power of two that one step of the significand is worth, in units. -/
def shift (F : Format) (rank : Nat) : Nat :=
  rank / 2 ^ F.fractionBits - 1

/-- The significand of a magnitude. -/
def significand (F : Format) (rank : Nat) : Nat :=
  rank - F.shift rank * 2 ^ F.fractionBits

/-- A magnitude in units. -/
def units (F : Format) (rank : Nat) : Nat :=
  F.significand rank * 2 ^ F.shift rank

/-- A magnitude with a sign, in units. -/
def signedUnits (F : Format) (negative : Bool) (rank : Nat) : Int :=
  if negative then -F.units rank else F.units rank

/-- The integer nearest to a fraction, an exact half going to the even neighbour. -/
def halfEven (numerator denominator : Nat) : Nat :=
  let floor := numerator / denominator
  let rest := 2 * (numerator % denominator)
  if rest < denominator then floor
  else if denominator < rest then floor + 1
  else floor + floor % 2

/-- The rank nearest to a fraction of units, ties going to the even significand. Ranks
continue beyond the finite ones, so overflow is seen in the result. -/
def nearestRank (F : Format) (numerator denominator : Nat) : Nat :=
  let step := (numerator / denominator).log2 - F.fractionBits
  step * 2 ^ F.fractionBits + halfEven numerator (denominator * 2 ^ step)

end Format

end LinearEnclosure
