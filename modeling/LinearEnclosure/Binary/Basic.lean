/-
# Binary floating-point numbers

The values of a binary format: finite ones with a sign and a rank, the two infinities,
and one value that is not a number. Zero has both signs, and they compare equal.
-/

import LinearEnclosure.Binary.Format

namespace LinearEnclosure

-- Powers are those of the core library.
attribute [local instance (high)] instPowNat

/-- A value of a binary format. -/
inductive Binary (F : Format)
  | finite (negative : Bool) (rank : Nat) (rank_lt : rank < F.infinityRank)
  | infinite (negative : Bool)
  | nan
  deriving DecidableEq

/-- Binary numbers of 64 bits. -/
abbrev Double := Binary Format.double

/-- Binary numbers of 32 bits. -/
abbrev Single := Binary Format.single

namespace Binary

variable {F : Format}

/-- The value with a given sign and rank; ranks beyond the finite ones are infinite. -/
def ofRank (negative : Bool) (rank : Nat) : Binary F :=
  if rank_lt : rank < F.infinityRank then finite negative rank rank_lt else infinite negative

/-- The value nearest to a fraction of units. -/
def round (negative : Bool) (numerator denominator : Nat) : Binary F :=
  ofRank negative (F.nearestRank numerator denominator)

protected def zero : Binary F := ofRank false 0

/-- The value nearest to a whole number; one is `2 ^ unitBits` units. -/
protected def ofNat (n : Nat) : Binary F := round false (n * 2 ^ F.unitBits) 1

protected def one : Binary F := Binary.ofNat 1

instance : Inhabited (Binary F) := ⟨nan⟩

/-- The largest finite magnitude with a sign. -/
def largest (negative : Bool) : Binary F :=
  ofRank negative (F.infinityRank - 1)

protected def neg : Binary F → Binary F
  | finite negative rank rank_lt => finite (!negative) rank rank_lt
  | infinite negative => infinite (!negative)
  | nan => nan

def isFinite : Binary F → Bool
  | finite .. => true
  | _ => false

/-- Whether the value is a zero of either sign. -/
def isZero : Binary F → Bool
  | finite _ rank _ => rank == 0
  | _ => false

/-- Whether the magnitude is below the normal ones; zeros are included. -/
def isTiny : Binary F → Bool
  | finite _ rank _ => rank < F.normalRank
  | _ => false

/-- A finite value in units. -/
def units? : Binary F → Option Int
  | finite negative rank _ => some (F.signedUnits negative rank)
  | _ => none

/-- The place of a value in the order of the format: its rank with its sign. -/
def place? : Binary F → Option Int
  | finite negative rank _ => some (if negative then -rank else rank)
  | infinite negative => some (if negative then -F.infinityRank else F.infinityRank)
  | nan => none

/-- The order of two values; there is none where one is not a number. -/
def compare? (x y : Binary F) : Option Ordering :=
  match x.place?, y.place? with
  | some a, some b => some (compare a b)
  | _, _ => none

/-- Whether the value is above zero. -/
def isPositive (x : Binary F) : Bool :=
  match x.place? with
  | some place => 0 < place
  | none => false

/-- Whether the value is below zero. -/
def isNegative (x : Binary F) : Bool :=
  match x.place? with
  | some place => place < 0
  | none => false

/-- The least value above the given one. -/
def nextUp : Binary F → Binary F
  | finite negative rank _ =>
    if negative && rank != 0 then ofRank true (rank - 1) else ofRank false (rank + 1)
  | infinite negative => if negative then largest true else infinite false
  | nan => nan

/-- The greatest value below the given one. -/
def nextDown (x : Binary F) : Binary F :=
  x.neg.nextUp.neg

/-- The word that stores the value, sign bit first. A value that is not a number has
many words, and none is chosen here. -/
def word? : Binary F → Option Nat
  | finite negative rank _ => some (signBit negative + rank)
  | infinite negative => some (signBit negative + F.infinityRank)
  | nan => none
where
  /-- The sign bit stands just above all ranks and the infinity. -/
  signBit (negative : Bool) : Nat :=
    if negative then (F.blocks + 1) * 2 ^ F.fractionBits else 0

end Binary

end LinearEnclosure
