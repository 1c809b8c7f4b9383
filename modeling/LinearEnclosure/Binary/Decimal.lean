/-
# Binary and decimal numbers

Every finite binary value is an exact decimal, and every decimal has a nearest binary
value. `shortest` is the decimal with the fewest digits that still reads back as the
same magnitude.
-/

import LinearEnclosure.Binary.Basic
import LinearEnclosure.Decimal.Parts
import LinearEnclosure.Decimal.Rounding

namespace LinearEnclosure

-- Powers are those of the core library.
attribute [local instance (high)] instPowNat

/-- A number of half units, as a decimal: `significand * 2 ^ power` of them. -/
def Format.halfUnits (F : Format) (significand power : Nat) : Decimal :=
  let below := F.unitBits + 1
  if below ≤ power then .of (significand * 2 ^ (power - below) : Nat) 0
  else .of (significand * 5 ^ (below - power) : Nat) (power - below)

/-- The decimal value of a magnitude. -/
def Format.decimal (F : Format) (rank : Nat) : Decimal :=
  F.halfUnits (F.significand rank) (F.shift rank + 1)

/-- The decimal value halfway between a magnitude and the next one. -/
def Format.decimalAbove (F : Format) (rank : Nat) : Decimal :=
  F.halfUnits (2 * F.significand rank + 1) (F.shift rank)

/-- Whether a decimal is nearer to a magnitude than to any other. The two halfway points
belong to the magnitude with the even significand. -/
def Format.readsBack (F : Format) (rank : Nat) (x : Decimal) : Bool :=
  let ends := rank % 2 == 0
  (match (F.decimalAbove (rank - 1)).compare x with
    | .lt => true
    | .eq => ends
    | .gt => false) &&
  (match x.compare (F.decimalAbove rank) with
    | .lt => true
    | .eq => ends
    | .gt => false)

/-- Of the decimals that keep a number of digits of a magnitude, the one that reads back
and is nearest to it, an exact tie going up. -/
def Format.shortAt (F : Format) (rank digits : Nat) : Option Decimal :=
  let exact := F.decimal rank
  let lower := exact.roundTo .down digits
  let upper := exact.roundTo .up digits
  if F.readsBack rank lower then
    if F.readsBack rank upper then some (exact.roundTo .nearest digits) else some lower
  else if F.readsBack rank upper then some upper
  else none

/-- The shortest decimal that reads back as a positive magnitude. The exact decimal
always does, so the search ends at its digits. -/
def Format.shortest (F : Format) (rank : Nat) : Decimal :=
  let exact := F.decimal rank
  ((List.range exact.size).findSome? fun count => F.shortAt rank (count + 1)).getD exact

namespace Binary

variable {F : Format}

/-- The exact decimal value of a finite number. -/
def toDecimal? : Binary F → Option Decimal
  | finite negative rank _ =>
    some (if negative then (F.decimal rank).neg else F.decimal rank)
  | _ => none

/-- The parts of the exact value of a finite number other than zero. -/
def parts? (x : Binary F) : Option Decimal.Parts :=
  (x.toDecimal?.filter (!·.isZero)).map Decimal.parts

/-- The shortest decimal that reads back as the given finite number. -/
def shortest? : Binary F → Option Decimal
  | finite negative rank _ =>
    some (if rank = 0 then .zero
      else if negative then (F.shortest rank).neg else F.shortest rank)
  | _ => none

/-- The binary number nearest to a decimal magnitude. Eight is below ten, so magnitudes
that overflow or vanish are known by their leading positions alone, and no large power
of ten is written out. -/
def nearest (negative : Bool) (x : Decimal) : Binary F :=
  if x.isZero || 3 * x.top + F.unitBits + 1 < 0 then ofRank negative 0
  else if F.blocks + F.fractionBits ≤ 3 * (x.top - 1) + F.unitBits + 1 then infinite negative
  else
    round negative
      (x.significand.natAbs * 10 ^ x.exponent.toNat * 2 ^ F.unitBits)
      (10 ^ (-x.exponent).toNat)

/-- The binary number nearest to a decimal, ties going to the even significand. -/
def ofDecimal (x : Decimal) : Binary F :=
  nearest (x.significand < 0) x

end Binary

end LinearEnclosure
