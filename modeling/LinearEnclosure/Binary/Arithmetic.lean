/-
# Binary arithmetic

Each operation takes the exact result of its finite operands and rounds it once, to
nearest with ties to the even significand. Exact results are fractions of units: with
`2 ^ unitBits` units in one, a sum is a whole number of units, a product has the
denominator `2 ^ unitBits`, and a quotient has the divisor's units as denominator.
-/

import LinearEnclosure.Binary.Basic

namespace LinearEnclosure.Binary

-- Powers are those of the core library.
attribute [local instance (high)] instPowNat

variable {F : Format}

/-- Round a signed fraction of units; `zeroSign` is the sign of an exact zero. -/
def roundSigned (zeroSign : Bool) (numerator : Int) (denominator : Nat) : Binary F :=
  if numerator = 0 then round zeroSign 0 denominator
  else round (numerator < 0) numerator.natAbs denominator

/-- A sum is a negative zero only where both summands are. -/
protected def add : Binary F → Binary F → Binary F
  | finite a r _, finite b s _ =>
    roundSigned (a && b) (F.signedUnits a r + F.signedUnits b s) 1
  | finite .., infinite b => infinite b
  | infinite a, finite .. => infinite a
  | infinite a, infinite b => if a = b then infinite a else nan
  | nan, _ => nan
  | _, nan => nan

protected def sub (x y : Binary F) : Binary F :=
  x.add y.neg

protected def mul : Binary F → Binary F → Binary F
  | finite a r _, finite b s _ => round (a ^^ b) (F.units r * F.units s) (2 ^ F.unitBits)
  | finite a r _, infinite b => if r = 0 then nan else infinite (a ^^ b)
  | infinite a, finite b s _ => if s = 0 then nan else infinite (a ^^ b)
  | infinite a, infinite b => infinite (a ^^ b)
  | nan, _ => nan
  | _, nan => nan

/-- A nonzero value divided by zero is infinite. -/
protected def div : Binary F → Binary F → Binary F
  | finite a r _, finite b s _ =>
    if s = 0 then if r = 0 then nan else infinite (a ^^ b)
    else round (a ^^ b) (F.units r * 2 ^ F.unitBits) (F.units s)
  | finite a _ _, infinite b => round (a ^^ b) 0 1
  | infinite a, finite b _ _ => infinite (a ^^ b)
  | infinite _, infinite _ => nan
  | nan, _ => nan
  | _, nan => nan

/-- `x * y + z` with one rounding. A finite product is exact before the sum is rounded,
so it cannot overflow on the way. -/
def mulAdd : Binary F → Binary F → Binary F → Binary F
  | finite a r _, finite b s _, finite c t _ =>
    roundSigned ((a ^^ b) && c)
      (F.signedUnits a r * F.signedUnits b s + F.signedUnits c t * (2 ^ F.unitBits : Nat))
      (2 ^ F.unitBits)
  | finite .., finite .., z => z
  | x, y, z => (x.mul y).add z

end LinearEnclosure.Binary
