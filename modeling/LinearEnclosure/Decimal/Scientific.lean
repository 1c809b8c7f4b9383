/-
# Scientific notation

One digit before the point, a fixed number of digits behind it, and an exponent with
its sign and at least three digits, as in `-1.2500E+003`. The written number is the
given one rounded in a direction to the digits that are shown.
-/

import LinearEnclosure.Decimal.Rounding

namespace LinearEnclosure.Decimal

/-- The exponent part: the letter, the sign, and at least three digits. -/
def exponentMark (exponent : Int) : List Char :=
  let digits := Nat.toDigits 10 exponent.natAbs
  'E' :: (if exponent < 0 then '-' else '+') :: List.replicate (3 - digits.length) '0' ++ digits

/-- `x` in scientific notation with `places` digits behind the point, rounded in a
direction. Zero keeps its point even where no digit follows it. -/
def scientific (direction : Direction) (places : Nat) (x : Decimal) : List Char :=
  if x.isZero then '0' :: '.' :: List.replicate places '0' ++ exponentMark 0
  else
    let shown := x.roundTo direction (places + 1)
    let digits := Nat.toDigits 10 shown.significand.natAbs
    let sign := if shown.significand < 0 then ['-'] else []
    let point := if places = 0 then [] else ['.']
    sign ++ digits.take 1 ++ point ++ digits.drop 1 ++
      List.replicate (places + 1 - digits.length) '0' ++ exponentMark (shown.top - 1)

end LinearEnclosure.Decimal
