/-
# Operations on nested intervals

Interval arithmetic at a higher precision stays inside interval arithmetic at a lower one. The
operands at the higher precision may be smaller intervals, but nothing is said about the
precisions of their endpoints.

A result at the lower precision holds at most one digit more than that precision, so it is a
number that the higher precision can hold as well. A result at the higher precision is tight:
it does not pass a number that its precision can hold. So it does not pass the end of the
larger interval, which lies on the outer side of the exact result.
-/

import LinearEnclosure.Proofs.Decimal.Capacity
import LinearEnclosure.Proofs.Interval.Containment

namespace LinearEnclosure

namespace DecimalFloat.Operation

open Decimal

/-- A result at a higher precision, of operands with an exact result further inside, does not
pass the result at a lower precision. -/
theorem bounds_run_of_bounds (operation : Operation) (direction : Direction) {low high : ℕ}
    (positive : 1 ≤ low) (finer : low < high) {x y x' y' : DecimalFloat} (left : x.Made)
    (right : y.Made) (defined : operation.Defined y) (defined' : operation.Defined y')
    (inner : direction.Bounds (operation.exact x'.value.toRat y'.value.toRat)
      (operation.exact x.value.toRat y.value.toRat)) :
    direction.Bounds (operation.run direction high x' y').value.toRat
      (operation.run direction low x y).value.toRat := by
  have made : (operation.run direction low x y).Made :=
    .run operation direction low left right defined
  have few : (operation.run direction low x y).value.toRat ∈ short high := by
    have size := made.size_le
    rw [operation.precision_run] at size
    exact mem_short_iff.mpr (size.trans (by omega))
  have beyond := inner.trans (operation.run_bounds direction low x defined)
  exact operation.run_tight direction (by omega) x' defined' _ few beyond

end DecimalFloat.Operation

namespace Interval

open DecimalFloat

variable {x y x' y' : Interval DecimalFloat}

/-- The first interval has endpoints that can come about; the second one is in order and a part
of it. -/
structure Surrounds (x x' : Interval DecimalFloat) : Prop where
  lo : x.lo.Made
  hi : x.hi.Made
  ordered : x'.Ordered
  inside : x.Covers x'

namespace Surrounds

theorem made_of_isEnd (nested : x.Surrounds x') {u : DecimalFloat} (isEnd : x.IsEnd u) :
    u.Made := by
  rcases isEnd with rfl | rfl
  · exact nested.lo
  · exact nested.hi

/-- The ends of the inner interval are members of the outer one. -/
theorem mem_of_isEnd (nested : x.Surrounds x') {u : DecimalFloat} (isEnd : x'.IsEnd u) :
    (u.value.toRat : ℝ) ∈ x :=
  nested.inside.mem (isEnd.mem nested.ordered)

theorem outer_ordered (nested : x.Surrounds x') : x.Ordered :=
  ordered_of_mem (nested.mem_of_isEnd (.inl rfl))

/-- A part of an interval that excludes zero excludes it as well. -/
theorem excludes (nested : x.Surrounds x') (excluded : x.containsZero = false) :
    x'.containsZero = false := by
  rw [Bool.eq_false_iff] at *
  intro contained
  exact excluded (containsZero_iff.mpr (nested.inside.mem (containsZero_iff.mp contained)))

theorem of_point {u : DecimalFloat} (made : u.Made) : (point u).Surrounds (point u) where
  lo := made
  hi := made
  ordered := ordered_iff.mpr le_rfl
  inside := covers_iff.mpr ⟨le_rfl, le_rfl⟩

theorem neg (nested : x.Surrounds x') : x.neg.Surrounds x'.neg where
  lo := .neg nested.hi
  hi := .neg nested.lo
  ordered := OrderedRounding.neg nested.ordered
  inside := by
    obtain ⟨below, above⟩ := covers_iff.mp nested.inside
    simp only [covers_iff, Interval.neg, Endpoint.neg, DecimalFloat.neg, Decimal.toRat_neg]
    exact ⟨neg_le_neg above, neg_le_neg below⟩

/-- Intervals between integers of one digit, which can be read. -/
theorem ofIntegers {lo hi lo' hi' : ℤ}
    (nested : -9 ≤ lo ∧ lo ≤ lo' ∧ lo' ≤ hi' ∧ hi' ≤ hi ∧ hi ≤ 9) :
    (ofIntegers lo hi).Surrounds (ofIntegers lo' hi') where
  lo := .digit (Finset.mem_Icc.mpr (by omega))
  hi := .digit (Finset.mem_Icc.mpr (by omega))
  ordered := ofIntegers_ordered.mpr (by omega)
  inside := by
    simp [covers_iff, Interval.ofIntegers, ofDecimal]
    omega

end Surrounds

variable {low high : Context} (dualLow : low.mode = .dual) (dualHigh : high.mode = .dual)
  (positive : 1 ≤ low.precision) (finer : low.precision < high.precision)
include dualLow dualHigh positive finer

theorem surrounds_add (left : x.Surrounds x') (right : y.Surrounds y') :
    (x.add low y).Surrounds (x'.add high y') where
  lo := .run .sum low.lower low.precision left.lo right.lo trivial
  hi := .run .sum low.upper low.precision left.hi right.hi trivial
  ordered := keepsSums dualHigh left.ordered right.ordered
  inside := by
    obtain ⟨below, above⟩ := covers_iff.mp left.inside
    obtain ⟨below', above'⟩ := covers_iff.mp right.inside
    rw [covers_iff, Interval.add, Interval.add, Context.lower_eq_down dualLow,
      Context.upper_eq_up dualLow, Context.lower_eq_down dualHigh, Context.upper_eq_up dualHigh]
    constructor
    · exact Operation.sum.bounds_run_of_bounds .down positive finer left.lo right.lo trivial trivial
        (add_le_add below below')
    · exact Operation.sum.bounds_run_of_bounds .up positive finer left.hi right.hi trivial trivial
        (add_le_add above above')

theorem surrounds_sub (left : x.Surrounds x') (right : y.Surrounds y') :
    (x.sub low y).Surrounds (x'.sub high y') := by
  rw [sub_eq_add, sub_eq_add]
  exact surrounds_add dualLow dualHigh positive finer left right.neg

/-- Hulls of corners nest if each exact corner of the inner operands lies between two exact
corners of the outer ones. -/
theorem surrounds_corners (operation : Operation) (left : x.Surrounds x')
    (right : y.Surrounds y') (defined : ∀ v, y.IsEnd v → operation.Defined v)
    (defined' : ∀ v, y'.IsEnd v → operation.Defined v)
    (order : (corners high operation.run x' y').Ordered)
    (below : ∀ u' v', x'.IsEnd u' → y'.IsEnd v' → ∃ u v, x.IsEnd u ∧ y.IsEnd v ∧
      operation.exact u.value.toRat v.value.toRat ≤ operation.exact u'.value.toRat v'.value.toRat)
    (above : ∀ u' v', x'.IsEnd u' → y'.IsEnd v' → ∃ u v, x.IsEnd u ∧ y.IsEnd v ∧
      operation.exact u'.value.toRat v'.value.toRat ≤ operation.exact u.value.toRat v.value.toRat) :
    (corners low operation.run x y).Surrounds (corners high operation.run x' y') where
  lo := by
    obtain ⟨u, v, uEnd, vEnd, same⟩ := exists_corners_lo low operation.run x y
    rw [same]
    exact .run _ _ _ (left.made_of_isEnd uEnd) (right.made_of_isEnd vEnd) (defined v vEnd)
  hi := by
    obtain ⟨u, v, uEnd, vEnd, same⟩ := exists_corners_hi low operation.run x y
    rw [same]
    exact .run _ _ _ (left.made_of_isEnd uEnd) (right.made_of_isEnd vEnd) (defined v vEnd)
  ordered := order
  inside := by
    rw [covers_iff]
    constructor
    · obtain ⟨u', v', uEnd', vEnd', same⟩ := exists_corners_lo high operation.run x' y'
      obtain ⟨u, v, uEnd, vEnd, corner⟩ := below u' v' uEnd' vEnd'
      rw [same, Context.lower_eq_down dualHigh]
      refine (corners_lo_le low operation.run uEnd vEnd).trans ?_
      rw [Context.lower_eq_down dualLow]
      exact operation.bounds_run_of_bounds .down positive finer (left.made_of_isEnd uEnd)
        (right.made_of_isEnd vEnd) (defined v vEnd) (defined' v' vEnd') corner
    · obtain ⟨u', v', uEnd', vEnd', same⟩ := exists_corners_hi high operation.run x' y'
      obtain ⟨u, v, uEnd, vEnd, corner⟩ := above u' v' uEnd' vEnd'
      rw [same, Context.upper_eq_up dualHigh]
      refine le_trans ?_ (le_corners_hi low operation.run uEnd vEnd)
      rw [Context.upper_eq_up dualLow]
      exact operation.bounds_run_of_bounds .up positive finer (left.made_of_isEnd uEnd)
        (right.made_of_isEnd vEnd) (defined v vEnd) (defined' v' vEnd') corner

theorem surrounds_mul (left : x.Surrounds x') (right : y.Surrounds y') :
    (x.mul low y).Surrounds (x'.mul high y') := by
  apply surrounds_corners dualLow dualHigh positive finer .product left right
    (fun _ _ => trivial) (fun _ _ => trivial) (mul_ordered high x' y')
  · intro u' v' uEnd' vEnd'
    obtain ⟨u, v, uEnd, vEnd, corner⟩ :=
      exists_product_le (left.mem_of_isEnd uEnd') (right.mem_of_isEnd vEnd')
    exact ⟨u, v, uEnd, vEnd, by exact_mod_cast corner⟩
  · intro u' v' uEnd' vEnd'
    obtain ⟨u, v, uEnd, vEnd, corner⟩ :=
      exists_le_product (left.mem_of_isEnd uEnd') (right.mem_of_isEnd vEnd')
    exact ⟨u, v, uEnd, vEnd, by exact_mod_cast corner⟩

theorem surrounds_quotient (left : x.Surrounds x') (right : y.Surrounds y')
    (excluded : y.containsZero = false) :
    (x.quotient low y).Surrounds (x'.quotient high y') := by
  have excluded' := right.excludes excluded
  apply surrounds_corners dualLow dualHigh positive finer .quotient left right
    (fun _ isEnd => isEnd.ne_zero right.outer_ordered excluded)
    (fun _ isEnd => isEnd.ne_zero right.ordered excluded')
    (quotient_ordered high x' right.ordered excluded')
  · intro u' v' uEnd' vEnd'
    obtain ⟨u, v, uEnd, vEnd, corner⟩ :=
      exists_quotient_le (left.mem_of_isEnd uEnd') (right.mem_of_isEnd vEnd') excluded
    exact ⟨u, v, uEnd, vEnd, by exact_mod_cast corner⟩
  · intro u' v' uEnd' vEnd'
    obtain ⟨u, v, uEnd, vEnd, corner⟩ :=
      exists_le_quotient (left.mem_of_isEnd uEnd') (right.mem_of_isEnd vEnd') excluded
    exact ⟨u, v, uEnd, vEnd, by exact_mod_cast corner⟩

/-- Interval arithmetic at a higher precision stays inside the one at a lower precision. -/
theorem arithmetic_surrounds :
    (Interval.arithmetic low).Simulates (Interval.arithmetic high)
      (Surrounds : Interval DecimalFloat → Interval DecimalFloat → Prop) where
  zero := .of_point .zero
  one := .of_point .one
  add := surrounds_add dualLow dualHigh positive finer
  sub := surrounds_sub dualLow dualHigh positive finer
  mul := surrounds_mul dualLow dualHigh positive finer
  isPivot {x x'} nested pivot := by
    have excluded : x.containsZero = false := by simpa [arithmetic] using pivot
    simp [arithmetic, nested.excludes excluded]
  quotient left right pivot :=
    surrounds_quotient dualLow dualHigh positive finer left right
      (by simpa [arithmetic] using pivot)

end Interval

end LinearEnclosure
