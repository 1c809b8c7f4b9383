/-
# The midpoint of an interval

The midpoint is half of the sum of the ends, and both steps are rounded to nearest. To nearest
never goes past a number that the format can hold. So half of a sum that stands between the
doubled ends stays between the ends, as far as the format can hold these, and what is left to
show is that the rounded sum does stand there.

A 64-bit number can be doubled, unless that overflows. Doubling a decimal number may take one
digit more. If there is any number between the doubled ends that the precision can hold, the
rounded sum is no farther from the exact one than that, so it stands between them as well. A sum
of more precise ends is rounded twice, and there the second rounding is compared with a point
that has one digit more than the precision.

An interval may contain no number at all that the precision can hold, and then its midpoint
lies outside.
-/

import LinearEnclosure.Proofs.Binary.Order
import LinearEnclosure.Proofs.Decimal.DoubleRounding
import LinearEnclosure.Proofs.Decimal.Order

namespace LinearEnclosure

/-! ## Numbers of 64 bits -/

/-- Twice a number has the same significand, in the block behind its own. -/
theorem Format.Representable.double {F : Format} {n : ℤ} (known : F.Representable n) :
    F.Representable (2 * n) := by
  obtain ⟨k, multiple, short, -⟩ := known.exists_spacing
  apply representable_of_dvd (k := k + 1)
  · rw [pow_succ']
    exact mul_dvd_mul_left 2 multiple
  · rw [abs_mul, abs_two, pow_succ']
    linarith

namespace Binary

variable {F : Format} {x y : Binary F} {a b : ℤ}

theorem addDirected_nearest (x y : Binary F) : addDirected .nearest x y = x.add y := rfl

theorem divDirected_nearest (x y : Binary F) : divDirected .nearest x y = x.div y := by
  simp [divDirected]

/-- A finite number is the one nearest to itself. -/
theorem roundsTo_of_units (finite : x.units? = some a) : RoundsTo a x := by
  obtain ⟨place, stands, inside, rfl⟩ := exists_place finite
  exact ⟨place, F.nearest_unitsAt place, by rw [stands, Format.clamp_eq_self inside]⟩

theorem half_roundsTo [NeZero F.fractionBits] (finite : x.units? = some a)
    (two : y.units? = some (2 * 2 ^ F.unitBits)) : RoundsTo (a / 2) (x.div y) := by
  have quotient := div_roundsTo finite two (by positivity)
  push_cast at quotient
  rwa [mul_div_mul_right _ _ (by positivity)] at quotient

end Binary

namespace Double

open Binary

theorem le_of_roundsTo {x y : Double} {v w : ℚ} (first : RoundsTo v x) (second : RoundsTo w y)
    (le : v ≤ w) : Endpoint.le x y = true := by
  have order := first.placeLe second le
  obtain ⟨k, -, here⟩ := first
  obtain ⟨l, -, there⟩ := second
  rw [placeLe_iff here there] at order
  simpa [Endpoint.le_iff_level, Leveled.level, here, there] using order

/-- If the sum of the ends does not overflow, an interval contains its midpoint. -/
theorem midpoint_contained (context : Context) {x : Interval Double} (finite : x.isFinite = true)
    (ordered : x.Ordered) (fits : (Binary.add x.lo x.hi).isFinite = true) :
    x.contains (x.midpoint context) = true := by
  obtain ⟨finiteLo, finiteHi⟩ := Bool.and_eq_true_iff.mp finite
  obtain ⟨a, lo⟩ := isFinite_iff.mp finiteLo
  obtain ⟨b, hi⟩ := isFinite_iff.mp finiteHi
  obtain ⟨c, sum⟩ := isFinite_iff.mp fits
  have le : a ≤ b := by
    obtain ⟨k, here, -, rfl⟩ := exists_place lo
    obtain ⟨l, there, -, rfl⟩ := exists_place hi
    exact Format.double.unitsAt_strictMono.monotone ((notAbove_iff here there).mp ordered)
  have rounded := (add_roundsTo lo hi).rounds sum
  have doubledLo : 2 * a ≤ c :=
    rounded.le_of_le (representable_of_units lo).double (by exact_mod_cast (by omega))
  have doubledHi : c ≤ 2 * b :=
    rounded.ge_of_ge (representable_of_units hi).double (by exact_mod_cast (by omega))
  have two : (Binary.one.add Binary.one : Double).units? =
      some (2 * 2 ^ Format.double.unitBits) := by
    decide +kernel
  have midpoint : x.midpoint context = divDirected .nearest (addDirected .nearest x.lo x.hi)
      (addDirected .nearest Binary.one Binary.one) := rfl
  rw [addDirected_nearest, addDirected_nearest, divDirected_nearest] at midpoint
  have half : RoundsTo (c / 2) (x.midpoint context) := midpoint ▸ half_roundsTo sum two
  have doubledLo : (2 * a : ℚ) ≤ c := by exact_mod_cast doubledLo
  have doubledHi : (c : ℚ) ≤ 2 * b := by exact_mod_cast doubledHi
  have above := le_of_roundsTo (roundsTo_of_units lo) half (by linarith)
  have below := le_of_roundsTo half (roundsTo_of_units hi) (by linarith)
  exact Bool.and_eq_true_iff.mpr ⟨above, below⟩

end Double

/-! ## Decimal numbers -/

namespace Direction

open Decimal

variable {digits : ℕ} {exact rounded s : ℚ}

/-- To nearest stays below the numbers that it could have chosen. -/
theorem IsClosest.le_of_le (closest : IsClosest digits exact rounded) (few : s ∈ short digits)
    (le : exact ≤ s) : rounded ≤ s := by
  have near := closest s few
  rw [abs_of_nonneg (sub_nonneg.mpr le)] at near
  linarith [le_abs_self (rounded - exact)]

/-- A result that is rounded to nearest, at once or after a first rounding to more digits. -/
inductive RoundedNearest (digits : ℕ) (exact rounded : ℚ) : Prop
  | once (closest : IsClosest digits exact rounded)
  | twice {more : ℕ} {wide : ℚ} (finer : digits < more) (first : IsClosest more exact wide)
      (second : IsNearest digits wide rounded)

namespace RoundedNearest

theorem neg (rounds : RoundedNearest digits exact rounded) :
    RoundedNearest digits (-exact) (-rounded) := by
  cases rounds with
  | once closest => exact .once closest.neg
  | twice finer first second => exact .twice finer first.neg second.neg

theorem le_of_le (rounds : RoundedNearest digits exact rounded) (few : s ∈ short digits)
    (le : exact ≤ s) : rounded ≤ s := by
  cases rounds with
  | once closest => exact closest.le_of_le few le
  | twice finer first second =>
    exact IsClosest.le_of_le second.nearest few
      (first.le_of_le (short_mono finer.le few) le)

theorem ge_of_ge (rounds : RoundedNearest digits exact rounded) (few : s ∈ short digits)
    (ge : s ≤ exact) : s ≤ rounded :=
  neg_le_neg_iff.mp (rounds.neg.le_of_le (neg_mem_short few) (neg_le_neg ge))

theorem eq_of_mem_short (rounds : RoundedNearest digits exact rounded)
    (few : exact ∈ short digits) : rounded = exact :=
  le_antisymm (rounds.le_of_le few le_rfl) (rounds.ge_of_ge few le_rfl)

end RoundedNearest

/-- A short number whose double takes one digit more fills the precision. -/
theorem exists_steps_of_double (positive : 1 ≤ digits) (few : s ∈ short digits)
    (long : 2 * s ∉ short digits) : ∃ n position : ℤ, s = n * 10 ^ position ∧
      n.natAbs < 10 ^ digits ∧ 10 ^ (position + digits) ≤ |2 * s| ∧
      |2 * s| ≤ 10 ^ (position + digits + 1) := by
  obtain ⟨x, size, rfl⟩ := few
  have below : x.significand.natAbs < 10 ^ digits :=
    (lt_ten_pow_digitCount _).trans_le (Nat.pow_le_pow_right (by norm_num) size)
  have double : 2 * x.toRat = (2 * x.significand : ℤ) * 10 ^ x.exponent := by
    rw [toRat]
    push_cast
    ring
  have above : 10 ^ digits < (2 * x.significand).natAbs := by
    by_contra! le
    exact long (double ▸ mul_zpow_mem_short positive le x.exponent)
  have bound : (2 * x.significand).natAbs ≤ 10 ^ (digits + 1) := by omega
  have power : (0 : ℚ) < 10 ^ x.exponent := by positivity
  have magnitude : |2 * x.toRat| = (2 * x.significand).natAbs * 10 ^ x.exponent := by
    rw [double, abs_mul, abs_of_pos power, ← Int.cast_abs, Int.abs_eq_natAbs, Int.cast_natCast]
  refine ⟨x.significand, x.exponent, rfl, below, ?_, ?_⟩
  · rw [magnitude, add_comm, zpow_add₀ (by norm_num), zpow_natCast]
    gcongr
    exact_mod_cast above.le
  · rw [magnitude, add_assoc, add_comm, zpow_add₀ (by norm_num), ← Nat.cast_succ, zpow_natCast]
    gcongr
    exact_mod_cast bound

/-- If twice a number takes one digit more, half of the greatest short number up to the double is
added to it within that digit. -/
theorem exists_floor_of_double (positive : 1 ≤ digits) (few : s ∈ short digits)
    (long : 2 * s ∉ short digits) :
    ∃ floor, IsGreatest {c ∈ short digits | c ≤ 2 * s} floor ∧
      floor / 2 + s ∈ short (digits + 1) := by
  obtain ⟨n, position, rfl, below, reach, fits⟩ := exists_steps_of_double positive few long
  rw [← add_sub_cancel_right (position + digits) 1, add_right_comm] at reach
  rw [add_right_comm] at fits
  refine ⟨Direction.down.onGrid (position + 1) (2 * (n * 10 ^ position)),
    ⟨⟨onGrid_mem_short .down positive fits, bounds_onGrid .down _ _⟩, ?_⟩, ?_⟩
  · rintro c ⟨known, le⟩
    have tight : Direction.down.Tight digits _ _ := tight_onGrid positive reach
    exact tight c known le
  · have steps := natAbs_steps_le .down fits
    rw [onGrid]
    generalize Direction.down.integer _ = floor at steps ⊢
    have whole : (floor : ℚ) * 10 ^ (position + 1) / 2 + n * 10 ^ position =
        (5 * floor + n : ℤ) * 10 ^ position := by
      rw [zpow_add_one₀ (by norm_num)]
      push_cast
      ring
    rw [whole]
    exact mul_zpow_mem_short (by omega) (by omega) position

variable {lo hi c h l : ℚ}

/-- A rounded sum is not above the double of a short number that neither summand is above, if there
is any short number between the doubled summands. -/
theorem RoundedNearest.sum_le_double (positive : 1 ≤ digits)
    (rounds : RoundedNearest digits (lo + hi) rounded) (between : c ∈ short digits)
    (low : 2 * lo ≤ c) (high : c ≤ 2 * hi) (few : h ∈ short digits) (le : hi ≤ h) :
    rounded ≤ 2 * h := by
  by_cases double : 2 * h ∈ short digits
  · exact rounds.le_of_le double (by linarith)
  cases rounds with
  | once closest =>
    have near := closest c between
    have width : |c - (lo + hi)| ≤ hi - lo := abs_le.mpr ⟨by linarith, by linarith⟩
    linarith [le_abs_self (rounded - (lo + hi))]
  | twice finer first second =>
    obtain ⟨floor, ⟨⟨known, below⟩, greatest⟩, half⟩ :=
      exists_floor_of_double positive few double
    have reached : c ≤ floor := greatest ⟨between, by linarith⟩
    have stays := first.le_of_le (short_mono finer half) (by linarith)
    by_contra! above
    have passed := (abs_sub_le_iff_midpoint_le (below.trans_lt above)).mp
      (second.nearest floor known)
    linarith

theorem RoundedNearest.double_le_sum (positive : 1 ≤ digits)
    (rounds : RoundedNearest digits (lo + hi) rounded) (between : c ∈ short digits)
    (low : 2 * lo ≤ c) (high : c ≤ 2 * hi) (few : l ∈ short digits) (le : l ≤ lo) :
    2 * l ≤ rounded := by
  have mirrored := rounds.neg
  rw [neg_add, add_comm] at mirrored
  have bound := mirrored.sum_le_double positive (neg_mem_short between) (by linarith)
    (by linarith) (neg_mem_short few) (neg_le_neg le)
  linarith

end Direction

namespace DecimalFloat

open Decimal Direction

/-- The nearest result of an operation is rounded a second time if an operand is more precise. -/
theorem Operation.run_roundedNearest (operation : Operation) {precision : ℕ}
    (positive : 1 ≤ precision) (x : DecimalFloat) {y : DecimalFloat}
    (defined : operation.Defined y) :
    RoundedNearest precision (operation.exact x.value.toRat y.value.toRat)
      (operation.run .nearest precision x y).value.toRat := by
  rcases le_or_gt (max x.precision y.precision) precision with le | lt
  · rw [operation.run_eq_of_le .nearest positive le]
    exact .once ((operation.compute_roundedOnce .nearest positive x defined).isClosest positive)
  · rw [operation.run_eq_of_lt .nearest positive lt]
    have more := positive.trans lt.le
    exact .twice lt ((operation.compute_roundedOnce .nearest more x defined).isClosest more)
      (roundTo_isNearest positive _)

theorem two_mem_short {precision : ℕ} (positive : 1 ≤ precision) : 2 ∈ short precision := by
  simpa using mul_zpow_mem_short positive (n := 2)
    (le_trans (by decide) (Nat.le_self_pow (by omega) 10)) 0

/-- If some short number stands between the doubled ends, the midpoint lies between any two short
numbers around the interval. -/
theorem midpoint_between {context : Context} (positive : 1 ≤ context.precision)
    {x : Interval DecimalFloat} {c : ℚ} (between : c ∈ short context.precision)
    (low : 2 * x.lo.value.toRat ≤ c) (high : c ≤ 2 * x.hi.value.toRat) :
    (∀ l ∈ short context.precision, l ≤ x.lo.value.toRat →
      l ≤ (x.midpoint context).value.toRat) ∧
    ∀ h ∈ short context.precision, x.hi.value.toRat ≤ h →
      (x.midpoint context).value.toRat ≤ h := by
  have sum := Operation.sum.run_roundedNearest positive x.lo (y := x.hi) trivial
  have two : (Operation.sum.run .nearest context.precision .one .one).value.toRat = 2 := by
    have twice := Operation.sum.run_roundedNearest positive .one (y := .one) trivial
    have exact : Operation.sum.exact DecimalFloat.one.value.toRat DecimalFloat.one.value.toRat =
        2 := by
      norm_num [Operation.exact, DecimalFloat.one]
    rw [exact] at twice
    exact twice.eq_of_mem_short (two_mem_short positive)
  have half := Operation.quotient.run_roundedNearest positive
    (Operation.sum.run .nearest context.precision x.lo x.hi)
    (y := Operation.sum.run .nearest context.precision .one .one)
    (by norm_num [Operation.Defined, two])
  rw [Operation.exact, two] at half
  constructor
  · intro l few le
    have doubled := sum.double_le_sum positive between low high few le
    exact half.ge_of_ge few (by linarith)
  · intro h few le
    have doubled := sum.sum_le_double positive between low high few le
    exact half.le_of_le few (by linarith)

end DecimalFloat

/-! ## Both kinds of endpoints -/

namespace Interval

open Decimal

/-- An interval of finite 64-bit numbers contains its midpoint in every context, if the sum of its
ends does not overflow.

A decimal midpoint is rounded to the precision of the context. It lies between any two numbers
around the interval that the precision can hold, and so in the interval itself if the precision
can hold its ends, whenever the precision can hold some number between the doubled ends, such as
the sum of the ends or the double of one of them. -/
theorem midpoint_stays_inside :
    (∀ (context : Context) (x : Interval Double), x.isFinite = true → x.Ordered →
      (Binary.add x.lo x.hi).isFinite = true → x.contains (x.midpoint context) = true) ∧
    ∀ (context : Context) (x : Interval DecimalFloat), 1 ≤ context.precision →
      (∃ c ∈ short context.precision, 2 * x.lo.value.toRat ≤ c ∧ c ≤ 2 * x.hi.value.toRat) →
      (∀ l ∈ short context.precision, ∀ h ∈ short context.precision,
        l ≤ x.lo.value.toRat → x.hi.value.toRat ≤ h →
        l ≤ (x.midpoint context).value.toRat ∧ (x.midpoint context).value.toRat ≤ h) ∧
      (x.lo.value.toRat ∈ short context.precision → x.hi.value.toRat ∈ short context.precision →
        x.contains (x.midpoint context) = true) := by
  refine ⟨fun context x => Double.midpoint_contained context, ?_⟩
  rintro context x positive ⟨c, between, low, high⟩
  obtain ⟨above, below⟩ := DecimalFloat.midpoint_between positive between low high
  constructor
  · intro l fewL h fewH leL leH
    exact ⟨above l fewL leL, below h fewH leH⟩
  · intro fewL fewH
    rw [contains, Bool.and_eq_true, DecimalFloat.le_iff, DecimalFloat.le_iff]
    exact ⟨above _ fewL le_rfl, below _ fewH le_rfl⟩

/-- The least positive number is its own midpoint. At one digit the sum of `5` and `6` goes down
to the double of `5`, and half of `7` goes up to `4`. -/
theorem midpoint_stays_inside_narrow :
    let least : Interval Double := point (.ofRank false 1)
    let wide : Interval DecimalFloat := ⟨.ofDecimal (.of 5 0), .ofDecimal (.of 6 0)⟩
    let narrow : Interval DecimalFloat := point (.ofDecimal (.of 35 (-1)))
    let context : Context := ⟨1, 1, .dual⟩
    least.contains (least.midpoint context) = true ∧ wide.contains (wide.midpoint context) = true ∧
      3 ≤ (narrow.midpoint context).value.toRat ∧ (narrow.midpoint context).value.toRat ≤ 4 := by
  intro least wide narrow context
  have digit {k : ℤ} (e : ℤ) (small : k.natAbs < 10) : (Decimal.of k e).toRat ∈ short 1 :=
    ⟨_, size_of_le (by simpa using small) e, rfl⟩
  have double := midpoint_stays_inside.1 context least (by decide +kernel) (by
    rw [Ordered, Endpoint.NotAbove]
    decide +kernel) (by decide +kernel)
  have whole := midpoint_stays_inside.2 context wide le_rfl
    ⟨_, digit (k := 1) 1 (by decide), by norm_num [wide, DecimalFloat.ofDecimal, toRat_of]⟩
  have half := midpoint_stays_inside.2 context narrow le_rfl
    ⟨_, digit (k := 7) 0 (by decide), by norm_num [narrow, point, DecimalFloat.ofDecimal, toRat_of]⟩
  have around := half.1 _ (digit (k := 3) 0 (by decide)) _ (digit (k := 4) 0 (by decide))
    (by norm_num [narrow, point, DecimalFloat.ofDecimal, toRat_of])
    (by norm_num [narrow, point, DecimalFloat.ofDecimal, toRat_of])
  rw [toRat_of, toRat_of] at around
  exact ⟨double, whole.2 (digit 0 (by decide)) (digit 0 (by decide)), by simpa using around⟩

/-- No number of one digit lies in `[3.5;3.5]`, so its midpoint to one digit does not either. -/
theorem midpoint_outside_at_one_digit :
    let x : Interval DecimalFloat := point (.ofDecimal (.of 35 (-1)))
    let context : Context := ⟨1, 1, .dual⟩
    x.lo.Made ∧ x.hi.Made ∧ context.validate = .ok context ∧ x.isFinite = true ∧
      Endpoint.le x.lo x.hi = true ∧ x.contains (x.midpoint context) = false := by
  intro x context
  have made : (DecimalFloat.ofDecimal (.of 35 (-1))).Made :=
    .read (by decide +kernel : DecimalFloat.readDirected .nearest 2 "3.5".toList = .ok _)
  exact ⟨made, made, by decide +kernel⟩

end Interval

end LinearEnclosure
