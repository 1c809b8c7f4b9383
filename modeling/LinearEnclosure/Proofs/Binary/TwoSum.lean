/-
# The error of a sum

What a rounded sum leaves out is itself representable, and two-sum finds it with five more
operations. Apart from the rounding of the sum itself only the second operation, which
takes the first summand back out of the sum, can round; the other four are exact. All of
them stay below any bound that the summands, the sum and the second operation stay below,
so nothing but the second operation can overflow.
-/

import LinearEnclosure.Proofs.Binary.Place

namespace LinearEnclosure.Format

variable {F : Format} {a b s r : ℤ}

namespace Rounds

/-- The error of a sum is a short multiple of the smaller spacing of the summands. -/
theorem error_representable (left : F.Representable a) (right : F.Representable b)
    (sum : F.Rounds (a + b : ℤ) s) : F.Representable (a + b - s) := by
  obtain ⟨j, multipleA, boundA, -⟩ := left.exists_spacing
  obtain ⟨k, multipleB, boundB, -⟩ := right.exists_spacing
  wlog order : j ≤ k generalizing a b j k
  · rw [add_comm a b] at sum ⊢
    exact this right left sum k multipleB boundB j multipleA boundA (by omega)
  have multiple : 2 ^ j ∣ a + b := multipleA.add ((pow_dvd_pow 2 order).trans multipleB)
  have near := sum.near right
  rw [abs_sub_comm, show b - (a + b) = -a by ring, abs_neg] at near
  exact representable_of_dvd (multiple.sub (sum.dvd multiple)) (near.trans boundA.le)

/-- The spacing grows with the magnitude. -/
private theorem spacing_le {j k : ℕ} (larger : |b| ≤ |a|)
    (low : k = 0 ∨ F.normalRank * 2 ^ k ≤ |b|) (bound : |a| < 2 * F.normalRank * 2 ^ j) :
    k ≤ j := by
  by_contra! less
  have power : (2 : ℤ) ^ (j + 1) ≤ 2 ^ k := pow_le_pow_right₀ (by norm_num) less
  have bounded : (F.normalRank : ℤ) * 2 ^ (j + 1) ≤ F.normalRank * 2 ^ k := by gcongr
  rw [pow_succ] at bounded
  rcases low with zero | low
  · omega
  · linarith

/-- A sum that is not representable is rounded to a coarser spacing than the one of `b`. -/
private theorem dvd_succ_of_long {k : ℕ} (sum : F.Rounds (a + b : ℤ) s)
    (long : 2 * F.normalRank * 2 ^ k < |a + b|) : 2 ^ (k + 1) ∣ s := by
  have limit : F.Representable (2 * F.normalRank * 2 ^ k) :=
    representable_of_dvd (dvd_mul_left _ _) (abs_of_nonneg (by positivity)).le
  have reached := sum.reaches limit (by exact_mod_cast long.le)
  obtain ⟨spacing, divides, bound, -⟩ := sum.representable.exists_spacing
  have finer : k < spacing := by
    by_contra! coarse
    have power : (2 : ℤ) ^ spacing ≤ 2 ^ k := pow_le_pow_right₀ (by norm_num) coarse
    have bounded : 2 * (F.normalRank : ℤ) * 2 ^ spacing ≤ 2 * F.normalRank * 2 ^ k := by gcongr
    omega
  exact (pow_dvd_pow 2 finer).trans divides

/-- An even significand may be twice as long. -/
private theorem representable_of_even {k : ℕ} {m : ℤ} (even : Even m)
    (size : |m| ≤ 2 * (2 * F.normalRank)) : F.Representable (2 ^ k * m) := by
  obtain ⟨half, rfl⟩ := even
  have double : 2 ^ k * (half + half) = 2 ^ (k + 1) * half := by ring
  have power : (0 : ℤ) < 2 ^ (k + 1) := by positivity
  have size : |half| ≤ 2 * F.normalRank := by
    rw [abs_le] at size ⊢
    omega
  rw [double]
  apply representable_of_dvd (dvd_mul_right _ _)
  rw [abs_mul, abs_of_pos power, mul_comm]
  gcongr

/-- A sum with an odd significand is off by one step of it, as its neighbours are even. -/
private theorem near_of_odd {k : ℕ} {m : ℤ} (sum : F.Rounds (2 ^ k * m : ℤ) s) (odd : Odd m)
    (bound : |m| < 2 * (2 * F.normalRank)) : |s - 2 ^ k * m| ≤ 2 ^ k := by
  have size : |m - 1| ≤ 2 * (2 * F.normalRank) := by
    rw [abs_lt] at bound
    rw [abs_le]
    omega
  have below : F.Representable (2 ^ k * (m - 1)) :=
    representable_of_even (odd.sub_odd odd_one) size
  have near := sum.near below
  have power : (0 : ℤ) < 2 ^ k := by positivity
  rwa [show 2 ^ k * (m - 1) - 2 ^ k * m = -2 ^ k by ring, abs_neg, abs_of_pos power] at near

/-- With one spacing the sum is off by one step of it, and the second summand has room for
that. -/
private theorem sub_representable_of_common {k : ℕ} {m n : ℤ}
    (boundA : |2 ^ k * m| < 2 * F.normalRank * 2 ^ k)
    (boundB : |2 ^ k * n| < 2 * F.normalRank * 2 ^ k)
    (sum : F.Rounds (2 ^ k * m + 2 ^ k * n : ℤ) s) (coarse : 2 ^ (k + 1) ∣ s)
    (unknown : ¬F.Representable (2 ^ k * m + 2 ^ k * n)) : F.Representable (s - 2 ^ k * m) := by
  have power : (0 : ℤ) < 2 ^ k := by positivity
  have scaled (z bound : ℤ) : |2 ^ k * z| < bound * 2 ^ k ↔ |z| < bound := by
    rw [abs_mul, abs_of_pos power, mul_comm, mul_lt_mul_iff_left₀ power]
  rw [scaled] at boundA boundB
  have total := abs_add_le m n
  rw [← mul_add] at sum unknown
  have odd : Odd (m + n) := by
    rw [← Int.not_even_iff_odd]
    intro even
    exact unknown (representable_of_even even (by omega))
  have near := near_of_odd sum odd (by omega)
  have size := abs_add_le (s - 2 ^ k * (m + n)) (2 ^ k * n)
  rw [show s - 2 ^ k * (m + n) + 2 ^ k * n = s - 2 ^ k * m by ring, abs_mul,
    abs_of_pos power] at size
  refine representable_of_dvd (((pow_dvd_pow 2 k.le_succ).trans coarse).sub
    (dvd_mul_right _ _)) ?_
  calc |s - 2 ^ k * m| ≤ 2 ^ k + 2 ^ k * |n| := by linarith
    _ = (|n| + 1) * 2 ^ k := by ring
    _ ≤ 2 * F.normalRank * 2 ^ k := by gcongr; omega

/-- Taking the larger summand back out of a sum is exact. -/
theorem sub_representable (left : F.Representable a) (right : F.Representable b)
    (larger : |b| ≤ |a|) (sum : F.Rounds (a + b : ℤ) s) : F.Representable (s - a) := by
  by_cases known : F.Representable (a + b)
  · rwa [sum.eq known, add_sub_cancel_left]
  obtain ⟨j, multipleA, boundA, -⟩ := left.exists_spacing
  obtain ⟨k, multipleB, boundB, lowB⟩ := right.exists_spacing
  have order := spacing_le larger lowB boundA
  have multiple : 2 ^ k ∣ a + b := ((pow_dvd_pow 2 order).trans multipleA).add multipleB
  have long : 2 * F.normalRank * 2 ^ k < |a + b| := by
    by_contra! short
    exact known (representable_of_dvd multiple short)
  have coarse := dvd_succ_of_long sum long
  rcases order.lt_or_eq with finer | rfl
  · -- The difference is a multiple of the coarser spacing, and at most twice as large as `b`.
    have near := sum.near left
    rw [show a - (a + b) = -b by ring, abs_neg] at near
    have size := abs_add_le (s - (a + b)) b
    rw [show s - (a + b) + b = s - a by ring] at size
    refine representable_of_dvd (coarse.sub ((pow_dvd_pow 2 finer).trans multipleA)) ?_
    rw [pow_succ]
    linarith
  · obtain ⟨m, rfl⟩ := multipleA
    obtain ⟨n, rfl⟩ := multipleB
    exact sub_representable_of_common boundA boundB sum coarse known

/-- A sum of unlike signs that comes out smaller than both summands is exact. -/
theorem eq_of_small (left : F.Representable a) (right : F.Representable b)
    (larger : |a| ≤ |b|) (sum : F.Rounds (a + b : ℤ) s) (small : |s| < |a|) : s = a + b := by
  have magnitude : F.Representable |a| := by
    rcases abs_choice a with same | opposite
    · rwa [same]
    · rw [opposite]
      exact left.neg
  have short : |a + b| < |a| := by
    by_contra! long
    have reached := sum.reaches magnitude (by exact_mod_cast long)
    omega
  obtain ⟨j, multipleA, boundA, lowA⟩ := left.exists_spacing
  obtain ⟨k, multipleB, boundB, -⟩ := right.exists_spacing
  have order := spacing_le larger lowA boundB
  have multiple : 2 ^ j ∣ a + b := multipleA.add ((pow_dvd_pow 2 order).trans multipleB)
  exact sum.eq (representable_of_dvd multiple (short.trans boundA).le)

end Rounds

/-! ## Two-sum -/

variable (F) in
/-- The rounded sum of two representable numbers, and what comes back when the first one is
taken out of it again. -/
structure TwoSum (a b sum back : ℤ) : Prop where
  left : F.Representable a
  right : F.Representable b
  rounded : F.Rounds (a + b : ℤ) sum
  taken : F.Rounds (sum - a : ℤ) back

namespace TwoSum

variable {sum back : ℤ}

theorem neg (twoSum : F.TwoSum a b sum back) : F.TwoSum (-a) (-b) (-sum) (-back) := by
  refine ⟨twoSum.left.neg, twoSum.right.neg, ?_, ?_⟩
  · have := twoSum.rounded.neg
    rwa [← Int.cast_neg, neg_add] at this
  · have := twoSum.taken.neg
    rwa [← Int.cast_neg, neg_sub, ← neg_sub_neg] at this

theorem taken_add (twoSum : F.TwoSum a b sum back) : F.Rounds (sum + -a : ℤ) back := by
  rw [← sub_eq_add_neg]
  exact twoSum.taken

/-- The error of the sum is no larger than the first summand. -/
theorem abs_error_le (twoSum : F.TwoSum a b sum back) : |a + b - sum| ≤ |a| := by
  have near := twoSum.rounded.near twoSum.right
  rwa [abs_sub_comm, show b - (a + b) = -a by ring, abs_neg] at near

theorem error_representable (twoSum : F.TwoSum a b sum back) :
    F.Representable (a + b - sum) :=
  twoSum.rounded.error_representable twoSum.left twoSum.right

/-- If the first summand is the larger one, the second operation is exact. -/
theorem back_eq (twoSum : F.TwoSum a b sum back) (larger : |b| ≤ |a|) : back = sum - a :=
  twoSum.taken.eq (twoSum.rounded.sub_representable twoSum.left twoSum.right larger)

/-- If the second summand is the larger one, the sum and what comes back have its sign. -/
theorem nonneg (twoSum : F.TwoSum a b sum back) (larger : |a| ≤ |b|) (sign : 0 ≤ b) :
    0 ≤ sum ∧ 0 ≤ back := by
  have error := abs_le.mp twoSum.abs_error_le
  have low := neg_abs_le a
  rw [abs_of_nonneg sign] at larger
  constructor
  · exact twoSum.rounded.le_of_le representable_zero (by norm_cast; omega)
  · exact twoSum.taken.le_of_le representable_zero (by norm_cast; omega)

/-- The first summand as it is recovered from the sum. -/
theorem recovered_representable (twoSum : F.TwoSum a b sum back) :
    F.Representable (sum - back) := by
  rcases le_total |b| |a| with larger | larger
  · rw [twoSum.back_eq larger, sub_sub_cancel]
    exact twoSum.left
  rcases le_or_gt |a| |sum| with large | small
  · have difference := twoSum.taken_add.sub_representable twoSum.rounded.representable
      twoSum.left.neg (by rwa [abs_neg])
    simpa using difference.neg
  · have exact := twoSum.rounded.eq_of_small twoSum.left twoSum.right larger small
    have taken := twoSum.taken
    rw [exact, add_sub_cancel_left] at taken
    rw [exact, taken.eq twoSum.right, add_sub_cancel_right]
    exact twoSum.left

/-- What the first summand has lost is the error of the second operation. -/
theorem left_error_representable (twoSum : F.TwoSum a b sum back) :
    F.Representable (a - (sum - back)) := by
  have error := twoSum.taken_add.error_representable twoSum.rounded.representable
    twoSum.left.neg
  rw [show a - (sum - back) = -(sum + -a - back) by ring]
  exact error.neg

/-- What the second summand has lost. -/
theorem right_error_representable (twoSum : F.TwoSum a b sum back) :
    F.Representable (b - back) := by
  have error := twoSum.error_representable
  rcases le_total |b| |a| with larger | larger
  · rwa [twoSum.back_eq larger, show b - (sum - a) = a + b - sum by ring]
  · have taken : F.Rounds (b + -(a + b - sum) : ℤ) back := by
      rw [show b + -(a + b - sum) = sum - a by ring]
      exact twoSum.taken
    have difference := taken.sub_representable twoSum.right error.neg
      (by rw [abs_neg]; exact twoSum.abs_error_le.trans larger)
    simpa using difference.neg

/-! Bounds that the summands and the two rounded operations keep to are kept by the rest. -/

variable {bound : ℤ}

/-- Numbers of one sign differ by less than a bound for both. -/
private theorem abs_sub_lt_of_nonneg {x y : ℤ} (signs : 0 ≤ x ∧ 0 ≤ y) (left : |x| < bound)
    (right : |y| < bound) : |x - y| < bound := by
  rw [abs_lt] at *
  omega

theorem abs_recovered_lt (twoSum : F.TwoSum a b sum back) (left : |a| < bound)
    (whole : |sum| < bound) (taken : |back| < bound) : |sum - back| < bound := by
  rcases le_total |b| |a| with larger | larger
  · rwa [twoSum.back_eq larger, sub_sub_cancel]
  rcases le_total 0 b with sign | sign
  · exact abs_sub_lt_of_nonneg (twoSum.nonneg larger sign) whole taken
  · have mirrored := twoSum.neg.nonneg (by rwa [abs_neg, abs_neg]) (neg_nonneg.mpr sign)
    rw [← abs_neg, neg_sub']
    exact abs_sub_lt_of_nonneg mirrored (by rwa [abs_neg]) (by rwa [abs_neg])

theorem abs_left_error_lt (twoSum : F.TwoSum a b sum back) (whole : |sum| < bound) :
    |a - (sum - back)| < bound := by
  have near := twoSum.taken.near twoSum.left.neg
  rw [show -a - (sum - a) = -sum by ring, abs_neg,
    show back - (sum - a) = a - (sum - back) by ring] at near
  omega

theorem abs_right_error_lt (twoSum : F.TwoSum a b sum back) (left : |a| < bound)
    (right : |b| < bound) (taken : |back| < bound) : |b - back| < bound := by
  rcases le_total |b| |a| with larger | larger
  · rw [twoSum.back_eq larger, show b - (sum - a) = a + b - sum by ring]
    exact twoSum.abs_error_le.trans_lt left
  rcases le_total 0 b with sign | sign
  · exact abs_sub_lt_of_nonneg ⟨sign, (twoSum.nonneg larger sign).2⟩ right taken
  · have mirrored := twoSum.neg.nonneg (by rwa [abs_neg, abs_neg]) (neg_nonneg.mpr sign)
    rw [← abs_neg, neg_sub']
    exact abs_sub_lt_of_nonneg ⟨neg_nonneg.mpr sign, mirrored.2⟩ (by rwa [abs_neg])
      (by rwa [abs_neg])

end TwoSum

end LinearEnclosure.Format
