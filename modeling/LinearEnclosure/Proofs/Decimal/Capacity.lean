/-
# How many digits an endpoint holds

An endpoint may hold more digits than its precision says. The guard digit of a sum may stay,
a zero summand is dropped without any rounding, and an even quotient is exact. But all this
adds up to one digit only: every endpoint that is read, converted or computed holds at most
one digit more than its precision, whatever the precisions on the way were.

The induction is on how the endpoint came about. An operation works at the largest precision
involved, so its operands hold at most one digit more than that, and so does its result; if
it is rounded a second time no extra digit is left.
-/

import LinearEnclosure.Interval.Endpoint
import LinearEnclosure.Proofs.Decimal.Operations

namespace LinearEnclosure.DecimalFloat

open Decimal

variable {direction : Direction} {digits : ℕ} {x y : Decimal}

/-! ## Digits of exact decimals -/

theorem size_neg (x : Decimal) : x.neg.size = x.size := by
  rw [size, size, Decimal.neg, Int.natAbs_neg]

theorem roundTo_mem_short (positive : 1 ≤ digits) (x : Decimal) :
    (x.roundTo direction digits).toRat ∈ short digits := by
  rw [toRat_roundTo]
  apply direction.onGrid_mem_short positive
  rw [sub_add_cancel]
  exact (abs_toRat_lt x).le

/-- The position of a sum leaves room for one digit too many: what is cut off before the
leading position is read off cannot carry it any further. -/
theorem abs_add_le_of_sumPosition (order : y.exponent ≤ x.exponent) :
    |x.toRat + y.toRat| ≤ 10 ^ (sumPosition digits x y + (digits + 1 : ℕ)) := by
  simp only [sumPosition]
  generalize (decide (y.exponent < x.exponent) &&
    (x.significand.sign != y.significand.sign)) = opposite
  generalize position : cutPosition digits opposite x y = cut
  have below : cut ≤ x.exponent := by
    rw [← position, cutPosition]
    split <;> omega
  have power : (0 : ℚ) < 10 ^ cut := by positivity
  have head : ((headAt cut x + headAt cut y : ℤ) : ℚ) * 10 ^ cut =
      x.toRat + headAt cut y * 10 ^ cut := by
    rw [Int.cast_add, add_mul, headAt_of_le below]
  generalize headAt cut x + headAt cut y = whole at head ⊢
  have count : |(whole : ℚ)| + 1 ≤ 10 ^ digitCount whole.natAbs := by
    rw [← Int.cast_abs, Int.abs_eq_natAbs]
    exact_mod_cast lt_ten_pow_digitCount whole.natAbs
  calc |x.toRat + y.toRat|
      = |whole * 10 ^ cut + (y.toRat - headAt cut y * 10 ^ cut)| := by
        rw [head]
        congr 1
        ring
    _ ≤ |(whole : ℚ) * 10 ^ cut| + 10 ^ cut :=
      (abs_add_le _ _).trans (by gcongr; exact (abs_sub_headAt_lt cut y).le)
    _ = (|(whole : ℚ)| + 1) * 10 ^ cut := by rw [abs_mul, abs_of_pos power]; ring
    _ ≤ 10 ^ digitCount whole.natAbs * 10 ^ cut := by gcongr
    _ = 10 ^ (cut + digitCount whole.natAbs) := by
      rw [zpow_add₀ (by norm_num), zpow_natCast, mul_comm]
    _ ≤ _ := zpow_le_zpow_right₀ (by norm_num) (by split <;> omega)

theorem sum_mem_short (left : x.size ≤ digits + 1) (right : y.size ≤ digits + 1) :
    (sum direction digits x y).toRat ∈ short (digits + 1) := by
  have positive : 1 ≤ digits + 1 := by omega
  unfold sum
  split
  · exact mem_short_iff.mpr right
  split
  · exact mem_short_iff.mpr left
  split
  · next order =>
    rw [toRat_sumAt]
    exact direction.onGrid_mem_short positive (abs_add_le_of_sumPosition order.le)
  · next order =>
    rw [toRat_sumAt]
    exact direction.onGrid_mem_short positive (abs_add_le_of_sumPosition (not_lt.mp order))

/-- A quotient is not carried on further than to one digit too many. -/
private theorem numerator_bounded (size : x.size ≤ digits + 1) (nonzero : y.significand ≠ 0) :
    x.significand.natAbs * 10 ^ quotientPlaces digits x y ≤
      y.significand.natAbs * 10 ^ (digits + 1) := by
  have divisor : 1 ≤ y.significand.natAbs := Int.natAbs_pos.mpr nonzero
  have dividend : x.significand.natAbs < 10 ^ x.size := lt_ten_pow_digitCount _
  have unmoved : x.significand.natAbs ≤ y.significand.natAbs * 10 ^ (digits + 1) :=
    calc x.significand.natAbs ≤ 10 ^ x.size := dividend.le
      _ ≤ 10 ^ (digits + 1) := Nat.pow_le_pow_right (by norm_num) size
      _ ≤ y.significand.natAbs * 10 ^ (digits + 1) := Nat.le_mul_of_pos_left _ divisor
  simp only [quotientPlaces]
  split
  · simpa using unmoved
  split
  · next below =>
    have less : x.significand.natAbs < y.significand.natAbs :=
      (Nat.div_eq_zero_iff.mp below).resolve_left (by omega)
    have sizes : x.size ≤ y.size := digitCount_le_of_lt (less.trans (lt_ten_pow_digitCount _))
    have some_digit : 0 < y.size := digitCount_pos divisor
    calc x.significand.natAbs * 10 ^ (y.size + digits - x.size)
        ≤ 10 ^ x.size * 10 ^ (y.size + digits - x.size) := by gcongr
      _ = 10 ^ (y.size - 1) * 10 ^ (digits + 1) := by
        rw [← pow_add, ← pow_add]
        congr 1
        omega
      _ ≤ y.significand.natAbs * 10 ^ (digits + 1) := by
        gcongr
        exact ten_pow_le_of_digitCount divisor
  · generalize whole : x.significand.natAbs / y.significand.natAbs = w
    have count : w < 10 ^ digitCount w := lt_ten_pow_digitCount w
    rcases le_or_gt digits (digitCount w) with long | short
    · simpa [Nat.sub_eq_zero_of_le long] using unmoved
    calc x.significand.natAbs * 10 ^ (digits - digitCount w)
        ≤ (y.significand.natAbs * (w + 1)) * 10 ^ (digits - digitCount w) := by
          gcongr
          rw [← whole]
          exact (Nat.lt_mul_div_succ _ divisor).le
      _ ≤ (y.significand.natAbs * 10 ^ digitCount w) * 10 ^ (digits - digitCount w) := by
        gcongr
        exact count
      _ = y.significand.natAbs * 10 ^ digits := by
        rw [mul_assoc, ← pow_add, Nat.add_sub_cancel' short.le]
      _ ≤ y.significand.natAbs * 10 ^ (digits + 1) := by
        gcongr
        · norm_num
        · omega

theorem quotient_mem_short (size : x.size ≤ digits + 1) (nonzero : y.toRat ≠ 0) :
    (quotient direction digits x y).toRat ∈ short (digits + 1) := by
  rw [quotient, toRat_quotientAt _ _ _ nonzero]
  apply direction.onGrid_mem_short (by omega)
  have divisor : y.significand ≠ 0 := mt toRat_eq_zero_iff.mpr nonzero
  have bounded := numerator_bounded size divisor
  generalize quotientPlaces digits x y = places at bounded ⊢
  have bounded : |(x.significand : ℚ)| * 10 ^ places ≤
      |(y.significand : ℚ)| * 10 ^ (digits + 1) := by
    rw [← Int.cast_abs, ← Int.cast_abs, Int.abs_eq_natAbs, Int.abs_eq_natAbs]
    exact_mod_cast bounded
  have scale : 0 < |(y.significand : ℚ)| := abs_pos.mpr (Int.cast_ne_zero.mpr divisor)
  have power : (10 : ℚ) ^ (x.exponent - y.exponent - places + (digits + 1 : ℕ)) =
      10 ^ (digits + 1) / 10 ^ places * (10 ^ x.exponent / 10 ^ y.exponent) := by
    rw [← zpow_natCast, ← zpow_natCast, ← zpow_sub₀ (by norm_num), ← zpow_sub₀ (by norm_num),
      ← zpow_add₀ (by norm_num)]
    congr 1
    ring
  rw [toRat, toRat, mul_div_mul_comm, abs_mul, abs_div, power,
    abs_of_pos (by positivity : (0 : ℚ) < 10 ^ x.exponent / 10 ^ y.exponent)]
  apply mul_le_mul_of_nonneg_right _ (by positivity)
  rw [div_le_div_iff₀ scale (by positivity)]
  linarith

/-! ## Digits of endpoints -/

/-- The second rounding leaves no more digits than the precision it settles for. -/
theorem size_withPrecision_le {precision : ℕ} (positive : 1 ≤ precision) {x : DecimalFloat}
    (size : x.value.size ≤ x.precision + 1) (le : precision ≤ x.precision) :
    (x.withPrecision direction precision).value.size ≤ precision + 1 := by
  unfold withPrecision
  split
  · exact (mem_short_iff.mp (roundTo_mem_short positive x.value)).trans (Nat.le_succ _)
  · next kept => exact size.trans (by omega)

theorem size_apply_le {operation : Direction → ℕ → Decimal → Decimal → Decimal}
    {x y : DecimalFloat} (short : ∀ digits, 1 ≤ digits → x.precision ≤ digits →
      y.precision ≤ digits → (operation direction digits x.value y.value).size ≤ digits + 1)
    (precision : ℕ) :
    (apply operation direction precision x y).value.size ≤ max precision 1 + 1 :=
  size_withPrecision_le (le_max_right precision 1)
    (short _ (by omega) (by omega) (by omega)) (le_max_left _ _)

theorem Operation.precision_run (operation : Operation) (precision : ℕ) (x y : DecimalFloat) :
    (operation.run direction precision x y).precision = max precision 1 := by
  cases operation <;> rfl

/-- Operands that hold at most one digit too many have such a result. -/
theorem Operation.size_run_le (operation : Operation) (direction : Direction) (precision : ℕ)
    {x y : DecimalFloat} (left : x.value.size ≤ x.precision + 1)
    (right : y.value.size ≤ y.precision + 1) (defined : operation.Defined y) :
    (operation.run direction precision x y).value.size ≤ max precision 1 + 1 := by
  cases operation with
  | sum =>
    apply size_apply_le
    intro digits _ _ _
    exact mem_short_iff.mp (sum_mem_short (by omega) (by omega))
  | difference =>
    apply size_apply_le
    intro digits _ _ _
    have mirrored : y.neg.value.size ≤ y.neg.precision + 1 := (size_neg y.value).trans_le right
    exact mem_short_iff.mp (sum_mem_short (by omega) (by omega))
  | product =>
    apply size_apply_le
    intro digits positive _ _
    exact (mem_short_iff.mp (roundTo_mem_short positive _)).trans (Nat.le_succ _)
  | quotient =>
    apply size_apply_le
    intro digits _ _ _
    exact mem_short_iff.mp (quotient_mem_short (by omega) defined)

/-- What is read is a number in range, rounded. -/
theorem readDirected_eq_ok_iff {precision : ℕ} {text : List Char} {x : DecimalFloat} :
    readDirected direction precision text = .ok x ↔
      ∃ number, Decimal.read text = some number ∧ Literal.fits (number.exponent - 1) = true ∧
        round direction precision number = x := by
  unfold readDirected
  cases Decimal.read text with
  | none => simp
  | some number =>
    by_cases fits : Literal.fits (number.exponent - 1) = true
    · simp [fits]
    · simp [fits]

/-- The endpoints that can come about: the constants, what is read or converted, and the
results of operations at any precisions and in any directions. -/
inductive Made : DecimalFloat → Prop
  | zero : Made .zero
  | one : Made .one
  | epsilon (precision : ℕ) : Made (epsilon precision)
  | read {direction : Direction} {precision : ℕ} {text : List Char} {x : DecimalFloat} :
      readDirected direction precision text = .ok x → Made x
  | ofDouble {precision : ℕ} {d : Double} {x : DecimalFloat} : ofDouble precision d = .ok x →
      Made x
  | neg {x : DecimalFloat} : Made x → Made x.neg
  | run (operation : Operation) (direction : Direction) (precision : ℕ) {x y : DecimalFloat} :
      Made x → Made y → operation.Defined y → Made (operation.run direction precision x y)

/-- Every integer of one digit can be read. -/
theorem Made.digit {k : ℤ} (small : k ∈ Finset.Icc (-9) 9) : Made (ofDecimal (.of k 0)) := by
  have accepted : ∀ k ∈ Finset.Icc (-9 : ℤ) 9,
      readDirected .down 1 (Decimal.of k 0).plain = .ok (ofDecimal (.of k 0)) := by
    decide +kernel
  exact .read (accepted k small)

theorem size_round_le (precision : ℕ) (x : Decimal) :
    (round direction precision x).value.size ≤ (round direction precision x).precision + 1 := by
  unfold round withPrecision
  split
  · exact (mem_short_iff.mp (roundTo_mem_short (by omega) _)).trans (Nat.le_succ _)
  · next kept =>
    simp only [ofDecimal] at kept ⊢
    omega

/-- No endpoint holds more than one digit beyond its precision. -/
theorem Made.size_le {x : DecimalFloat} (made : x.Made) : x.value.size ≤ x.precision + 1 := by
  induction made with
  | zero => decide
  | one => decide
  | epsilon precision =>
    simp only [DecimalFloat.epsilon, ofDecimal]
    omega
  | read accepted =>
    obtain ⟨number, -, -, rfl⟩ := readDirected_eq_ok_iff.mp accepted
    exact size_round_le _ _
  | ofDouble accepted =>
    unfold DecimalFloat.ofDouble at accepted
    split at accepted
    · obtain rfl := Except.ok.inj accepted
      exact size_round_le _ _
    · cases accepted
  | neg _ ih => exact (size_neg _).trans_le ih
  | run operation direction precision _ _ defined left right =>
    rw [operation.precision_run]
    exact operation.size_run_le direction precision left right defined

/-! ## Numbers that an endpoint can hold -/

/-- A result that the precision can hold is exact. -/
theorem Operation.toRat_run_of_mem_short (operation : Operation) {precision : ℕ}
    (positive : 1 ≤ precision) {x y : DecimalFloat} (defined : operation.Defined y)
    (few : operation.exact x.value.toRat y.value.toRat ∈ short precision) :
    (operation.run .down precision x y).value.toRat =
      operation.exact x.value.toRat y.value.toRat :=
  le_antisymm (operation.run_bounds .down precision x defined)
    (operation.run_tight .down positive x defined _ few le_rfl)

/-- Some endpoint of a precision holds a number. -/
def IsHeld (precision : ℕ) (q : ℚ) : Prop :=
  ∃ x : DecimalFloat, x.Made ∧ x.precision = precision ∧ x.value.toRat = q

namespace IsHeld

variable {precision : ℕ} (positive : 1 ≤ precision)
include positive

/-- The precision holds the short results of numbers that can come about. -/
theorem of_run (operation : Operation) {x y : DecimalFloat} {q : ℚ} (left : x.Made)
    (right : y.Made) (defined : operation.Defined y)
    (exact : operation.exact x.value.toRat y.value.toRat = q) (few : q ∈ short precision) :
    IsHeld precision q := by
  subst exact
  refine ⟨operation.run .down precision x y, .run _ _ _ left right defined, ?_,
    operation.toRat_run_of_mem_short positive defined few⟩
  rw [operation.precision_run]
  omega

/-- Count up to the number. -/
theorem natural {n : ℕ} (le : n ≤ 10 ^ precision) : IsHeld precision n := by
  have few : (n : ℚ) ∈ short precision := by
    simpa using mul_zpow_mem_short positive (n := n) (by simpa using le) 0
  induction n with
  | zero =>
    exact of_run positive .sum .zero .zero trivial
      (by simp [Operation.exact, DecimalFloat.zero]) few
  | succ n ih =>
    obtain ⟨x, made, -, value⟩ := ih (by omega) (by
      simpa using mul_zpow_mem_short positive (n := n) (by simp; omega) 0)
    exact of_run positive .sum made .one trivial
      (by simp [Operation.exact, DecimalFloat.one, value]) few

/-- Multiply or divide by ten, once for each place. -/
theorem power (e : ℤ) : IsHeld precision (10 ^ e) := by
  have few (e : ℤ) : (10 : ℚ) ^ e ∈ short precision := by
    simpa using mul_zpow_mem_short positive (n := 1) (by simp; exact Nat.one_le_pow' _ _) e
  obtain ⟨ten, tenMade, -, tenValue⟩ :=
    natural positive (n := 10) (Nat.le_self_pow (by omega) 10)
  induction e using Int.induction_on with
  | zero => simpa using natural positive (n := 1) (Nat.one_le_pow' _ _)
  | succ e ih =>
    obtain ⟨x, made, -, value⟩ := ih
    refine of_run positive .product made tenMade trivial ?_ (few _)
    rw [Operation.exact, value, tenValue, zpow_add_one₀ (by norm_num)]
    rfl
  | pred e ih =>
    obtain ⟨x, made, -, value⟩ := ih
    refine of_run positive .quotient made tenMade (by simp [Operation.Defined, tenValue]) ?_
      (few _)
    rw [Operation.exact, value, tenValue, zpow_sub_one₀ (by norm_num), div_eq_mul_inv]
    rfl

/-- Every number with few enough digits is held. -/
theorem of_mem_short {q : ℚ} (few : q ∈ short precision) : IsHeld precision q := by
  obtain ⟨x, size, rfl⟩ := few
  have below : x.significand.natAbs < 10 ^ precision :=
    (lt_ten_pow_digitCount _).trans_le (Nat.pow_le_pow_right (by norm_num) size)
  obtain ⟨u, unsigned, -, uValue⟩ := natural positive below.le
  obtain ⟨v, scale, -, vValue⟩ := power positive x.exponent
  have few : x.toRat ∈ short precision := mem_short_iff.mpr size
  rcases Int.natAbs_eq x.significand with sign | sign
  · refine of_run positive .product unsigned scale trivial ?_ few
    rw [Operation.exact, uValue, vValue, toRat, sign]
    simp
  · refine of_run positive .product unsigned.neg scale trivial ?_ few
    rw [Operation.exact, DecimalFloat.neg, toRat_neg, uValue, vValue, toRat, sign]
    simp

end IsHeld

end LinearEnclosure.DecimalFloat
