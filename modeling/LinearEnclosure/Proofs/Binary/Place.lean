/-
# Places and the nearest of them

A place is a rank with a sign, so the places are the integers, and the number of units at a
place is an odd, strictly increasing function of it. Here the places go on beyond the finite
ones; overflow is decided afterwards.

Rounding to nearest is described by where the exact result lies between the midpoints next
to a place. Everything else follows from that description and the order of the places:
rounding is monotone, keeps what is representable, is as near as any other number, and has
the same multiples of powers of two as the exact result.
-/

import LinearEnclosure.Proofs.Binary.Magnitude

namespace LinearEnclosure.Format

variable (F : Format)

/-- The number of units at a place. -/
def unitsAt (place : ℤ) : ℤ :=
  place.sign * F.units place.natAbs

@[simp] theorem unitsAt_natCast (rank : ℕ) : F.unitsAt rank = F.units rank := by
  rcases Nat.eq_zero_or_pos rank with rfl | positive
  · simp [unitsAt]
  · rw [unitsAt, Int.sign_eq_one_of_pos (by omega), one_mul, Int.natAbs_natCast]

theorem unitsAt_natCast_succ (rank : ℕ) : F.unitsAt (rank + 1) = F.units (rank + 1) := by
  rw [← Nat.cast_succ, unitsAt_natCast]

@[simp] theorem unitsAt_neg (place : ℤ) : F.unitsAt (-place) = -F.unitsAt place := by
  rw [unitsAt, unitsAt, Int.sign_neg, Int.natAbs_neg, neg_mul]

theorem abs_unitsAt (place : ℤ) : |F.unitsAt place| = F.units place.natAbs := by
  rcases Int.natAbs_eq place with sign | sign
  · rw [sign, unitsAt_natCast, Int.natAbs_natCast, Nat.abs_cast]
  · rw [sign, unitsAt_neg, unitsAt_natCast, Int.natAbs_neg, Int.natAbs_natCast, abs_neg,
      Nat.abs_cast]

@[simp] theorem unitsAt_zero : F.unitsAt 0 = 0 := by
  simp [unitsAt]

@[simp] theorem unitsAt_one : F.unitsAt 1 = 1 := by
  have first := F.units_succ 0
  rw [units_zero, Format.shift, Nat.zero_div, Nat.zero_sub, pow_zero] at first
  rw [← Nat.cast_one, unitsAt_natCast, first, Nat.zero_add]

theorem unitsAt_strictMono : StrictMono F.unitsAt := by
  apply strictMono_int_of_lt_succ
  intro place
  rcases le_or_gt 0 place with nonneg | negative
  · lift place to ℕ using nonneg
    rw [unitsAt_natCast_succ, unitsAt_natCast, Int.ofNat_lt]
    exact F.units_strictMono (Nat.lt_succ_self place)
  · obtain ⟨rank, rfl⟩ : ∃ rank : ℕ, place = -((rank + 1 : ℕ) : ℤ) :=
      ⟨(-place - 1).toNat, by omega⟩
    have next : -((rank + 1 : ℕ) : ℤ) + 1 = -(rank : ℤ) := by push_cast; ring
    rw [next, unitsAt_neg, unitsAt_neg, unitsAt_natCast, unitsAt_natCast, neg_lt_neg_iff,
      Int.ofNat_lt]
    exact F.units_strictMono (Nat.lt_succ_self rank)

/-- The spacing up to a magnitude is at most the one above it. -/
theorem unitsAt_succ_sub_le (place : ℤ) (rank : ℕ) (low : -(rank + 1 : ℤ) ≤ place)
    (high : place ≤ rank) :
    F.unitsAt (place + 1) - F.unitsAt place ≤ F.unitsAt (rank + 1) - F.unitsAt rank := by
  have widest (m : ℕ) (le : m ≤ rank) :
      (F.units (m + 1) : ℤ) - F.units m ≤ F.units (rank + 1) - F.units rank := by
    have shift : F.shift m ≤ F.shift rank := Nat.sub_le_sub_right (Nat.div_le_div_right le) 1
    have power : 2 ^ F.shift m ≤ 2 ^ F.shift rank := Nat.pow_le_pow_right (by norm_num) shift
    rw [units_succ, units_succ]
    omega
  rw [unitsAt_natCast_succ, unitsAt_natCast]
  rcases le_or_gt 0 place with nonneg | negative
  · lift place to ℕ using nonneg
    rw [unitsAt_natCast_succ, unitsAt_natCast]
    exact widest place (by omega)
  · obtain ⟨m, rfl⟩ : ∃ m : ℕ, place = -((m + 1 : ℕ) : ℤ) := ⟨(-place - 1).toNat, by omega⟩
    have next : -((m + 1 : ℕ) : ℤ) + 1 = -(m : ℤ) := by push_cast; ring
    have := widest m (by omega)
    rw [next, unitsAt_neg, unitsAt_neg, unitsAt_natCast, unitsAt_natCast]
    omega

/-- A number of units that stands at some place. -/
def Representable (n : ℤ) : Prop :=
  ∃ place, F.unitsAt place = n

/-- Where the exact result lies between its neighbours at the nearest place: not beyond the
midpoints on either side, and on a midpoint only if the place is even. -/
structure Nearest (exact : ℚ) (place : ℤ) : Prop where
  lower : F.unitsAt (place - 1) + F.unitsAt place ≤ 2 * exact
  upper : 2 * exact ≤ F.unitsAt place + F.unitsAt (place + 1)
  lower_even : F.unitsAt (place - 1) + F.unitsAt place = 2 * exact → Even place
  upper_even : 2 * exact = F.unitsAt place + F.unitsAt (place + 1) → Even place

variable {F}

namespace Nearest

variable {exact : ℚ} {place : ℤ}

theorem neg (nearest : F.Nearest exact place) : F.Nearest (-exact) (-place) := by
  have below : -place - 1 = -(place + 1) := by ring
  have above : -place + 1 = -(place - 1) := by ring
  constructor
  · have := nearest.upper
    rw [below, unitsAt_neg, unitsAt_neg]
    push_cast
    linarith
  · have := nearest.lower
    rw [above, unitsAt_neg, unitsAt_neg]
    push_cast
    linarith
  · intro half
    rw [below, unitsAt_neg, unitsAt_neg] at half
    push_cast at half
    exact (nearest.upper_even (by linarith)).neg
  · intro half
    rw [above, unitsAt_neg, unitsAt_neg] at half
    push_cast at half
    exact (nearest.lower_even (by linarith)).neg

/-- The exact result lies strictly above the place below. -/
theorem pred_lt (nearest : F.Nearest exact place) : F.unitsAt (place - 1) < exact := by
  have step : (F.unitsAt (place - 1) : ℚ) < F.unitsAt place := by
    exact_mod_cast F.unitsAt_strictMono (sub_one_lt place)
  linarith [nearest.lower]

/-- And strictly below the place above. -/
theorem lt_succ (nearest : F.Nearest exact place) : exact < F.unitsAt (place + 1) := by
  have step : (F.unitsAt place : ℚ) < F.unitsAt (place + 1) := by
    exact_mod_cast F.unitsAt_strictMono (lt_add_one place)
  linarith [nearest.upper]

/-- Only what exceeds half a unit rounds above zero, as the tie goes to zero. -/
theorem pos_iff (nearest : F.Nearest exact place) : 0 < place ↔ 1 < 2 * exact := by
  have unit : (F.unitsAt 1 : ℚ) = 1 := by rw [unitsAt_one, Int.cast_one]
  constructor
  · intro above
    have lower := nearest.lower
    rcases (show 1 ≤ place by omega).eq_or_lt with rfl | beyond
    · rw [sub_self, unitsAt_zero, unit, Int.cast_zero, zero_add] at lower
      refine lower.lt_of_ne fun half => ?_
      have even := nearest.lower_even (by rw [sub_self, unitsAt_zero, unit, ← half]; simp)
      exact absurd even (by decide)
    · have below : (F.unitsAt 1 : ℚ) ≤ F.unitsAt (place - 1) := by
        exact_mod_cast F.unitsAt_strictMono.monotone (by omega)
      have here : (F.unitsAt 1 : ℚ) < F.unitsAt place := by
        exact_mod_cast F.unitsAt_strictMono beyond
      linarith
  · intro large
    by_contra! low
    have here : (F.unitsAt place : ℚ) ≤ F.unitsAt 0 := by
      exact_mod_cast F.unitsAt_strictMono.monotone low
    have above : (F.unitsAt (place + 1) : ℚ) ≤ F.unitsAt 1 := by
      exact_mod_cast F.unitsAt_strictMono.monotone (by omega)
    rw [unitsAt_zero, Int.cast_zero] at here
    linarith [nearest.upper]

/-- Rounding does not go below a place that the exact result is not below. -/
theorem le_of_le (nearest : F.Nearest exact place) (other : ℤ)
    (le : (F.unitsAt other : ℚ) ≤ exact) : other ≤ place := by
  have less := le.trans_lt nearest.lt_succ
  have less := F.unitsAt_strictMono.lt_iff_lt.mp (by exact_mod_cast less)
  omega

/-- Nor does it go above a place that the exact result is not above. -/
theorem ge_of_ge (nearest : F.Nearest exact place) (other : ℤ)
    (ge : exact ≤ F.unitsAt other) : place ≤ other := by
  have mirrored := nearest.neg.le_of_le (-other) (by push_cast [unitsAt_neg]; linarith)
  omega

/-- No place is nearer. -/
theorem abs_sub_le (nearest : F.Nearest exact place) (other : ℤ) :
    |F.unitsAt place - exact| ≤ |F.unitsAt other - exact| := by
  rcases lt_trichotomy place other with above | rfl | below
  · have next : (F.unitsAt (place + 1) : ℚ) ≤ F.unitsAt other := by
      exact_mod_cast F.unitsAt_strictMono.monotone (by omega : place + 1 ≤ other)
    have step : (F.unitsAt place : ℚ) < F.unitsAt other := by
      exact_mod_cast F.unitsAt_strictMono above
    have := nearest.upper
    have far := le_abs_self (F.unitsAt other - exact)
    exact abs_le.mpr ⟨by linarith, by linarith⟩
  · exact le_rfl
  · have next : (F.unitsAt other : ℚ) ≤ F.unitsAt (place - 1) := by
      exact_mod_cast F.unitsAt_strictMono.monotone (by omega : other ≤ place - 1)
    have step : (F.unitsAt other : ℚ) < F.unitsAt place := by
      exact_mod_cast F.unitsAt_strictMono below
    have := nearest.lower
    have far := neg_le_abs (F.unitsAt other - exact)
    exact abs_le.mpr ⟨by linarith, by linarith⟩

/-- What lies between two numbers with the same nearest place has it as well. -/
theorem of_between {low high : ℚ} (first : F.Nearest low place)
    (second : F.Nearest high place) (above : low ≤ exact) (below : exact ≤ high) :
    F.Nearest exact place where
  lower := by linarith [first.lower]
  upper := by linarith [second.upper]
  lower_even half := first.lower_even (le_antisymm first.lower (by linarith))
  upper_even half := second.upper_even (le_antisymm second.upper (by linarith))

/-- The other of two places that are equally near is odd, and this one is even. -/
theorem even_of_tie (nearest : F.Nearest exact place) {other : ℤ} (differs : other ≠ place)
    (tie : |F.unitsAt place - exact| = |F.unitsAt other - exact|) : Even place := by
  wlog above : place < other generalizing exact place other
  · have differs' : -other ≠ -place := by omega
    have mirrored := this nearest.neg differs' ?_ (by omega)
    · exact even_neg.mp mirrored
    · rw [unitsAt_neg, unitsAt_neg, Int.cast_neg, Int.cast_neg, neg_sub_neg, neg_sub_neg,
        abs_sub_comm, tie, abs_sub_comm]
  have next : (F.unitsAt (place + 1) : ℚ) ≤ F.unitsAt other := by
    exact_mod_cast F.unitsAt_strictMono.monotone (by omega : place + 1 ≤ other)
  have step : (F.unitsAt place : ℚ) < F.unitsAt other := by
    exact_mod_cast F.unitsAt_strictMono above
  have upper := nearest.upper
  apply nearest.upper_even
  rcases abs_eq_abs.mp tie with same | mirrored
  · linarith
  · linarith

/-- What rounds beyond a magnitude lies beyond its midpoint with the next one. -/
theorem le_two_mul_abs (nearest : F.Nearest exact place) {rank : ℕ} (beyond : rank < |place|) :
    (F.unitsAt rank + F.unitsAt (rank + 1) : ℚ) ≤ 2 * |exact| := by
  wlog nonneg : 0 ≤ place generalizing exact place
  · rw [← abs_neg exact]
    exact this nearest.neg (by rwa [abs_neg]) (by omega)
  rw [abs_of_nonneg nonneg] at beyond
  have below : (F.unitsAt rank : ℚ) ≤ F.unitsAt (place - 1) := by
    exact_mod_cast F.unitsAt_strictMono.monotone (by omega)
  have here : (F.unitsAt (rank + 1) : ℚ) ≤ F.unitsAt place := by
    exact_mod_cast F.unitsAt_strictMono.monotone (by omega)
  linarith [nearest.lower, le_abs_self exact]

end Nearest

theorem nearest_unitsAt (F : Format) (place : ℤ) : F.Nearest (F.unitsAt place) place := by
  have below : (F.unitsAt (place - 1) : ℚ) < F.unitsAt place := by
    exact_mod_cast F.unitsAt_strictMono (sub_one_lt place)
  have above : (F.unitsAt place : ℚ) < F.unitsAt (place + 1) := by
    exact_mod_cast F.unitsAt_strictMono (lt_add_one place)
  constructor
  · linarith
  · linarith
  · intro half
    linarith
  · intro half
    linarith

/-! ## Representable numbers of units -/

theorem Representable.neg {n : ℤ} (representable : F.Representable n) : F.Representable (-n) := by
  obtain ⟨place, rfl⟩ := representable
  exact ⟨-place, F.unitsAt_neg place⟩

theorem representable_zero : F.Representable 0 :=
  ⟨0, F.unitsAt_zero⟩

/-- A multiple of a power of two that leaves a short significand is representable. -/
theorem representable_of_dvd {n : ℤ} {k : ℕ} (multiple : 2 ^ k ∣ n)
    (short : |n| ≤ 2 * F.normalRank * 2 ^ k) : F.Representable n := by
  obtain ⟨significand, rfl⟩ := multiple
  have power : (0 : ℤ) < 2 ^ k := by positivity
  have size : significand.natAbs ≤ 2 * F.normalRank := by
    zify
    rw [abs_mul, abs_of_pos power, mul_comm] at short
    exact le_of_mul_le_mul_right short power
  obtain ⟨rank, units⟩ := F.exists_units_eq k significand.natAbs size
  have positive : F.Representable (2 ^ k * |significand|) :=
    ⟨rank, by rw [unitsAt_natCast, units]; push_cast; ring⟩
  rcases abs_choice significand with same | opposite
  · rwa [same] at positive
  · rw [opposite, mul_neg] at positive
    simpa using positive.neg

/-- A representable number is a multiple of the spacing in its block, and outside the first
block it is not small in it. -/
theorem Representable.exists_spacing {n : ℤ} (representable : F.Representable n) :
    ∃ k : ℕ, 2 ^ k ∣ n ∧ |n| < 2 * F.normalRank * 2 ^ k ∧
      (k = 0 ∨ F.normalRank * 2 ^ k ≤ |n|) := by
  obtain ⟨place, rfl⟩ := representable
  have size : |F.unitsAt place| = F.significand place.natAbs * 2 ^ F.shift place.natAbs := by
    rw [abs_unitsAt, units]
    push_cast
    rfl
  refine ⟨F.shift place.natAbs, ?_, ?_, ?_⟩
  · rw [← dvd_abs, size]
    exact dvd_mul_left _ _
  · rw [size]
    have bound := F.significand_lt place.natAbs
    gcongr
    exact_mod_cast bound
  · rw [size]
    refine (F.shift_eq_zero_or_le_significand place.natAbs).imp_right fun large => ?_
    gcongr

/-! ## Rounding numbers of units -/

variable (F) in
/-- The number of units at the nearest place. -/
def Rounds (exact : ℚ) (n : ℤ) : Prop :=
  ∃ place, F.Nearest exact place ∧ F.unitsAt place = n

namespace Rounds

variable {exact : ℚ} {n c : ℤ}

theorem representable (rounds : F.Rounds exact n) : F.Representable n := by
  obtain ⟨place, -, rfl⟩ := rounds
  exact ⟨place, rfl⟩

theorem neg (rounds : F.Rounds exact n) : F.Rounds (-exact) (-n) := by
  obtain ⟨place, nearest, rfl⟩ := rounds
  exact ⟨-place, nearest.neg, F.unitsAt_neg place⟩

theorem le_of_le (rounds : F.Rounds exact n) (known : F.Representable c) (le : c ≤ exact) :
    c ≤ n := by
  obtain ⟨place, nearest, rfl⟩ := rounds
  obtain ⟨other, rfl⟩ := known
  exact F.unitsAt_strictMono.monotone (nearest.le_of_le other le)

theorem ge_of_ge (rounds : F.Rounds exact n) (known : F.Representable c) (ge : exact ≤ c) :
    n ≤ c := by
  obtain ⟨place, nearest, rfl⟩ := rounds
  obtain ⟨other, rfl⟩ := known
  exact F.unitsAt_strictMono.monotone (nearest.ge_of_ge other ge)

theorem abs_sub_le (rounds : F.Rounds exact n) (known : F.Representable c) :
    |n - exact| ≤ |c - exact| := by
  obtain ⟨place, nearest, rfl⟩ := rounds
  obtain ⟨other, rfl⟩ := known
  exact nearest.abs_sub_le other

/-- The distance to an exact result that is a whole number of units. -/
theorem near {m : ℤ} (rounds : F.Rounds m n) (known : F.Representable c) :
    |n - m| ≤ |c - m| := by
  exact_mod_cast rounds.abs_sub_le known

/-- A magnitude that the exact result reaches is reached. -/
theorem reaches (rounds : F.Rounds exact n) (known : F.Representable c) (le : c ≤ |exact|) :
    c ≤ |n| := by
  rcases le_abs.mp le with positive | negative
  · exact (rounds.le_of_le known positive).trans (le_abs_self n)
  · have mirrored := rounds.neg.le_of_le known negative
    exact mirrored.trans (neg_le_abs n)

/-- What is representable is kept. -/
theorem eq (rounds : F.Rounds c n) (known : F.Representable c) : n = c :=
  le_antisymm (rounds.ge_of_ge known le_rfl) (rounds.le_of_le known le_rfl)

/-- Rounding keeps multiples of a power of two: a result with a smaller spacing is exact. -/
theorem dvd {k : ℕ} (rounds : F.Rounds c n) (multiple : 2 ^ k ∣ c) : 2 ^ k ∣ n := by
  obtain ⟨spacing, divides, bound, -⟩ := rounds.representable.exists_spacing
  rcases le_or_gt k spacing with coarse | fine
  · exact (pow_dvd_pow 2 coarse).trans divides
  · have power : (2 : ℤ) ^ spacing ≤ 2 ^ k := pow_le_pow_right₀ (by norm_num) fine.le
    have limit : F.Representable (2 * F.normalRank * 2 ^ k) :=
      representable_of_dvd (dvd_mul_left _ _) (abs_of_nonneg (by positivity)).le
    have short : |c| ≤ 2 * F.normalRank * 2 ^ k := by
      by_contra! long
      have reached := rounds.reaches limit (by exact_mod_cast long.le)
      have bounded : 2 * (F.normalRank : ℤ) * 2 ^ spacing ≤ 2 * F.normalRank * 2 ^ k := by gcongr
      omega
    rwa [rounds.eq (representable_of_dvd multiple short)]

end Rounds

end LinearEnclosure.Format
