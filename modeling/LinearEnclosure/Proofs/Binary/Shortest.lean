/-
# Decimals that read back

A decimal reads back as a magnitude if no other magnitude is nearer. The neighbours of a
magnitude keep a distance from it that is at least its part of twice the normal rank, so a
decimal that differs by less than half of that part reads back. Rounding to sufficiently many
digits does not move a number farther, and seventeen are sufficient for 64-bit numbers.

The decimals that read back as one magnitude lie together. If any of them has so many digits,
then one of the two next to the exact value has, and so the search finds the fewest digits.
-/

import LinearEnclosure.Proofs.Binary.Order
import LinearEnclosure.Proofs.Binary.Reading
import LinearEnclosure.Proofs.Decimal.Nearest

namespace LinearEnclosure

namespace Format

variable {F : Format} {exact : ℚ} {rank : ℕ} {place : ℤ}

/-! ## What is near enough -/

/-- Half the distance to a neighbour is not less than the part of a magnitude that four times the
normal rank makes. -/
private theorem two_mul_abs_lt_gap {distance : ℚ} (positive : 0 < rank)
    (near : 4 * F.normalRank * |distance| < F.units rank) :
    2 * |distance| < F.units rank - F.units (rank - 1) ∧
      2 * |distance| < F.units (rank + 1) - F.units rank := by
  have normal : (0 : ℚ) < 2 * F.normalRank := by exact_mod_cast Nat.mul_pos two_pos F.normalRank_pos
  have gap (r : ℕ) (bound : (F.units rank : ℚ) ≤ 2 * F.normalRank * 2 ^ F.shift r) :
      2 * |distance| < F.units (r + 1) - F.units r := by
    rw [units_succ]
    push_cast
    rw [add_sub_cancel_left, ← mul_lt_mul_iff_right₀ normal]
    linarith
  constructor
  · have below := gap (rank - 1)
    rw [Nat.sub_add_cancel positive] at below
    apply below
    have bound := F.units_succ_le (rank - 1)
    rw [Nat.sub_add_cancel positive] at bound
    exact_mod_cast bound
  · apply gap rank
    exact_mod_cast (F.units_strictMono (Nat.lt_succ_self rank)).le.trans (F.units_succ_le rank)

private theorem nearest_of_near_rank (positive : 0 < rank)
    (near : 4 * F.normalRank * |exact - F.units rank| < F.units rank) : F.Nearest exact rank := by
  obtain ⟨below, above⟩ := two_mul_abs_lt_gap positive near
  have low := neg_abs_le (exact - F.units rank)
  have high := le_abs_self (exact - F.units rank)
  have before : F.unitsAt ((rank : ℤ) - 1) = F.units (rank - 1) := by
    rw [← Nat.cast_pred positive, unitsAt_natCast]
  constructor <;> simp only [before, unitsAt_natCast, unitsAt_natCast_succ, Int.cast_natCast]
  · linarith
  · linarith
  · intro half
    linarith
  · intro half
    linarith

/-- A place is nearest to all numbers that are this near to it. -/
theorem nearest_of_near
    (near : 4 * F.normalRank * |exact - F.unitsAt place| < |(F.unitsAt place : ℚ)|) :
    F.Nearest exact place := by
  have nonzero : place ≠ 0 := by
    rintro rfl
    rw [unitsAt_zero, Int.cast_zero, abs_zero] at near
    exact absurd near (not_lt.mpr (by positivity))
  rcases Int.natAbs_eq place with positive | negative
  · rw [positive, unitsAt_natCast, Int.cast_natCast, Nat.abs_cast] at near
    rw [positive]
    exact nearest_of_near_rank (Int.natAbs_pos.mpr nonzero) near
  · rw [negative, unitsAt_neg, unitsAt_natCast, Int.cast_neg, Int.cast_natCast, sub_neg_eq_add,
      abs_neg, Nat.abs_cast, ← abs_neg, neg_add'] at near
    rw [negative, ← InvolutiveNeg.neg_neg exact]
    exact (nearest_of_near_rank (Int.natAbs_pos.mpr nonzero) near).neg

/-- For decimals the distance is measured in digits. -/
theorem nearest_of_digits {places : ℕ} (enough : 2 * F.normalRank < 10 ^ places) {q r : ℚ}
    (stands : F.inUnits q = F.unitsAt place) (nonzero : q ≠ 0)
    (near : 2 * 10 ^ places * |r - q| ≤ |q|) : F.Nearest (F.inUnits r) place := by
  have unit : (0 : ℚ) < 2 ^ F.unitBits := by positivity
  have closer : 4 * F.normalRank * |r - q| < |q| := by
    rcases eq_or_ne r q with rfl | differs
    · rwa [sub_self, abs_zero, mul_zero, abs_pos]
    · have enough : (2 * F.normalRank : ℚ) < 10 ^ places := by exact_mod_cast enough
      have apart : 0 < |r - q| := abs_pos.mpr (sub_ne_zero.mpr differs)
      calc 4 * F.normalRank * |r - q| = 2 * (2 * F.normalRank) * |r - q| := by ring
        _ < 2 * 10 ^ places * |r - q| := by gcongr
        _ ≤ |q| := near
  apply nearest_of_near
  rw [← stands, inUnits, inUnits, ← sub_mul, abs_mul, abs_mul, abs_of_pos unit, ← mul_assoc]
  exact mul_lt_mul_of_pos_right closer unit

/-! ## The test -/

theorem inUnits_decimalAbove (F : Format) (rank : ℕ) :
    2 * F.inUnits (F.decimalAbove rank).toRat = F.units rank + F.units (rank + 1) := by
  rw [decimalAbove, inUnits_halfUnits, units_succ, units]
  push_cast
  ring

/-- A comparison with a bound that may belong to its side or not. -/
private theorem compare_within_iff (a b : ℚ) (ends : Bool) :
    (match compare a b with
      | .lt => true
      | .eq => ends
      | .gt => false) = true ↔ a ≤ b ∧ (a = b → ends = true) := by
  rcases lt_trichotomy a b with less | rfl | greater
  · simp [compare_lt_iff_lt.mpr less, less.le, less.ne]
  · simp
  · simp [compare_gt_iff_gt.mpr greater, not_le.mpr greater]

theorem readsBack_iff (positive : 0 < rank) (x : Decimal) :
    F.readsBack rank x = true ↔ F.Nearest (F.inUnits x.toRat) rank := by
  have mono (a b : ℚ) : a ≤ b ↔ 2 * F.inUnits a ≤ 2 * F.inUnits b := by
    rw [mul_le_mul_iff_right₀ two_pos, F.inUnits_strictMono.le_iff_le]
  have inj (a b : ℚ) : a = b ↔ 2 * F.inUnits a = 2 * F.inUnits b := by
    rw [mul_right_inj' two_ne_zero, F.inUnits_strictMono.injective.eq_iff]
  have before : (F.unitsAt ((rank : ℤ) - 1) : ℚ) = F.units (rank - 1) := by
    rw [← Nat.cast_pred positive, unitsAt_natCast, Int.cast_natCast]
  have after : (F.unitsAt ((rank : ℤ) + 1) : ℚ) = F.units (rank + 1) := by
    rw [unitsAt_natCast_succ, Int.cast_natCast]
  have here : (F.unitsAt rank : ℚ) = F.units rank := by rw [unitsAt_natCast, Int.cast_natCast]
  have even : (rank % 2 == 0) = true ↔ Even (rank : ℤ) := by
    rw [beq_iff_eq, ← Nat.even_iff, Int.even_coe_nat]
  rw [readsBack, Bool.and_eq_true, Decimal.compare_eq, Decimal.compare_eq]
  refine (and_congr (compare_within_iff _ _ _) (compare_within_iff _ _ _)).trans ?_
  rw [mono _ x.toRat, mono x.toRat, inj _ x.toRat, inj x.toRat, inUnits_decimalAbove,
    inUnits_decimalAbove, Nat.sub_add_cancel positive, even, ← before, ← after, ← here]
  constructor
  · rintro ⟨⟨lower, lower_even⟩, upper, upper_even⟩
    exact ⟨lower, upper, lower_even, upper_even⟩
  · rintro ⟨lower, upper, lower_even, upper_even⟩
    exact ⟨⟨lower, lower_even⟩, upper, upper_even⟩

theorem readsBack_decimal (positive : 0 < rank) : F.readsBack rank (F.decimal rank) = true := by
  rw [readsBack_iff positive, inUnits_decimal, ← Int.cast_natCast, ← unitsAt_natCast]
  exact F.nearest_unitsAt rank

/-- Only a positive number reads back as a positive magnitude. -/
theorem significand_pos_of_readsBack (positive : 0 < rank) {x : Decimal}
    (back : F.readsBack rank x = true) : 0 < x.significand := by
  have above := ((readsBack_iff positive x).mp back).pos_iff.mp (Int.natCast_pos.mpr positive)
  rw [← Decimal.toRat_pos_iff, ← F.inUnits_strictMono.lt_iff_lt, inUnits_zero]
  linarith

theorem readsBack_of_between (positive : 0 < rank) {low high x : Decimal}
    (first : F.readsBack rank low = true) (second : F.readsBack rank high = true)
    (above : low.toRat ≤ x.toRat) (below : x.toRat ≤ high.toRat) : F.readsBack rank x = true := by
  rw [readsBack_iff positive] at *
  exact first.of_between second (F.inUnits_strictMono.monotone above)
    (F.inUnits_strictMono.monotone below)

end Format

/-! ## Rounded decimals -/

namespace Decimal

/-- A number that is rounded to nearest moves by a part of itself that its digits bound. -/
theorem two_mul_abs_roundTo_sub_le (places : ℕ) (x : Decimal) :
    2 * 10 ^ places * |(x.roundTo .nearest (places + 1)).toRat - x.toRat| ≤ |x.toRat| := by
  by_cases zero : x.significand = 0
  · rw [isZero_iff_eq.mp (beq_iff_eq.mpr zero), roundTo_zero, toRat_zero]
    simp
  have near := Direction.abs_onGrid_nearest_sub_le (x.top - (places + 1 : ℕ)) x.toRat
  rw [← toRat_roundTo] at near
  have scale : (2 * 10 ^ places : ℚ) * (10 ^ (x.top - (places + 1 : ℕ)) / 2) =
      10 ^ (x.top - 1) := by
    have split : x.top - 1 = places + (x.top - (places + 1 : ℕ)) := by push_cast; ring
    rw [split, zpow_add₀ (by norm_num), zpow_natCast]
    ring
  calc 2 * 10 ^ places * |(x.roundTo .nearest (places + 1)).toRat - x.toRat|
      ≤ 2 * 10 ^ places * (10 ^ (x.top - (places + 1 : ℕ)) / 2) := by gcongr
    _ = 10 ^ (x.top - 1) := scale
    _ ≤ |x.toRat| := zpow_top_le_abs_toRat zero

variable {digits : ℕ}

/-- Rounding to nearest stays between rounding down and up. -/
theorem roundTo_nearest_between (positive : 1 ≤ digits) (x : Decimal) :
    (x.roundTo .down digits).toRat ≤ (x.roundTo .nearest digits).toRat ∧
      (x.roundTo .nearest digits).toRat ≤ (x.roundTo .up digits).toRat := by
  have nearest := roundTo_isNearest positive x
  obtain ⟨⟨fewLow, below⟩, -⟩ := (x.roundTo_isRounded .down positive).isGreatest
  obtain ⟨⟨fewHigh, above⟩, -⟩ := (x.roundTo_isRounded .up positive).isLeast
  generalize (x.roundTo .nearest digits).toRat = middle at *
  constructor
  · by_contra! beyond
    have farther := nearest.nearest _ fewLow
    rw [abs_of_nonpos (sub_nonpos.mpr below), abs_of_neg (by linarith)] at farther
    linarith
  · by_contra! beyond
    have farther := nearest.nearest _ fewHigh
    rw [abs_of_nonneg (sub_nonneg.mpr above), abs_of_pos (by linarith)] at farther
    linarith

end Decimal

namespace Format

variable {F : Format} {rank places : ℕ}

/-- With sufficiently many digits a rounded magnitude reads back. -/
theorem readsBack_roundTo (enough : 2 * F.normalRank < 10 ^ places) (positive : 0 < rank) :
    F.readsBack rank ((F.decimal rank).roundTo .nearest (places + 1)) = true := by
  have units := F.inUnits_decimal rank
  rw [readsBack_iff positive]
  apply nearest_of_digits enough (q := (F.decimal rank).toRat)
  · rw [units, unitsAt_natCast, Int.cast_natCast]
  · rw [← F.inUnits_strictMono.injective.ne_iff, units, inUnits_zero]
    exact_mod_cast (F.units_pos positive).ne'
  · exact Decimal.two_mul_abs_roundTo_sub_le places _

/-! ## The search -/

/-- What is found at a number of digits is the exact decimal, rounded to them. -/
theorem exists_roundTo_of_shortAt {digits : ℕ} {x : Decimal}
    (found : F.shortAt rank digits = some x) :
    ∃ direction : Direction, x = (F.decimal rank).roundTo direction digits := by
  simp only [shortAt] at found
  split at found
  · split at found <;> exact ⟨_, (Option.some.inj found).symm⟩
  · split at found
    · exact ⟨_, (Option.some.inj found).symm⟩
    · cases found

theorem readsBack_of_shortAt {digits : ℕ} (positive : 0 < rank) (some_digit : 1 ≤ digits)
    {x : Decimal} (found : F.shortAt rank digits = some x) : F.readsBack rank x = true := by
  obtain ⟨above, below⟩ := (F.decimal rank).roundTo_nearest_between some_digit
  simp only [shortAt] at found
  split at found
  · next low =>
    split at found
    · next high =>
      obtain rfl := Option.some.inj found
      exact readsBack_of_between positive low high above below
    · obtain rfl := Option.some.inj found
      exact low
  · split at found
    · next high =>
      obtain rfl := Option.some.inj found
      exact high
    · cases found

/-- If a decimal with so many digits reads back, then one next to the exact value does. -/
theorem isSome_shortAt {digits : ℕ} (positive : 0 < rank) (some_digit : 1 ≤ digits) {x : Decimal}
    (few : x.size ≤ digits) (back : F.readsBack rank x = true) :
    (F.shortAt rank digits).isSome = true := by
  have exact := readsBack_decimal (F := F) positive
  have short := Decimal.mem_short_iff.mpr few
  obtain ⟨⟨-, below⟩, greatest⟩ := ((F.decimal rank).roundTo_isRounded .down some_digit).isGreatest
  obtain ⟨⟨-, above⟩, least⟩ := ((F.decimal rank).roundTo_isRounded .up some_digit).isLeast
  simp only [shortAt]
  rcases le_total x.toRat (F.decimal rank).toRat with low | high
  · rw [if_pos (readsBack_of_between positive back exact (greatest ⟨short, low⟩) below)]
    split <;> rfl
  · have upper := readsBack_of_between positive exact back above (least ⟨short, high⟩)
    simp only [upper, if_true]
    split <;> rfl

/-- A search through the first numbers finds the first hit. -/
theorem exists_first_of_findSome? {α : Type} {f : ℕ → Option α} {n : ℕ} {x : α}
    (found : (List.range n).findSome? f = some x) :
    ∃ i < n, f i = some x ∧ ∀ j < i, f j = none := by
  induction n with
  | zero => cases found
  | succ n ih =>
    rw [List.range_succ, List.findSome?_append] at found
    cases earlier : (List.range n).findSome? f with
    | some y =>
      rw [earlier] at found
      obtain ⟨i, less, hit, none⟩ := ih (earlier.trans found)
      exact ⟨i, less.trans (Nat.lt_succ_self n), hit, none⟩
    | none =>
      have none := List.findSome?_eq_none_iff.mp earlier
      refine ⟨n, Nat.lt_succ_self n, ?_, fun j less => none j (List.mem_range.mpr less)⟩
      rw [earlier] at found
      simpa using found

/-- The search ends at the exact decimal at the latest, and whatever it finds reads back. -/
theorem exists_shortest_eq (F : Format) (rank : ℕ) :
    (∃ digits, F.shortAt rank (digits + 1) = some (F.shortest rank) ∧
      ∀ fewer < digits, F.shortAt rank (fewer + 1) = none) ∨
    F.shortest rank = F.decimal rank ∧
      ∀ fewer < (F.decimal rank).size, F.shortAt rank (fewer + 1) = none := by
  simp only [shortest]
  cases found : (List.range (F.decimal rank).size).findSome? fun count =>
      F.shortAt rank (count + 1) with
  | none =>
    refine .inr ⟨rfl, fun fewer less => ?_⟩
    exact List.findSome?_eq_none_iff.mp found fewer (List.mem_range.mpr less)
  | some x =>
    obtain ⟨digits, -, hit, none⟩ := exists_first_of_findSome? found
    exact .inl ⟨digits, hit, none⟩

theorem readsBack_shortest (F : Format) {rank : ℕ} (positive : 0 < rank) :
    F.readsBack rank (F.shortest rank) = true := by
  rcases F.exists_shortest_eq rank with ⟨digits, found, -⟩ | ⟨exact, -⟩
  · exact readsBack_of_shortAt positive (Nat.le_add_left 1 digits) found
  · rw [exact]
    exact readsBack_decimal positive

/-- No decimal that reads back has fewer digits. -/
theorem size_shortest_le (positive : 0 < rank) {x : Decimal} (back : F.readsBack rank x = true) :
    (F.shortest rank).size ≤ x.size := by
  have hit {digits : ℕ} (few : x.size ≤ digits + 1) : F.shortAt rank (digits + 1) ≠ none :=
    Option.isSome_iff_ne_none.mp (isSome_shortAt positive (Nat.le_add_left 1 digits) few back)
  have some_digit : 0 < x.size :=
    Decimal.digitCount_pos (Int.natAbs_pos.mpr (significand_pos_of_readsBack positive back).ne')
  by_contra! more
  rcases F.exists_shortest_eq rank with ⟨digits, found, none⟩ | ⟨exact, none⟩
  · obtain ⟨direction, rounded⟩ := exists_roundTo_of_shortAt found
    have few : (F.shortest rank).size ≤ digits + 1 := by
      rw [rounded]
      exact Decimal.mem_short_iff.mp
        ((F.decimal rank).roundTo_isRounded direction (Nat.le_add_left 1 digits)).mem_short
    exact hit (by omega) (none (x.size - 1) (by omega))
  · rw [exact] at more
    exact hit (by omega) (none (x.size - 1) (by omega))

/-- With sufficiently many digits some decimal always reads back. -/
theorem size_shortest_le_of_enough (enough : 2 * F.normalRank < 10 ^ places) (positive : 0 < rank) :
    (F.shortest rank).size ≤ places + 1 :=
  (size_shortest_le positive (readsBack_roundTo enough positive)).trans <| Decimal.mem_short_iff.mp
    ((F.decimal rank).roundTo_isRounded .nearest (Nat.le_add_left 1 places)).mem_short

end Format

/-! ## The same number again -/

namespace Binary

variable {F : Format} {x y : Binary F} {c : ℤ} {places : ℕ}

/-- Values at the same finite place are equal, except that zero has two signs. -/
theorem eq_or_isZero_of_place? (same : y.place? = x.place?) (finite : x.units? = some c) :
    y = x ∨ y.isZero = true ∧ x.isZero = true := by
  obtain ⟨negative, rank, bound, rfl, -⟩ := exists_finite finite
  cases y with
  | finite negative' rank' bound' =>
    have place := Option.some.inj same
    by_cases zero : rank = 0
    · have zero' : rank' = 0 := by
        cases negative <;> cases negative' <;> simp at place <;> omega
      exact .inr ⟨beq_iff_eq.mpr zero', beq_iff_eq.mpr zero⟩
    · left
      have both : negative' = negative ∧ rank' = rank := by
        cases negative <;> cases negative' <;> simp at place ⊢ <;> omega
      obtain ⟨rfl, rfl⟩ := both
      rfl
  | infinite negative' =>
    have place := Option.some.inj same
    cases negative <;> cases negative' <;> simp at place <;> omega
  | nan => cases same

/-- And they compare equal. -/
theorem compare?_of_place? (same : y.place? = x.place?) (finite : x.units? = some c) :
    y.compare? x = some .eq := by
  obtain ⟨place, stands, -, -⟩ := exists_place finite
  simp [compare?, same, stands]

/-- What is rounded to the place of a finite number stands there. -/
theorem RoundsTo.place?_eq {exact : ℚ} {place : ℤ} (rounds : RoundsTo exact y)
    (nearest : F.Nearest exact place) (inside : |place| < F.infinityRank) :
    y.place? = some place := by
  obtain ⟨place', nearest', stands⟩ := rounds
  obtain rfl := nearest.unique nearest'
  rw [stands, Format.clamp_eq_self inside]

/-- A number that agrees with a finite one in sufficiently many digits is rounded to it. -/
theorem place?_of_digits (enough : 2 * F.normalRank < 10 ^ places) {r : ℚ}
    (finite : x.units? = some c) (rounds : RoundsTo (F.inUnits r) y)
    (near : 2 * 10 ^ places * |r - x.decimal.toRat| ≤ |x.decimal.toRat|) :
    y.place? = x.place? := by
  obtain ⟨place, stands, inside, units⟩ := exists_place finite
  have exact : F.inUnits x.decimal.toRat = F.unitsAt place := by rw [inUnits_decimal finite, units]
  rw [stands]
  apply rounds.place?_eq _ inside
  by_cases zero : x.decimal.toRat = 0
  · have vanishes : r = 0 := by
      rw [zero, sub_zero, abs_zero] at near
      have power : (0 : ℚ) < 2 * 10 ^ places := by positivity
      exact abs_nonpos_iff.mp (nonpos_of_mul_nonpos_right near power)
    rw [zero, F.inUnits_zero] at exact
    rw [vanishes, F.inUnits_zero, exact]
    exact F.nearest_unitsAt place
  · exact Format.nearest_of_digits enough exact zero near

/-- So is the shortest decimal that reads back. -/
theorem place?_of_shortest {shortest : Decimal} (finite : x.units? = some c)
    (found : x.shortest? = some shortest) (rounds : RoundsTo (F.inUnits shortest.toRat) y) :
    y.place? = x.place? := by
  obtain ⟨negative, rank, bound, rfl, -⟩ := exists_finite finite
  rw [shortest?, Option.some.injEq] at found
  have inside : |(if negative then -rank else rank : ℤ)| < F.infinityRank := by
    cases negative <;> simpa using bound
  apply rounds.place?_eq _ inside
  rcases Nat.eq_zero_or_pos rank with rfl | positive
  · rw [if_pos rfl] at found
    rw [← found, Decimal.toRat_zero, F.inUnits_zero]
    simpa using F.nearest_unitsAt 0
  · have nearest := (Format.readsBack_iff positive _).mp (F.readsBack_shortest positive)
    rw [if_neg positive.ne'] at found
    cases negative with
    | false =>
      obtain rfl : F.shortest rank = shortest := found
      exact nearest
    | true =>
      obtain rfl : (F.shortest rank).neg = shortest := found
      rw [Decimal.toRat_neg, F.inUnits_neg]
      exact nearest.neg

end Binary

end LinearEnclosure
