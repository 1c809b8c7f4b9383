/-
# The numbers that values stand for

A finite value stands for a dyadic rational, and the infinities stand for the ends of the
extended line. A directed result is judged by these numbers: it is tight if no other value of
the format lies between it and the exact result, and nearly tight if at most one does.

A bound is recognized by its place, since the numbers increase with the places. What holds of
lower bounds is mirrored to upper ones by negation, so it is proved once.
-/

import LinearEnclosure.Proofs.Binary.Rounding

namespace LinearEnclosure

namespace Format

variable (F : Format)

/-- The number that a fraction of units amounts to. -/
noncomputable def ofUnits (units : ℚ) : ℝ :=
  units / 2 ^ F.unitBits

theorem ofUnits_strictMono : StrictMono F.ofUnits := by
  intro v w less
  have less : (v : ℝ) < w := by exact_mod_cast less
  unfold ofUnits
  gcongr

@[simp] theorem ofUnits_zero : F.ofUnits 0 = 0 := by
  simp [ofUnits]

theorem ofUnits_add (v w : ℚ) : F.ofUnits (v + w) = F.ofUnits v + F.ofUnits w := by
  simp [ofUnits, add_div]

theorem ofUnits_sub (v w : ℚ) : F.ofUnits (v - w) = F.ofUnits v - F.ofUnits w := by
  simp [ofUnits, sub_div]

/-- A product of fractions of units counts the units twice. -/
theorem ofUnits_mul (v w : ℚ) : F.ofUnits v * F.ofUnits w = F.ofUnits (v * w / 2 ^ F.unitBits) := by
  simp only [ofUnits]
  push_cast
  rw [div_mul_div_comm, div_div]

theorem ofUnits_div (v w : ℚ) : F.ofUnits v / F.ofUnits w = F.ofUnits (v * 2 ^ F.unitBits / w) := by
  have power : (2 : ℝ) ^ F.unitBits ≠ 0 := by positivity
  simp only [ofUnits]
  push_cast
  field_simp

@[simp] theorem ofUnits_neg (w : ℚ) : F.ofUnits (-w) = -F.ofUnits w := by
  simp [ofUnits, neg_div]

/-- The number at a place. The places of the infinities and those beyond them are the ends of
the line. -/
noncomputable def valueAt (place : ℤ) : EReal :=
  if place ≤ -F.infinityRank then ⊥
  else if F.infinityRank ≤ place then ⊤
  else F.ofUnits (F.unitsAt place)

variable {F}

theorem valueAt_of_inside {place : ℤ} (inside : |place| < F.infinityRank) :
    F.valueAt place = F.ofUnits (F.unitsAt place) := by
  rw [abs_lt] at inside
  rw [valueAt, if_neg (by omega), if_neg (by omega)]

theorem valueAt_le_ofUnits {place : ℤ} {w : ℚ} (inside : place < F.infinityRank)
    (le : F.unitsAt place ≤ w) : F.valueAt place ≤ F.ofUnits w := by
  rw [valueAt, if_neg (not_le.mpr inside)]
  split
  · exact bot_le
  · exact EReal.coe_le_coe_iff.mpr (F.ofUnits_strictMono.monotone le)

theorem valueAt_lt_ofUnits {place : ℤ} {w : ℚ} (inside : place < F.infinityRank)
    (less : F.unitsAt place < w) : F.valueAt place < F.ofUnits w := by
  rw [valueAt, if_neg (not_le.mpr inside)]
  split
  · exact EReal.bot_lt_coe _
  · exact EReal.coe_lt_coe_iff.mpr (F.ofUnits_strictMono less)

theorem ofUnits_lt_valueAt {place : ℤ} {w : ℚ} (inside : -F.infinityRank < place)
    (less : w < F.unitsAt place) : F.ofUnits w < F.valueAt place := by
  rw [valueAt, if_neg (not_le.mpr inside)]
  split
  · exact EReal.coe_lt_top _
  · exact EReal.coe_lt_coe_iff.mpr (F.ofUnits_strictMono less)

theorem ofUnits_le_valueAt {place : ℤ} {w : ℚ}
    (inside : -F.infinityRank < place) (le : w ≤ F.unitsAt place) :
    F.ofUnits w ≤ F.valueAt place := by
  rw [valueAt, if_neg (not_le.mpr inside)]
  split
  · exact le_top
  · exact EReal.coe_le_coe_iff.mpr (F.ofUnits_strictMono.monotone le)

theorem valueAt_strictMonoOn :
    StrictMonoOn F.valueAt (Set.Icc (-F.infinityRank) F.infinityRank) := by
  rintro low ⟨least, -⟩ high ⟨-, most⟩ less
  rcases least.eq_or_lt with rfl | inside
  · -- Only the lower end is below every other place.
    rw [valueAt, if_pos le_rfl, valueAt, if_neg (not_le.mpr less)]
    split
    · exact bot_lt_top
    · exact EReal.bot_lt_coe _
  · rw [valueAt_of_inside (abs_lt.mpr ⟨inside, by omega⟩)]
    exact ofUnits_lt_valueAt (by omega) (by exact_mod_cast F.unitsAt_strictMono less)

end Format

namespace Binary

variable {F : Format}

/-- The number that a value stands for. -/
noncomputable def value? : Binary F → Option EReal
  | finite negative rank _ => some (F.ofUnits (F.signedUnits negative rank))
  | infinite negative => some (if negative then ⊥ else ⊤)
  | nan => none

variable (F) in
/-- The numbers that the values of a format stand for. -/
def values : Set EReal :=
  {v | ∃ x : Binary F, x.value? = some v}

/-- The greatest value that is not above the exact result. -/
def IsFloor (exact : ℝ) (x : Binary F) : Prop :=
  ∃ v, x.value? = some v ∧ IsGreatest {w ∈ values F | w ≤ exact} v

/-- The least value that is not below the exact result. -/
def IsCeil (exact : ℝ) (x : Binary F) : Prop :=
  ∃ v, x.value? = some v ∧ IsLeast {w ∈ values F | exact ≤ w} v

/-- A lower bound, between which and the exact result there is at most one tighter value. -/
def IsNearFloor (exact : ℝ) (x : Binary F) : Prop :=
  ∃ v, x.value? = some v ∧ v ≤ exact ∧ {w ∈ values F | v < w ∧ w ≤ exact}.Subsingleton

/-- An upper bound, between which and the exact result there is at most one tighter value. -/
def IsNearCeil (exact : ℝ) (x : Binary F) : Prop :=
  ∃ v, x.value? = some v ∧ exact ≤ v ∧ {w ∈ values F | exact ≤ w ∧ w < v}.Subsingleton

variable {exact : ℝ} {x : Binary F} {v : EReal}

theorem IsFloor.near (floor : x.IsFloor exact) : x.IsNearFloor exact := by
  obtain ⟨v, stands, ⟨-, le⟩, greatest⟩ := floor
  refine ⟨v, stands, le, ?_⟩
  rintro w ⟨known, above, below⟩
  exact absurd (greatest ⟨known, below⟩) (not_le.mpr above)

theorem IsCeil.near (ceil : x.IsCeil exact) : x.IsNearCeil exact := by
  obtain ⟨v, stands, ⟨-, le⟩, least⟩ := ceil
  refine ⟨v, stands, le, ?_⟩
  rintro w ⟨known, above, below⟩
  exact absurd (least ⟨known, above⟩) (not_le.mpr below)

/-- A value that bounds the exact result from both sides stands for it. -/
theorem value?_of_bounds (low : x.IsNearFloor exact) (high : x.IsNearCeil exact) :
    x.value? = some (exact : EReal) := by
  obtain ⟨v, stands, below, -⟩ := low
  obtain ⟨w, stands', above, -⟩ := high
  obtain rfl : v = w := Option.some.inj (stands.symm.trans stands')
  rw [stands, below.antisymm above]

theorem value?_of_units {n : ℤ} (finite : x.units? = some n) :
    x.value? = some (F.ofUnits n : EReal) := by
  obtain ⟨_, _, _, rfl, rfl⟩ := exists_finite finite
  rfl

theorem value?_of_dyadic (n : ℤ) (k : ℕ) (fits : k ≤ F.unitBits)
    (finite : x.units? = some (n * 2 ^ (F.unitBits - k))) :
    x.value? = some ((n / 2 ^ k : ℝ) : EReal) := by
  have power : (2 : ℝ) ^ F.unitBits = 2 ^ k * 2 ^ (F.unitBits - k) := by
    rw [← pow_add, Nat.add_sub_cancel' fits]
  rw [value?_of_units finite, Format.ofUnits]
  push_cast
  rw [power, mul_div_mul_right _ _ (by positivity)]

/-- A value that stands for a number in the line is finite. -/
theorem exists_units {number : ℝ} (finite : x.value? = some (number : EReal)) :
    ∃ n : ℤ, x.units? = some n ∧ F.ofUnits n = number := by
  cases x with
  | finite negative rank rank_lt =>
    exact ⟨_, rfl, EReal.coe_eq_coe_iff.mp (Option.some.inj finite)⟩
  | infinite negative => cases negative <;> simp [value?] at finite
  | nan => cases finite

theorem units?_of_value? {n : ℤ} (finite : x.value? = some (F.ofUnits n : EReal)) :
    x.units? = some n := by
  obtain ⟨m, units, same⟩ := exists_units finite
  rw [units, ← Int.cast_injective (F.ofUnits_strictMono.injective same)]

theorem not_bounds {w : ℚ} {n : ℤ} (finite : x.units? = some n) (inexact : (n : ℚ) ≠ w) :
    ¬(x.IsNearFloor (F.ofUnits w) ∧ x.IsNearCeil (F.ofUnits w)) := by
  rintro ⟨low, high⟩
  have same := value?_of_bounds low high
  rw [value?_of_units finite, Option.some.injEq, EReal.coe_eq_coe_iff,
    F.ofUnits_strictMono.injective.eq_iff] at same
  exact inexact same

/-! ## Negation mirrors the bounds -/

theorem neg_neg (x : Binary F) : x.neg.neg = x := by
  cases x <;> simp [Binary.neg]

theorem value?_neg (x : Binary F) : x.neg.value? = x.value?.map (-·) := by
  cases x with
  | finite negative rank rank_lt => cases negative <;> simp [Binary.neg, value?, Format.signedUnits]
  | infinite negative => cases negative <;> simp [Binary.neg, value?]
  | nan => rfl

theorem mem_values_neg {v : EReal} (known : v ∈ values F) : -v ∈ values F := by
  obtain ⟨x, stands⟩ := known
  exact ⟨x.neg, by rw [value?_neg, stands, Option.map_some]⟩

theorem isCeil_of_neg (floor : x.neg.IsFloor (-exact)) : x.IsCeil exact := by
  obtain ⟨v, stands, ⟨known, le⟩, greatest⟩ := floor
  rw [EReal.coe_neg] at le greatest
  refine ⟨-v, ?_, ⟨mem_values_neg known, EReal.le_neg_of_le_neg le⟩, ?_⟩
  · rw [← neg_neg x, value?_neg, stands, Option.map_some]
  · rintro w ⟨known, above⟩
    exact EReal.neg_le_of_neg_le (greatest ⟨mem_values_neg known, EReal.neg_le_neg_iff.mpr above⟩)

theorem isNearCeil_of_neg (floor : x.neg.IsNearFloor (-exact)) : x.IsNearCeil exact := by
  obtain ⟨v, stands, le, between⟩ := floor
  rw [EReal.coe_neg] at le between
  refine ⟨-v, ?_, EReal.le_neg_of_le_neg le, ?_⟩
  · rw [← neg_neg x, value?_neg, stands, Option.map_some]
  · have mirrored {w : EReal} (member : w ∈ {w ∈ values F | exact ≤ w ∧ w < -v}) :
        -w ∈ {w ∈ values F | v < w ∧ w ≤ -exact} :=
      ⟨mem_values_neg member.1, EReal.lt_neg_of_lt_neg member.2.2,
        EReal.neg_le_neg_iff.mpr member.2.1⟩
    intro w left u right
    exact neg_injective (between (mirrored left) (mirrored right))

/-! ## Bounds are recognized by their places -/

theorem place_mem {place : ℤ} (stands : x.place? = some place) :
    place ∈ Set.Icc (-(F.infinityRank : ℤ)) F.infinityRank := by
  cases x with
  | finite negative rank rank_lt =>
    obtain rfl := Option.some.inj stands
    constructor <;> split <;> omega
  | infinite negative =>
    obtain rfl := Option.some.inj stands
    constructor <;> split <;> omega
  | nan => cases stands

/-- A format with a finite value has finite ranks. -/
theorem neZero_infinityRank {n : ℤ} (finite : x.units? = some n) : NeZero F.infinityRank := by
  obtain ⟨_, rank, rank_lt, -, -⟩ := exists_finite finite
  exact ⟨by omega⟩

variable [NeZero F.infinityRank]

theorem value?_eq_map (x : Binary F) : x.value? = x.place?.map F.valueAt := by
  have positive := Nat.pos_of_neZero F.infinityRank
  cases x with
  | finite negative rank rank_lt =>
    have inside : |(if negative then -rank else rank : ℤ)| < F.infinityRank := by
      cases negative <;> simpa using rank_lt
    rw [place?, Option.map_some, Format.valueAt_of_inside inside, value?, signedUnits_eq_unitsAt]
  | infinite negative =>
    rw [place?, Option.map_some, Format.valueAt, value?]
    cases negative
    · simp [show ¬((F.infinityRank : ℤ) ≤ -F.infinityRank) by omega]
    · simp
  | nan => rfl

theorem exists_place_of_mem {v : EReal} (known : v ∈ values F) :
    ∃ place ∈ Set.Icc (-(F.infinityRank : ℤ)) F.infinityRank, F.valueAt place = v := by
  obtain ⟨x, stands⟩ := known
  rw [value?_eq_map, Option.map_eq_some_iff] at stands
  obtain ⟨place, stands, value⟩ := stands
  exact ⟨place, place_mem stands, value⟩

/-- A value below the number at a place stands at a place below. -/
theorem exists_place_lt {v : EReal} {limit : ℤ}
    (inside : limit ∈ Set.Icc (-(F.infinityRank : ℤ)) F.infinityRank) (known : v ∈ values F)
    (less : v < F.valueAt limit) :
    ∃ place ∈ Set.Icc (-(F.infinityRank : ℤ)) F.infinityRank,
      place < limit ∧ F.valueAt place = v := by
  obtain ⟨place, member, rfl⟩ := exists_place_of_mem known
  exact ⟨place, member, (Format.valueAt_strictMonoOn.lt_iff_lt member inside).mp less, rfl⟩

variable {place : ℤ}

theorem isFloor_of_place (stands : x.place? = some place) (inside : place < F.infinityRank)
    (low : F.valueAt place ≤ exact) (high : exact < F.valueAt (place + 1)) :
    x.IsFloor exact := by
  have value : x.value? = some (F.valueAt place) := by rw [value?_eq_map, stands, Option.map_some]
  have member := place_mem stands
  refine ⟨F.valueAt place, value, ⟨⟨x, value⟩, low⟩, ?_⟩
  rintro w ⟨known, below⟩
  have next : place + 1 ∈ Set.Icc (-(F.infinityRank : ℤ)) F.infinityRank :=
    ⟨by linarith [member.1], inside⟩
  obtain ⟨other, member', less, rfl⟩ := exists_place_lt next known (below.trans_lt high)
  exact Format.valueAt_strictMonoOn.monotoneOn member' member (by omega)

theorem isNearFloor_of_place (stands : x.place? = some place)
    (inside : place + 1 < F.infinityRank) (low : F.valueAt place ≤ exact)
    (high : exact < F.valueAt (place + 2)) : x.IsNearFloor exact := by
  have value : x.value? = some (F.valueAt place) := by rw [value?_eq_map, stands, Option.map_some]
  have member := place_mem stands
  have after : place + 2 ∈ Set.Icc (-(F.infinityRank : ℤ)) F.infinityRank :=
    ⟨by linarith [member.1], by omega⟩
  have next {w : EReal} (known : w ∈ values F) (above : F.valueAt place < w) (below : w ≤ exact) :
      w = F.valueAt (place + 1) := by
    obtain ⟨other, member', less, rfl⟩ := exists_place_lt after known (below.trans_lt high)
    have greater := (Format.valueAt_strictMonoOn.lt_iff_lt member member').mp above
    rw [show other = place + 1 by omega]
  refine ⟨F.valueAt place, value, low, ?_⟩
  rintro w ⟨known, above, below⟩ u ⟨known', above', below'⟩
  rw [next known above below, next known' above' below']

end Binary

end LinearEnclosure
