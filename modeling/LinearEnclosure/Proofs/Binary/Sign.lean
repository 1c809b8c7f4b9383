/-
# The signs of binary results

A product and a quotient have the sign that the signs of their operands give, and a difference
lies on the side of zero that the order of its operands gives. The places of values have their
signs, infinities included, so the signs are read off the places. A directed result was reached
from the nearest one, so it leaves that side of zero in its own direction only.
-/

import LinearEnclosure.Proofs.Binary.Order
import LinearEnclosure.Proofs.Binary.Special
import LinearEnclosure.Proofs.Interval.Sign

namespace LinearEnclosure

theorem Direction.KeepsSign.of_int {exact rounded : ℤ} (nonneg : 0 ≤ exact → 0 ≤ rounded)
    (nonpos : exact ≤ 0 → rounded ≤ 0) : Direction.nearest.KeepsSign exact rounded where
  nonneg _ := by exact_mod_cast nonneg
  nonpos _ := by exact_mod_cast nonpos

namespace Format

variable (F : Format)

@[simp] theorem clamp_zero : F.clamp 0 = 0 := by
  unfold clamp
  omega

@[simp] theorem clamp_neg (place : ℤ) : F.clamp (-place) = -F.clamp place := by
  unfold clamp
  omega

/-- Cutting a place off at the infinities keeps its sign. -/
theorem clamp_keepsSign {exact : ℚ} {place : ℤ}
    (kept : Direction.nearest.KeepsSign exact place) :
    Direction.nearest.KeepsSign exact (F.clamp place) := by
  apply kept.trans
  apply Direction.KeepsSign.of_int
  · intro nonneg
    simpa using F.clamp_mono nonneg
  · intro nonpos
    simpa using F.clamp_mono nonpos

/-- Units are added with the sign of the sum of the places. -/
theorem unitsAt_add_keepsSign (i j : ℤ) :
    Direction.nearest.KeepsSign (i + j : ℤ) (F.unitsAt i + F.unitsAt j : ℤ) := by
  apply Direction.KeepsSign.of_int
  · intro nonneg
    have units := F.unitsAt_strictMono.monotone (neg_le_iff_add_nonneg.mpr nonneg)
    rw [unitsAt_neg] at units
    exact neg_le_iff_add_nonneg.mp units
  · intro nonpos
    have units := F.unitsAt_strictMono.monotone (le_neg_iff_add_nonpos_right.mpr nonpos)
    rw [unitsAt_neg] at units
    exact le_neg_iff_add_nonpos_right.mp units

end Format

namespace Binary

variable {F : Format} {x y : Binary F} {direction : Direction} {k : ℤ}

/-- What was reached from a result that keeps signs keeps those of its direction. -/
theorem Reached.exists_keepsSign (reached : Reached direction x y) (stands : y.place? = some k) :
    ∃ l, x.place? = some l ∧
      ∀ exact, Direction.nearest.KeepsSign exact l → direction.KeepsSign exact k := by
  obtain ⟨l, here, below, above⟩ := reached k stands
  refine ⟨l, here, fun exact kept => kept.of_nearest.trans ⟨?_, ?_⟩⟩
  · intro notDown nonneg
    exact nonneg.trans (by exact_mod_cast above notDown)
  · intro notUp nonpos
    exact le_trans (by exact_mod_cast below notUp) nonpos

/-! ## Products and quotients -/

theorem infinite_eq_ofRank (negative : Bool) :
    (infinite negative : Binary F) = ofRank negative F.infinityRank := by
  rw [ofRank, dif_neg (lt_irrefl _)]

/-- A magnitude under the sign of a product, where nothing comes of nothing. -/
theorem ofRank_keepsSign {s t : Bool} {q r rank : ℕ} (zero : q = 0 ∨ r = 0 → rank = 0)
    (stands : (ofRank (s ^^ t) rank : Binary F).place? = some k) :
    Direction.nearest.KeepsSign
      ((if s then -q else q : ℤ) * (if t then -r else r : ℤ) : ℤ) k := by
  have positive : Direction.nearest.KeepsSign (q * r) (rank : ℤ) := by
    constructor
    · intro _ _
      positivity
    · intro _ nonpos
      have nothing : q * r = 0 := Nat.le_zero.mp (by exact_mod_cast nonpos)
      simp [zero (mul_eq_zero.mp nothing)]
  have clamped := F.clamp_keepsSign positive
  rw [place?_ofRank] at stands
  obtain rfl := Option.some.inj stands
  cases s <;> cases t <;> simpa using by first | exact clamped | exact clamped.neg

theorem mul_keepsSign (stands : (x.mul y).place? = some k) :
    ∃ i j, x.place? = some i ∧ y.place? = some j ∧
      Direction.nearest.KeepsSign (i * j : ℤ) k := by
  cases x with
  | finite s q bound =>
    cases y with
    | finite t r bound' =>
      refine ⟨_, _, rfl, rfl, ofRank_keepsSign ?_ stands⟩
      rintro (rfl | rfl) <;> simp
    | infinite t =>
      rw [Binary.mul] at stands
      split at stands
      · cases stands
      · next nonzero =>
        rw [infinite_eq_ofRank] at stands
        exact ⟨_, _, rfl, rfl, ofRank_keepsSign (·.resolve_left nonzero) stands⟩
    | nan => cases stands
  | infinite s =>
    cases y with
    | finite t r bound =>
      rw [Binary.mul] at stands
      split at stands
      · cases stands
      · next nonzero =>
        rw [infinite_eq_ofRank] at stands
        exact ⟨_, _, rfl, rfl, ofRank_keepsSign (·.resolve_right nonzero) stands⟩
    | infinite t =>
      rw [Binary.mul, infinite_eq_ofRank] at stands
      exact ⟨_, _, rfl, rfl, ofRank_keepsSign (or_self_iff.mp ·) stands⟩
    | nan => cases stands
  | nan => cases stands

/-- A quotient by zero has no sign to keep. -/
theorem div_keepsSign (stands : (x.div y).place? = some k) :
    ∃ i j, x.place? = some i ∧ y.place? = some j ∧
      (j ≠ 0 → Direction.nearest.KeepsSign (i * j : ℤ) k) := by
  have divisor {t : Bool} {r : ℕ} (nonzero : (if t then -r else r : ℤ) ≠ 0) : r ≠ 0 := by
    rintro rfl
    simp at nonzero
  cases x with
  | finite s q bound =>
    cases y with
    | finite t r bound' =>
      refine ⟨_, _, rfl, rfl, fun nonzero => ?_⟩
      rw [Binary.div, if_neg (divisor nonzero)] at stands
      refine ofRank_keepsSign ?_ stands
      rintro (rfl | rfl)
      · simp
      · exact absurd rfl (divisor nonzero)
    | infinite t =>
      refine ⟨_, _, rfl, rfl, fun _ => ofRank_keepsSign ?_ stands⟩
      simp
    | nan => cases stands
  | infinite s =>
    cases y with
    | finite t r bound =>
      rw [Binary.div, infinite_eq_ofRank] at stands
      exact ⟨_, _, rfl, rfl, fun nonzero =>
        ofRank_keepsSign (·.resolve_right (divisor nonzero)) stands⟩
    | infinite t => cases stands
    | nan => cases stands
  | nan => cases stands

/-! ## Differences -/

theorem RoundsTo.keepsSign {exact : ℚ} (rounds : RoundsTo exact x)
    (stands : x.place? = some k) : Direction.nearest.KeepsSign exact k := by
  obtain ⟨place, nearest, there⟩ := rounds
  obtain rfl := Option.some.inj (there.symm.trans stands)
  apply F.clamp_keepsSign
  constructor
  · intro _ nonneg
    exact_mod_cast nearest.le_of_le 0 (by simpa using nonneg)
  · intro _ nonpos
    exact_mod_cast nearest.ge_of_ge 0 (by simpa using nonpos)

variable [NeZero F.fractionBits]

theorem add_keepsSign (stands : (x.add y).place? = some k) :
    ∃ i j, x.place? = some i ∧ y.place? = some j ∧
      Direction.nearest.KeepsSign (i + j : ℤ) k := by
  cases x with
  | finite s q bound =>
    cases y with
    | finite t r bound' =>
      refine ⟨_, _, rfl, rfl, ?_⟩
      have rounds := add_roundsTo (x := finite s q bound) (y := finite t r bound') rfl rfl
      rw [signedUnits_eq_unitsAt, signedUnits_eq_unitsAt] at rounds
      exact (F.unitsAt_add_keepsSign _ _).trans (rounds.keepsSign stands)
    | infinite t =>
      obtain rfl := Option.some.inj stands
      refine ⟨_, _, rfl, rfl, .of_int ?_ ?_⟩ <;> split <;> split <;> omega
    | nan => cases stands
  | infinite s =>
    cases y with
    | finite t r bound' =>
      obtain rfl := Option.some.inj stands
      refine ⟨_, _, rfl, rfl, .of_int ?_ ?_⟩ <;> split <;> split <;> omega
    | infinite t =>
      rw [Binary.add] at stands
      split at stands
      · next same =>
        obtain rfl := Option.some.inj stands
        refine ⟨_, _, rfl, rfl, .of_int ?_ ?_⟩ <;> rw [← same] <;> split <;> omega
      · cases stands
    | nan => cases stands
  | nan => cases stands

theorem sub_keepsSign (stands : (x.sub y).place? = some k) :
    ∃ i j, x.place? = some i ∧ y.place? = some j ∧
      Direction.nearest.KeepsSign (i - j : ℤ) k := by
  obtain ⟨i, j, left, right, kept⟩ := add_keepsSign stands
  have back := place?_neg right
  rw [neg_neg] at back
  exact ⟨i, -j, left, back, by rwa [sub_neg_eq_add]⟩

end Binary

open Leveled in
theorem Double.level_eq_some {x : Double} {c : ℚ} :
    level x = some c ↔ ∃ k : ℤ, x.place? = some k ∧ (k : ℚ) = c :=
  Option.map_eq_some_iff

instance : SignedRounding Double where
  level_zero := Double.level_eq_some.mpr ⟨0, rfl, Int.cast_zero⟩
  mul {direction _ x y c} stands := by
    obtain ⟨k, here, rfl⟩ := Double.level_eq_some.mp stands
    obtain ⟨l, there, kept⟩ := (Binary.mulDirected_reached direction x y).exists_keepsSign here
    obtain ⟨i, j, left, right, signs⟩ := Binary.mul_keepsSign there
    rw [Int.cast_mul] at signs
    exact ⟨i, j, Double.level_eq_some.mpr ⟨i, left, rfl⟩,
      Double.level_eq_some.mpr ⟨j, right, rfl⟩, kept _ signs⟩
  div {direction _ x y c} stands := by
    obtain ⟨k, here, rfl⟩ := Double.level_eq_some.mp stands
    obtain ⟨l, there, kept⟩ := (Binary.divDirected_reached direction x y).exists_keepsSign here
    obtain ⟨i, j, left, right, signs⟩ := Binary.div_keepsSign there
    rw [Int.cast_mul] at signs
    exact ⟨i, j, Double.level_eq_some.mpr ⟨i, left, rfl⟩,
      Double.level_eq_some.mpr ⟨j, right, rfl⟩,
      fun nonzero => kept _ (signs (Int.cast_ne_zero.mp nonzero))⟩
  sub {direction _ x y c} stands := by
    obtain ⟨k, here, rfl⟩ := Double.level_eq_some.mp stands
    obtain ⟨l, there, kept⟩ := (Binary.addDirected_reached direction x y.neg).exists_keepsSign here
    obtain ⟨i, j, left, right, signs⟩ := Binary.sub_keepsSign there
    rw [Int.cast_sub] at signs
    exact ⟨i, j, Double.level_eq_some.mpr ⟨i, left, rfl⟩,
      Double.level_eq_some.mpr ⟨j, right, rfl⟩, kept _ signs⟩

end LinearEnclosure
