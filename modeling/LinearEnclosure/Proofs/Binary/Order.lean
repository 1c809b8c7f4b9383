/-
# The order of binary results

Rounding to nearest is monotone, so a sum does not decrease when its summands increase. This
holds for infinite summands as well, as long as the results are numbers. A directed result
lies on the side of the nearest one that its direction names, whatever the error term says:
a wrong sign of the error costs a step, but it never exchanges two results.

Together these keep the ends of an interval of 64-bit numbers in order, in both rounding modes.
-/

import LinearEnclosure.Proofs.Binary.Directed
import LinearEnclosure.Proofs.Interval.Order

namespace LinearEnclosure

/-- Nearest places follow the order of the exact results. Where two exact results share the
midpoint of neighbouring places, both go to the even one. -/
theorem Format.Nearest.mono {F : Format} {v w : ℚ} {k l : ℤ} (first : F.Nearest v k)
    (second : F.Nearest w l) (le : v ≤ w) : k ≤ l := by
  by_contra! less
  have above : (F.unitsAt (l + 1) : ℚ) ≤ F.unitsAt k := by
    exact_mod_cast F.unitsAt_strictMono.monotone (by omega)
  have below : (F.unitsAt l : ℚ) ≤ F.unitsAt (k - 1) := by
    exact_mod_cast F.unitsAt_strictMono.monotone (by omega)
  have lower := first.lower
  have upper := second.upper
  have same : (F.unitsAt (l + 1) : ℚ) = F.unitsAt k := by linarith
  obtain rfl : l + 1 = k := F.unitsAt_strictMono.injective (by exact_mod_cast same)
  have evenK := first.lower_even (by linarith)
  have evenL := second.upper_even (by linarith)
  rw [Int.even_add_one] at evenK
  exact evenK evenL

/-- There is only one nearest place. -/
theorem Format.Nearest.unique {F : Format} {v : ℚ} {k l : ℤ} (first : F.Nearest v k)
    (second : F.Nearest v l) : k = l :=
  le_antisymm (first.mono second le_rfl) (second.mono first le_rfl)

theorem Format.clamp_mono (F : Format) : Monotone F.clamp := by
  intro k l le
  exact max_le_max le_rfl (min_le_min le le_rfl)

namespace Binary

variable {F : Format} {x y x' y' : Binary F} {direction : Direction}

/-- The place of the first value is not above that of the second one, if both have one. -/
def PlaceLe (x y : Binary F) : Prop :=
  ∀ k ∈ x.place?, ∀ l ∈ y.place?, k ≤ l

/-- Values that have places are compared by these. -/
theorem placeLe_iff {k l : ℤ} (here : x.place? = some k) (there : y.place? = some l) :
    PlaceLe x y ↔ k ≤ l := by
  simp [PlaceLe, here, there]

theorem RoundsTo.placeLe {v w : ℚ} (first : RoundsTo v x) (second : RoundsTo w y) (le : v ≤ w) :
    PlaceLe x y := by
  obtain ⟨k, nearest, here⟩ := first
  obtain ⟨l, nearest', there⟩ := second
  exact (placeLe_iff here there).mpr (F.clamp_mono (nearest.mono nearest' le))

variable (x) in
theorem PlaceLe.refl : PlaceLe x x := by
  intro k here l there
  exact (Option.some.inj (here.symm.trans there)).le

theorem PlaceLe.neg (le : PlaceLe x y) : PlaceLe y.neg x.neg := by
  have back {z : Binary F} {k : ℤ} (stands : z.neg.place? = some k) : z.place? = some (-k) := by
    rw [← neg_neg z, place?_neg stands]
  intro k here l there
  linarith [le _ (back there) _ (back here)]

/-- `y` was reached from `x` in a direction: not upward unless it goes up, and not downward
unless it goes down. -/
def Reached (direction : Direction) (x y : Binary F) : Prop :=
  ∀ l ∈ y.place?, ∃ k ∈ x.place?, (direction ≠ .up → l ≤ k) ∧ (direction ≠ .down → k ≤ l)

variable (direction x) in
theorem Reached.refl : Reached direction x x := by
  intro k here
  exact ⟨k, here, fun _ => le_rfl, fun _ => le_rfl⟩

/-- Results that were reached from ordered ones, the first not upward and the second not
downward, are ordered. -/
theorem PlaceLe.of_reached {lower upper : Direction} {z w : Binary F} (le : PlaceLe x y)
    (first : Reached lower x z) (second : Reached upper y w) (notUp : lower ≠ .up)
    (notDown : upper ≠ .down) : PlaceLe z w := by
  intro k here l there
  obtain ⟨i, atX, below, -⟩ := first k here
  obtain ⟨j, atY, -, above⟩ := second l there
  exact (below notUp).trans ((le i atX j atY).trans (above notDown))

/-- A correction is one step in its direction, or none. -/
theorem adjust_eq_or (direction : Direction) (below above : Bool) (x : Binary F) :
    x.adjust direction below above = x ∨ x.adjust direction below above = x.step direction := by
  cases x with
  | finite negative rank rank_lt =>
    cases direction <;> cases below <;> cases above <;> simp [adjust, step]
  | infinite negative =>
    cases direction with
    | down =>
      cases negative with
      | false => exact .inr (neg_largest true).symm
      | true => exact .inl rfl
    | nearest => cases negative <;> exact .inl rfl
    | up => cases negative <;> simp [adjust, step, nextUp]
  | nan => cases direction <;> cases below <;> cases above <;> exact .inl rfl

/-! ## Sums -/

/-- Summands of a number are numbers. -/
theorem exists_places_of_add {k : ℤ} (stands : (x.add y).place? = some k) :
    (∃ i, x.place? = some i) ∧ ∃ j, y.place? = some j := by
  cases x <;> cases y <;> simp [Binary.add, place?] at stands ⊢

/-- Beside an infinity a sum is that infinity, or not a number. -/
theorem place?_add_infinite {negative : Bool} {k : ℤ}
    (infinite : x = .infinite negative ∨ y = .infinite negative)
    (stands : (x.add y).place? = some k) :
    k = if negative then -(F.infinityRank : ℤ) else F.infinityRank := by
  rcases infinite with rfl | rfl
  · cases y with
    | finite => exact (Option.some.inj stands).symm
    | infinite other =>
      rw [Binary.add] at stands
      split at stands
      · exact (Option.some.inj stands).symm
      · cases stands
    | nan => cases stands
  · cases x with
    | finite => exact (Option.some.inj stands).symm
    | infinite other =>
      rw [Binary.add] at stands
      split at stands
      · next same => exact same ▸ (Option.some.inj stands).symm
      · cases stands
    | nan => cases stands

variable [NeZero F.infinityRank]

/-- Only an infinity stands at its place. -/
theorem eq_infinite {negative : Bool}
    (stands : x.place? = some (if negative then -(F.infinityRank : ℤ) else F.infinityRank)) :
    x = .infinite negative := by
  have positive := Nat.pos_of_neZero F.infinityRank
  cases x with
  | finite sign rank rank_lt =>
    have same := Option.some.inj stands
    split at same <;> split at same <;> omega
  | infinite other =>
    have same := Option.some.inj stands
    cases other <;> cases negative <;> simp at same ⊢ <;> omega
  | nan => cases stands

/-- Ordered numbers are finite, unless the lower one is at the lower end or the upper one at
the upper end. -/
theorem PlaceLe.exists_units (le : PlaceLe x y) {k l : ℤ} (here : x.place? = some k)
    (there : y.place? = some l) (low : x ≠ .infinite true) (high : y ≠ .infinite false) :
    ∃ a b, x.units? = some a ∧ y.units? = some b ∧ a ≤ b := by
  have between := le k here l there
  have least := place_mem here
  have most := place_mem there
  have strictLow : -F.infinityRank < k := by
    refine least.1.lt_of_ne ?_
    rintro rfl
    exact low (eq_infinite here)
  have strictHigh : l < F.infinityRank := by
    refine most.2.lt_of_ne ?_
    rintro rfl
    exact high (eq_infinite there)
  exact ⟨_, _, units?_of_place here (abs_lt.mpr (by omega)),
    units?_of_place there (abs_lt.mpr (by omega)), F.unitsAt_strictMono.monotone between⟩

theorem add_placeLe [NeZero F.fractionBits] (left : PlaceLe x x') (right : PlaceLe y y') :
    PlaceLe (x.add y) (x'.add y') := by
  intro k here l there
  obtain ⟨⟨i, atX⟩, j, atY⟩ := exists_places_of_add here
  obtain ⟨⟨i', atX'⟩, j', atY'⟩ := exists_places_of_add there
  by_cases bottom : x = .infinite true ∨ y = .infinite true
  · rw [place?_add_infinite bottom here, if_pos rfl]
    exact (place_mem there).1
  by_cases top : x' = .infinite false ∨ y' = .infinite false
  · rw [place?_add_infinite top there, if_neg (by decide)]
    exact (place_mem here).2
  rw [not_or] at bottom top
  obtain ⟨a, a', first, first', le⟩ := left.exists_units atX atX' bottom.1 top.1
  obtain ⟨b, b', second, second', le'⟩ := right.exists_units atY atY' bottom.2 top.2
  have sums : ((a + b : ℤ) : ℚ) ≤ (a' + b' : ℤ) := by exact_mod_cast add_le_add le le'
  exact (add_roundsTo first second).placeLe (add_roundsTo first' second') sums k here l there

/-! ## Directed results -/

theorem step_reached (direction : Direction) (x : Binary F) :
    Reached direction x (x.step direction) := by
  cases here : x.place? with
  | none =>
    obtain rfl : x = nan := by cases x <;> simp [place?] at here ⊢
    cases direction <;> exact .refl _ _
  | some k =>
    have inside := place_mem here
    cases direction with
    | nearest => exact .refl _ _
    | down =>
      intro l there
      rw [step, place?_nextDown here, Option.mem_def, Option.some.injEq] at there
      exact ⟨k, here, fun _ => by have := inside.1; omega, absurd rfl⟩
    | up =>
      intro l there
      rw [step, place?_nextUp here, Option.mem_def, Option.some.injEq] at there
      exact ⟨k, here, absurd rfl, fun _ => by have := inside.2; omega⟩

theorem adjust_reached (direction : Direction) (below above : Bool) (x : Binary F) :
    Reached direction x (x.adjust direction below above) := by
  rcases adjust_eq_or direction below above x with same | stepped
  · rw [same]
    exact .refl _ _
  · rw [stepped]
    exact step_reached _ _

theorem addDirected_reached (direction : Direction) (x y : Binary F) :
    Reached direction (x.add y) (addDirected direction x y) := by
  unfold addDirected
  split
  · exact .refl _ _
  · exact adjust_reached _ _ _ _

theorem mulDirected_reached (direction : Direction) (x y : Binary F) :
    Reached direction (x.mul y) (mulDirected direction x y) := by
  simp only [mulDirected]
  split
  · exact .refl _ _
  split
  · exact step_reached _ _
  · exact adjust_reached _ _ _ _

theorem divDirected_reached (direction : Direction) (x y : Binary F) :
    Reached direction (x.div y) (divDirected direction x y) := by
  simp only [divDirected]
  split
  · exact .refl _ _
  split
  · exact step_reached _ _
  · exact adjust_reached _ _ _ _

end Binary

/-! ## Ends of intervals -/

namespace Double

open Binary

instance : NeZero Format.double.infinityRank := ⟨by decide⟩

/-- Numbers of 64 bits are ordered by their places. -/
instance : Leveled Double where
  level x := x.place?.map fun place : ℤ => (place : ℚ)
  compare?_eq x y := by
    show x.compare? y = _
    cases here : x.place? with
    | none => simp [compare?, here]
    | some k =>
      cases there : y.place? with
      | none => simp [compare?, here, there]
      | some l =>
        have cast : compare (k : ℚ) l = compare k l := by
          rw [← cmp_eq_compare, ← cmp_eq_compare, Int.cast_strictMono.cmp_map_eq]
        simp [compare?, here, there, cast]

theorem notAbove_iff_placeLe {x y : Double} : Endpoint.NotAbove x y ↔ PlaceLe x y := by
  simp only [Endpoint.notAbove_iff, PlaceLe, Leveled.level, Option.mem_def,
    Option.map_eq_some_iff]
  constructor
  · intro le k here l there
    exact_mod_cast le k ⟨k, here, rfl⟩ l ⟨l, there, rfl⟩
  · rintro le _ ⟨k, here, rfl⟩ _ ⟨l, there, rfl⟩
    exact_mod_cast le k here l there

instance : OrderedRounding Double where
  neg le := notAbove_iff_placeLe.mpr (notAbove_iff_placeLe.mp le).neg
  sub_eq_add_neg _ _ _ _ := rfl
  neg_epsilon _ := by
    show Endpoint.lt (epsilon : Double) (epsilon : Double).neg = false
    decide +kernel
  mul context x y := by
    rw [notAbove_iff_placeLe]
    exact (PlaceLe.refl _).of_reached (mulDirected_reached _ x y) (mulDirected_reached _ x y)
      context.lower_ne_up context.upper_ne_down
  div context x y _ := by
    rw [notAbove_iff_placeLe]
    exact (PlaceLe.refl _).of_reached (divDirected_reached _ x y) (divDirected_reached _ x y)
      context.lower_ne_up context.upper_ne_down

/-- Ends that have places are in order as these are. -/
theorem notAbove_iff {x y : Double} {k l : ℤ} (here : x.place? = some k)
    (there : y.place? = some l) : Endpoint.NotAbove x y ↔ k ≤ l :=
  notAbove_iff_placeLe.trans (placeLe_iff here there)

/-- Sums of 64-bit numbers keep their order in every context. -/
theorem keepsSums (context : Context) : KeepsSums Double context := by
  intro a b c d left right
  rw [notAbove_iff_placeLe] at *
  exact (add_placeLe left right).of_reached (addDirected_reached _ a c) (addDirected_reached _ b d)
    context.lower_ne_up context.upper_ne_down

end Double

end LinearEnclosure
