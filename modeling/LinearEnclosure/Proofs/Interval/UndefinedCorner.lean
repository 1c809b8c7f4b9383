/-
# Undefined corners

A product or quotient of intervals is undefined at a corner if an operand there is not a number,
if a zero meets an infinity, or if an infinity is divided by another. No step of the arithmetic
makes or loses such a value: the corrections by one place keep it, the least and the greatest
of several values are not numbers as soon as one value is not, and so the two ends of the result
are numbers together. An interval whose ends are not numbers is no pivot, and every division by
it is refused.
-/

import LinearEnclosure.Proofs.Binary.Sign
import LinearEnclosure.Proofs.Binary.Special

namespace LinearEnclosure

namespace Binary

variable {F : Format} {x y : Binary F}

theorem place?_eq_none_iff : x.place? = none ↔ x = nan := by
  cases x <;> simp [place?]

/-- An operand is not a number, or a zero meets an infinity. -/
def UndefinedProduct (x y : Binary F) : Prop :=
  x = nan ∨ y = nan ∨ (x.isZero = true ∧ ∃ negative, y = infinite negative) ∨
    ((∃ negative, x = infinite negative) ∧ y.isZero = true)

/-- An operand is not a number, or both are infinities. -/
def UndefinedQuotient (x y : Binary F) : Prop :=
  x = nan ∨ y = nan ∨ (∃ negative, x = infinite negative) ∧ ∃ negative, y = infinite negative

theorem ofRank_ne_nan (negative : Bool) (rank : ℕ) : (ofRank negative rank : Binary F) ≠ nan := by
  unfold ofRank
  split <;> simp

theorem round_ne_nan (negative : Bool) (numerator denominator : ℕ) :
    (round negative numerator denominator : Binary F) ≠ nan :=
  ofRank_ne_nan _ _

theorem mul_eq_nan_iff : x.mul y = nan ↔ UndefinedProduct x y := by
  cases x with
  | finite _ r _ =>
    cases y with
    | finite => simp [Binary.mul, UndefinedProduct, round_ne_nan]
    | infinite => simp [Binary.mul, UndefinedProduct, isZero]
    | nan => simp [UndefinedProduct]
  | infinite =>
    cases y with
    | finite => simp [Binary.mul, UndefinedProduct, isZero]
    | infinite => simp [Binary.mul, UndefinedProduct, isZero]
    | nan => simp [UndefinedProduct]
  | nan => simp [UndefinedProduct]

theorem div_eq_nan_iff (nonzero : y.isZero = false) : x.div y = nan ↔ UndefinedQuotient x y := by
  cases x with
  | finite =>
    cases y with
    | finite _ s _ =>
      rw [Binary.div, if_neg (beq_eq_false_iff_ne.mp nonzero)]
      simp [UndefinedQuotient, round_ne_nan]
    | infinite => simp [Binary.div, UndefinedQuotient, round_ne_nan]
    | nan => simp [UndefinedQuotient]
  | infinite =>
    cases y with
    | finite => simp [Binary.div, UndefinedQuotient]
    | infinite => simp [Binary.div, UndefinedQuotient]
    | nan => simp [UndefinedQuotient]
  | nan => simp [UndefinedQuotient]

/-! ## Steps and corrections -/

theorem neg_eq_nan_iff : x.neg = nan ↔ x = nan := by
  cases x <;> simp [Binary.neg]

theorem nextUp_eq_nan_iff : x.nextUp = nan ↔ x = nan := by
  cases x with
  | finite negative rank bound =>
    rw [nextUp]
    split <;> simp [ofRank_ne_nan]
  | infinite negative => cases negative <;> simp [nextUp, largest, ofRank_ne_nan]
  | nan => exact iff_of_true rfl rfl

theorem step_eq_nan_iff (direction : Direction) : x.step direction = nan ↔ x = nan := by
  cases direction with
  | down => rw [step, nextDown, neg_eq_nan_iff, nextUp_eq_nan_iff, neg_eq_nan_iff]
  | nearest => rfl
  | up => exact nextUp_eq_nan_iff

theorem adjust_eq_nan_iff (direction : Direction) (below above : Bool) :
    x.adjust direction below above = nan ↔ x = nan := by
  rcases adjust_eq_or direction below above x with same | stepped
  · rw [same]
  · rw [stepped, step_eq_nan_iff]

theorem mulDirected_eq_nan_iff (direction : Direction) :
    mulDirected direction x y = nan ↔ UndefinedProduct x y := by
  rw [← mul_eq_nan_iff, mulDirected]
  split
  · rfl
  split
  · exact step_eq_nan_iff direction
  · exact adjust_eq_nan_iff direction _ _

theorem divDirected_eq_nan_iff (direction : Direction) (nonzero : y.isZero = false) :
    divDirected direction x y = nan ↔ UndefinedQuotient x y := by
  rw [← div_eq_nan_iff nonzero, divDirected]
  split
  · rfl
  split
  · exact step_eq_nan_iff direction
  · exact adjust_eq_nan_iff direction _ _

end Binary

namespace Interval

section Corners

variable {β : Type} [Endpoint β]

/-- One value without a place in the order decides an extreme, wherever it stands. -/
theorem isUnordered_extreme (better : β → β → Bool) (best : β) (values : List β) :
    Endpoint.isUnordered (extreme better best values) = true ↔
      ∃ value ∈ best :: values, Endpoint.isUnordered value = true := by
  induction values generalizing best with
  | nil => simp [extreme]
  | cons value rest ih =>
    rw [extreme]
    split
    · next first => simp [first]
    split
    · next second => simp [second]
    next first second =>
      -- The better of two values with places has one.
      have placed : Endpoint.isUnordered (if better value best then value else best) = false := by
        grind
      rw [ih]
      simp [placed, first, second]

variable (context : Context) (operation : Direction → ℕ → β → β → β) (x y : Interval β)

theorem isUnordered_corners_lo :
    Endpoint.isUnordered (corners context operation x y).lo = true ↔
      ∃ u v, x.IsEnd u ∧ y.IsEnd v ∧
        Endpoint.isUnordered (operation context.lower context.precision u v) = true := by
  rw [corners, least, isUnordered_extreme]
  simp only [IsEnd, List.mem_cons, List.not_mem_nil]
  grind

theorem isUnordered_corners_hi :
    Endpoint.isUnordered (corners context operation x y).hi = true ↔
      ∃ u v, x.IsEnd u ∧ y.IsEnd v ∧
        Endpoint.isUnordered (operation context.upper context.precision u v) = true := by
  rw [corners, greatest, isUnordered_extreme]
  simp only [IsEnd, List.mem_cons, List.not_mem_nil]
  grind

end Corners

open Binary

theorem isUnordered_iff_nan {x : Double} : Endpoint.isUnordered x = true ↔ x = nan := by
  rw [Endpoint.isUnordered_iff_level, ← place?_eq_none_iff]
  exact Option.map_eq_none_iff

/-- The two ends of a result are numbers together, and they are not numbers exactly where a
corner of it is undefined. Then nothing can be divided by it. -/
structure Propagates (undefined : Double → Double → Prop) (x y result : Interval Double) :
    Prop where
  lo : result.lo = nan ↔ ∃ u v, x.IsEnd u ∧ y.IsEnd v ∧ undefined u v
  hi : result.hi = nan ↔ ∃ u v, x.IsEnd u ∧ y.IsEnd v ∧ undefined u v
  not_finite : result.lo = nan → result.isFinite = false
  no_pivot : result.lo = nan → ∀ context : Context,
    (Interval.arithmetic context).isPivot result = false
  refused : result.lo = nan → ∀ (context : Context) (z : Interval Double),
    z.div? context result =
      .error (.divisionByZero (Endpoint.display result.lo) (Endpoint.display result.hi))

variable {context : Context} {x y : Interval Double}

/-- Where an operation is undefined in both directions of the context alike, the hull of its
corners propagates it. -/
theorem corners_propagates {operation : Direction → ℕ → Double → Double → Double}
    {undefined : Double → Double → Prop}
    (decides : ∀ direction precision u v, x.IsEnd u → y.IsEnd v →
      (operation direction precision u v = nan ↔ undefined u v)) :
    Propagates undefined x y (corners context operation x y) := by
  have corner (direction : Direction) :
      (∃ u v, x.IsEnd u ∧ y.IsEnd v ∧
        Endpoint.isUnordered (operation direction context.precision u v) = true) ↔
      ∃ u v, x.IsEnd u ∧ y.IsEnd v ∧ undefined u v := by
    simp only [isUnordered_iff_nan]
    refine exists_congr fun u => exists_congr fun v =>
      and_congr_right fun left => and_congr_right fun right => decides _ _ u v left right
  have contains (missing : (corners context operation x y).lo = nan) :
      (corners context operation x y).containsZero = true := by
    rw [containsZero, isUnordered_iff_nan.mpr missing, Bool.true_or, Bool.true_or]
  exact {
    lo := by rw [← isUnordered_iff_nan, isUnordered_corners_lo, corner]
    hi := by rw [← isUnordered_iff_nan, isUnordered_corners_hi, corner]
    not_finite := fun missing => by rw [Interval.isFinite, missing]; rfl
    no_pivot := fun missing _ => by simp [Interval.arithmetic, contains missing]
    refused := fun missing _ _ => by rw [div?, if_pos (contains missing)] }

theorem isZero_eq_false_of_level {x : Double}
    (nonzero : Leveled.level x ≠ Leveled.level (Endpoint.zero : Double)) : x.isZero = false := by
  rw [SignedRounding.level_zero (β := Double)] at nonzero
  cases x with
  | finite negative rank bound =>
    rw [Binary.isZero, beq_eq_false_iff_ne]
    rintro rfl
    exact nonzero (Double.level_eq_some.mpr ⟨0, by cases negative <;> rfl, Int.cast_zero⟩)
  | infinite => rfl
  | nan => rfl

/-- No undefined corner is lost, neither by a product of any two intervals nor by a quotient
that is not refused. -/
theorem undefined_corner_propagates (context : Context) (x y : Interval Double) :
    Propagates UndefinedProduct x y (x.mul context y) ∧
      ∀ quotient, y.Ordered → x.div? context y = .ok quotient →
        Propagates UndefinedQuotient x y quotient := by
  constructor
  · exact corners_propagates fun direction _ _ _ _ _ => mulDirected_eq_nan_iff direction
  · intro quotient order divided
    obtain ⟨excluded, rfl⟩ := div?_eq_ok_iff.mp divided
    obtain ⟨low, high⟩ := level_ne_of_excluded order excluded
    refine corners_propagates fun direction _ u v _ right => divDirected_eq_nan_iff direction ?_
    rcases right with rfl | rfl
    · exact isZero_eq_false_of_level low
    · exact isZero_eq_false_of_level high

/-- The numbers from one on: their product with the unit interval has a zero that meets the
infinity, and their quotient by themselves has an infinity over another. -/
theorem undefined_corner_propagates_unbounded :
    let context : Context := ⟨16, 16, .dual⟩
    let unit : Interval Double := ⟨Binary.zero, Binary.one⟩
    let unbounded : Interval Double := ⟨Binary.one, infinite false⟩
    (unit.mul context unbounded).lo = nan ∧ unbounded.Ordered ∧
      unbounded.div? context unbounded = .ok (unbounded.quotient context unbounded) ∧
      (unbounded.quotient context unbounded).hi = nan := by
  intro context unit unbounded
  have order : unbounded.Ordered := by
    rw [Ordered, Endpoint.NotAbove]
    decide +kernel
  have divided : unbounded.div? context unbounded = .ok (unbounded.quotient context unbounded) :=
    div?_eq_ok_iff.mpr ⟨by decide +kernel, rfl⟩
  obtain ⟨product, -⟩ := undefined_corner_propagates context unit unbounded
  obtain ⟨-, quotient⟩ := undefined_corner_propagates context unbounded unbounded
  refine ⟨product.lo.mpr ⟨_, _, .inl rfl, .inr rfl, ?_⟩, order, divided,
    (quotient _ order divided).hi.mpr ⟨_, _, .inr rfl, .inr rfl, ?_⟩⟩
  · exact .inr (.inr (.inl ⟨by decide +kernel, _, rfl⟩))
  · exact .inr (.inr ⟨⟨_, rfl⟩, _, rfl⟩)

end Interval

end LinearEnclosure
