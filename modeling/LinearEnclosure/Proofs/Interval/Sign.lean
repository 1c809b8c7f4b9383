/-
# Intervals that may contain zero

An interval excludes zero only if both of its ends have a place in the order and lie on the
same side of zero. What may contain zero stays so: a product with anything and a quotient by
a divisor that excludes zero have corners on both sides, or at zero, or without a place in the
order, and a difference of two such intervals has its lower end not above zero and its upper
end not below.

All that is asked of the endpoints is that a rounded result does not cross zero, except in the
direction of its rounding: a tiny positive product may go down below zero, but not to nearest.
-/

import LinearEnclosure.Proofs.Interval.Order

namespace LinearEnclosure

/-- The rounded result is on the side of zero that the exact one is on. Rounding down promises
this of results that are not positive, and rounding up of results that are not negative. -/
structure Direction.KeepsSign (direction : Direction) (exact rounded : ℚ) : Prop where
  nonneg : direction ≠ .down → 0 ≤ exact → 0 ≤ rounded
  nonpos : direction ≠ .up → exact ≤ 0 → rounded ≤ 0

namespace Direction.KeepsSign

variable {direction : Direction} {exact middle rounded : ℚ}

/-- Where both signs are kept, they are kept in every direction. -/
theorem of_nearest (kept : Direction.nearest.KeepsSign exact rounded) :
    direction.KeepsSign exact rounded where
  nonneg _ := kept.nonneg (by decide)
  nonpos _ := kept.nonpos (by decide)

theorem refl (direction : Direction) (exact : ℚ) : direction.KeepsSign exact exact where
  nonneg _ := id
  nonpos _ := id

theorem neg (kept : Direction.nearest.KeepsSign exact rounded) :
    Direction.nearest.KeepsSign (-exact) (-rounded) where
  nonneg _ negated := neg_nonneg.mpr (kept.nonpos (by decide) (neg_nonneg.mp negated))
  nonpos _ negated := neg_nonpos.mpr (kept.nonneg (by decide) (neg_nonpos.mp negated))

theorem trans (first : direction.KeepsSign exact middle)
    (second : direction.KeepsSign middle rounded) : direction.KeepsSign exact rounded where
  nonneg notDown := second.nonneg notDown ∘ first.nonneg notDown
  nonpos notUp := second.nonpos notUp ∘ first.nonpos notUp

end Direction.KeepsSign

open Leveled in
/-- Endpoints whose results have the signs that the levels of their operands give. A result
with a level has operands with levels. -/
class SignedRounding (β : Type) [Endpoint β] [Leveled β] : Prop where
  level_zero : level (Endpoint.zero : β) = some 0
  mul {direction : Direction} {precision : ℕ} {x y : β} {c : ℚ} :
    level (Endpoint.mul direction precision x y) = some c →
      ∃ a b, level x = some a ∧ level y = some b ∧ direction.KeepsSign (a * b) c
  div {direction : Direction} {precision : ℕ} {x y : β} {c : ℚ} :
    level (Endpoint.div direction precision x y) = some c →
      ∃ a b, level x = some a ∧ level y = some b ∧ (b ≠ 0 → direction.KeepsSign (a * b) c)
  sub {direction : Direction} {precision : ℕ} {x y : β} {c : ℚ} :
    level (Endpoint.sub direction precision x y) = some c →
      ∃ a b, level x = some a ∧ level y = some b ∧ direction.KeepsSign (a - b) c

namespace Interval

open Leveled

variable {β : Type} [Endpoint β] [Leveled β] [SignedRounding β] {context : Context}
  {x y : Interval β}

theorem containsZero_iff_level : x.containsZero = true ↔
    ∀ a b, level x.lo = some a → level x.hi = some b → a ≤ 0 ∧ 0 ≤ b := by
  cases low : level x.lo <;> cases high : level x.hi <;>
    simp [containsZero, Endpoint.isUnordered_iff_level, Endpoint.le_iff_level, low, high,
      SignedRounding.level_zero]

/-- An interval that excludes zero has an end that is not zero, in whatever order its ends
are. -/
theorem exists_end_ne_zero (excluded : x.containsZero = false) :
    ∃ v b, x.IsEnd v ∧ level v = some b ∧ b ≠ 0 := by
  rw [← Bool.not_eq_true, containsZero_iff_level] at excluded
  push Not at excluded
  obtain ⟨a, b, low, high, outside⟩ := excluded
  by_cases positive : 0 < a
  · exact ⟨x.lo, a, .inl rfl, low, positive.ne'⟩
  · exact ⟨x.hi, b, .inr rfl, high, (outside (not_lt.mp positive)).ne⟩

/-- If an operation with some end of the second operand keeps signs, then the corners at that
end are on both sides of zero. -/
theorem containsZero_corners {operation : Direction → ℕ → β → β → β} {v : β} {w : ℚ}
    (isEnd : y.IsEnd v)
    (signs : ∀ direction u c, level (operation direction context.precision u v) = some c →
      ∃ a, level u = some a ∧ direction.KeepsSign (a * w) c)
    (zero : x.containsZero = true) : (corners context operation x y).containsZero = true := by
  rw [containsZero_iff_level] at zero ⊢
  intro c d low high
  have below := exists_level_least _ _ c low
  have above := exists_level_greatest _ _ d high
  have atLower (u : β) (inX : x.IsEnd u) :
      ∃ e, level (operation context.lower context.precision u v) = some e ∧ c ≤ e := by
    apply below
    obtain rfl | rfl := inX <;> obtain rfl | rfl := isEnd <;> simp
  have atUpper (u : β) (inX : x.IsEnd u) :
      ∃ e, level (operation context.upper context.precision u v) = some e ∧ e ≤ d := by
    apply above
    obtain rfl | rfl := inX <;> obtain rfl | rfl := isEnd <;> simp
  obtain ⟨c₁, low₁, le₁⟩ := atLower x.lo (.inl rfl)
  obtain ⟨c₂, low₂, le₂⟩ := atLower x.hi (.inr rfl)
  obtain ⟨d₁, high₁, ge₁⟩ := atUpper x.lo (.inl rfl)
  obtain ⟨d₂, high₂, ge₂⟩ := atUpper x.hi (.inr rfl)
  obtain ⟨a, atLo, lowSign₁⟩ := signs _ _ _ low₁
  obtain ⟨b, atHi, lowSign₂⟩ := signs _ _ _ low₂
  obtain ⟨a', atLo', highSign₁⟩ := signs _ _ _ high₁
  obtain ⟨b', atHi', highSign₂⟩ := signs _ _ _ high₂
  obtain rfl : a = a' := Option.some.inj (atLo.symm.trans atLo')
  obtain rfl : b = b' := Option.some.inj (atHi.symm.trans atHi')
  obtain ⟨nonpos, nonneg⟩ := zero a b atLo atHi
  rcases le_total 0 w with up | down
  · have low := lowSign₁.nonpos context.lower_ne_up (mul_nonpos_of_nonpos_of_nonneg nonpos up)
    have high := highSign₂.nonneg context.upper_ne_down (mul_nonneg nonneg up)
    exact ⟨le₁.trans low, high.trans ge₂⟩
  · have low := lowSign₂.nonpos context.lower_ne_up (mul_nonpos_of_nonneg_of_nonpos nonneg down)
    have high := highSign₁.nonneg context.upper_ne_down (mul_nonneg_of_nonpos_of_nonpos nonpos down)
    exact ⟨le₂.trans low, high.trans ge₁⟩

theorem containsZero_mul (y : Interval β) (zero : x.containsZero = true) :
    (x.mul context y).containsZero = true := by
  apply containsZero_corners (w := (level y.lo).getD 0) (.inl rfl) _ zero
  intro direction u c stands
  obtain ⟨a, b, left, right, sign⟩ := SignedRounding.mul stands
  rw [right]
  exact ⟨a, left, sign⟩

theorem containsZero_quotient (excluded : y.containsZero = false) (zero : x.containsZero = true) :
    (x.quotient context y).containsZero = true := by
  obtain ⟨v, w, isEnd, there, nonzero⟩ := exists_end_ne_zero excluded
  apply containsZero_corners (w := w) isEnd _ zero
  intro direction u c stands
  obtain ⟨a, b, left, right, sign⟩ := SignedRounding.div stands
  obtain rfl : w = b := Option.some.inj (there.symm.trans right)
  exact ⟨a, left, sign nonzero⟩

theorem containsZero_sub (left : x.containsZero = true) (right : y.containsZero = true) :
    (x.sub context y).containsZero = true := by
  rw [containsZero_iff_level] at *
  intro c d low high
  obtain ⟨a, b, atLoX, atHiY, lowSign⟩ := SignedRounding.sub low
  obtain ⟨a', b', atHiX, atLoY, highSign⟩ := SignedRounding.sub high
  obtain ⟨nonposX, nonnegX⟩ := left a a' atLoX atHiX
  obtain ⟨nonposY, nonnegY⟩ := right b' b atLoY atHiY
  exact ⟨lowSign.nonpos context.lower_ne_up (by linarith),
    highSign.nonneg context.upper_ne_down (by linarith)⟩

end Interval

end LinearEnclosure
