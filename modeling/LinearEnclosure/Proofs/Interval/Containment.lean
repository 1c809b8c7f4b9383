/-
# What intervals contain

An interval with decimal endpoints contains the real numbers between them. In dual mode
every operation on intervals contains the results of the same operation on all pairs of
members: the endpoints of a sum bound the sums, and the least and the greatest of four
corners bound all products and quotients, whatever the signs. A division is refused exactly
where the divisor has the member zero. Interval arithmetic thus simulates the arithmetic of
the reals through membership.
-/

import LinearEnclosure.Proofs.Arithmetic
import LinearEnclosure.Proofs.Decimal.Order

namespace LinearEnclosure

/-- A real number is in an interval if it lies between the endpoints, both included. -/
instance : Membership ℝ (Interval DecimalFloat) where
  mem x r := (x.lo.value.toRat : ℝ) ≤ r ∧ r ≤ (x.hi.value.toRat : ℝ)

/-! ## Corners of products -/

private theorem exists_end_mul_le {a b x : ℝ} (y : ℝ) (low : a ≤ x) (high : x ≤ b) :
    ∃ u, (u = a ∨ u = b) ∧ u * y ≤ x * y := by
  rcases le_total 0 y with sign | sign
  · exact ⟨a, .inl rfl, mul_le_mul_of_nonneg_right low sign⟩
  · exact ⟨b, .inr rfl, mul_le_mul_of_nonpos_right high sign⟩

/-- Some product of endpoints is no greater than a product of members. -/
theorem exists_corner_le_mul {a b c d x y : ℝ} (left : x ∈ Set.Icc a b)
    (right : y ∈ Set.Icc c d) :
    ∃ u v, (u = a ∨ u = b) ∧ (v = c ∨ v = d) ∧ u * v ≤ x * y := by
  obtain ⟨u, uEnd, first⟩ := exists_end_mul_le y left.1 left.2
  obtain ⟨v, vEnd, second⟩ := exists_end_mul_le u right.1 right.2
  refine ⟨u, v, uEnd, vEnd, ?_⟩
  calc u * v = v * u := mul_comm u v
    _ ≤ y * u := second
    _ = u * y := mul_comm y u
    _ ≤ x * y := first

/-- Some product of endpoints is no less than a product of members. -/
theorem exists_mul_le_corner {a b c d x y : ℝ} (left : x ∈ Set.Icc a b)
    (right : y ∈ Set.Icc c d) :
    ∃ u v, (u = a ∨ u = b) ∧ (v = c ∨ v = d) ∧ x * y ≤ u * v := by
  have mirrored : -y ∈ Set.Icc (-d) (-c) := ⟨neg_le_neg right.2, neg_le_neg right.1⟩
  obtain ⟨u, v, uEnd, vEnd, below⟩ := exists_corner_le_mul left mirrored
  refine ⟨u, -v, uEnd, ?_, by linarith⟩
  rcases vEnd with rfl | rfl
  · exact .inr (neg_neg d)
  · exact .inl (neg_neg c)

namespace Interval

open DecimalFloat

theorem mem_iff {x : Interval DecimalFloat} {r : ℝ} :
    r ∈ x ↔ (x.lo.value.toRat : ℝ) ≤ r ∧ r ≤ (x.hi.value.toRat : ℝ) :=
  Iff.rfl

theorem ordered_iff {x : Interval DecimalFloat} :
    x.Ordered ↔ x.lo.value.toRat ≤ x.hi.value.toRat :=
  notAbove_iff x.lo x.hi

/-- An interval with a member is in order. -/
theorem ordered_of_mem {x : Interval DecimalFloat} {r : ℝ} (member : r ∈ x) : x.Ordered :=
  ordered_iff.mpr (by exact_mod_cast member.1.trans member.2)

/-- The second interval is a part of the first one. -/
def Covers (x y : Interval DecimalFloat) : Prop :=
  y.isSubset x = true

theorem covers_iff {x y : Interval DecimalFloat} :
    x.Covers y ↔ x.lo.value.toRat ≤ y.lo.value.toRat ∧ y.hi.value.toRat ≤ x.hi.value.toRat := by
  simp [Covers, isSubset, le_iff]

/-- An interval whose ends are members of another one is a part of it. -/
theorem covers_of_mem {x y : Interval DecimalFloat} (low : (y.lo.value.toRat : ℝ) ∈ x)
    (high : (y.hi.value.toRat : ℝ) ∈ x) : x.Covers y :=
  covers_iff.mpr ⟨by exact_mod_cast low.1, by exact_mod_cast high.2⟩

theorem Covers.mem {x y : Interval DecimalFloat} {r : ℝ} (covers : x.Covers y) (member : r ∈ y) :
    r ∈ x := by
  obtain ⟨low, high⟩ := covers_iff.mp covers
  exact ⟨le_trans (by exact_mod_cast low) member.1, member.2.trans (by exact_mod_cast high)⟩

/-- The ends of an interval in order are members of it. -/
theorem IsEnd.mem {x : Interval DecimalFloat} {u : DecimalFloat} (isEnd : x.IsEnd u)
    (order : x.Ordered) : (u.value.toRat : ℝ) ∈ x := by
  have order : (x.lo.value.toRat : ℝ) ≤ x.hi.value.toRat := by
    exact_mod_cast ordered_iff.mp order
  rcases isEnd with rfl | rfl
  · exact ⟨le_rfl, order⟩
  · exact ⟨order, le_rfl⟩

theorem mem_point {x : DecimalFloat} {r : ℝ} : r ∈ point x ↔ r = x.value.toRat := by
  rw [mem_iff, point, le_antisymm_iff, and_comm]

/-- Endpoints that were rounded outward have everything between the exact ones inside. -/
theorem mem_of_bounds {lo hi : DecimalFloat} {l h : ℚ} {r : ℝ}
    (down : Direction.Bounds .down l lo.value.toRat) (up : Direction.Bounds .up h hi.value.toRat)
    (low : (l : ℝ) ≤ r) (high : r ≤ h) : r ∈ (⟨lo, hi⟩ : Interval DecimalFloat) := by
  have below : (lo.value.toRat : ℝ) ≤ l := Rat.cast_le.mpr down
  have above : (h : ℝ) ≤ hi.value.toRat := Rat.cast_le.mpr up
  exact ⟨below.trans low, high.trans above⟩

/-- The interval between two integers. -/
def ofIntegers (lo hi : ℤ) : Interval DecimalFloat :=
  ⟨.ofDecimal (.of lo 0), .ofDecimal (.of hi 0)⟩

@[simp] theorem mem_ofIntegers {lo hi : ℤ} {r : ℝ} : r ∈ ofIntegers lo hi ↔ lo ≤ r ∧ r ≤ hi := by
  simp [mem_iff, ofIntegers, ofDecimal, Decimal.toRat_of]

theorem ofIntegers_ordered {lo hi : ℤ} : (ofIntegers lo hi).Ordered ↔ lo ≤ hi := by
  simp [ordered_iff, ofIntegers, ofDecimal]

theorem least_le (best : DecimalFloat) (values : List DecimalFloat) :
    ∀ z ∈ best :: values, (least best values).value.toRat ≤ z.value.toRat := by
  intro z member
  obtain ⟨b, level, le⟩ := exists_level_least best values _ rfl z member
  exact Option.some.inj level ▸ le

theorem le_greatest (best : DecimalFloat) (values : List DecimalFloat) :
    ∀ z ∈ best :: values, z.value.toRat ≤ (greatest best values).value.toRat := by
  intro z member
  obtain ⟨b, level, le⟩ := exists_level_greatest best values _ rfl z member
  exact Option.some.inj level ▸ le

/-- A corner of real numbers is a corner of endpoints. -/
private theorem exists_ends {x y : Interval DecimalFloat} (f : ℝ → ℝ) (P : ℝ → ℝ → Prop)
    (found : ∃ u v, (u = (x.lo.value.toRat : ℝ) ∨ u = (x.hi.value.toRat : ℝ)) ∧
      (v = f y.lo.value.toRat ∨ v = f y.hi.value.toRat) ∧ P u v) :
    ∃ u v, x.IsEnd u ∧ y.IsEnd v ∧ P u.value.toRat (f v.value.toRat) := by
  obtain ⟨u, v, rfl | rfl, rfl | rfl, holds⟩ := found
  · exact ⟨x.lo, y.lo, .inl rfl, .inl rfl, holds⟩
  · exact ⟨x.lo, y.hi, .inl rfl, .inr rfl, holds⟩
  · exact ⟨x.hi, y.lo, .inr rfl, .inl rfl, holds⟩
  · exact ⟨x.hi, y.hi, .inr rfl, .inr rfl, holds⟩

theorem containsZero_iff {x : Interval DecimalFloat} : x.containsZero = true ↔ (0 : ℝ) ∈ x := by
  simp [containsZero, le_iff, mem_iff, Endpoint.zero, DecimalFloat.zero]

/-- An interval that excludes zero starts above it or ends below it. -/
theorem excludes_zero {x : Interval DecimalFloat} (excluded : x.containsZero = false) :
    0 < x.lo.value.toRat ∨ x.hi.value.toRat < 0 := by
  have outside := mt containsZero_iff.mpr (Bool.eq_false_iff.mp excluded)
  rw [mem_iff, not_and_or, not_le, not_le] at outside
  exact_mod_cast outside

/-- No end of a divisor in order is zero. -/
theorem IsEnd.ne_zero {x : Interval DecimalFloat} {u : DecimalFloat} (isEnd : x.IsEnd u)
    (order : x.Ordered) (excluded : x.containsZero = false) : u.value.toRat ≠ 0 := by
  have order := ordered_iff.mp order
  rcases isEnd with rfl | rfl <;> rcases excludes_zero excluded with sign | sign <;> linarith

/-! ## Corners of endpoints -/

section Corners

variable {x y : Interval DecimalFloat} {r s : ℝ}

theorem exists_product_le (left : r ∈ x) (right : s ∈ y) :
    ∃ u v, x.IsEnd u ∧ y.IsEnd v ∧ ((u.value.toRat * v.value.toRat : ℚ) : ℝ) ≤ r * s := by
  obtain ⟨u, v, uEnd, vEnd, corner⟩ :=
    exists_ends (fun v => v) (fun u v => u * v ≤ r * s) (exists_corner_le_mul left right)
  exact ⟨u, v, uEnd, vEnd, by exact_mod_cast corner⟩

theorem exists_le_product (left : r ∈ x) (right : s ∈ y) :
    ∃ u v, x.IsEnd u ∧ y.IsEnd v ∧ r * s ≤ ((u.value.toRat * v.value.toRat : ℚ) : ℝ) := by
  obtain ⟨u, v, uEnd, vEnd, corner⟩ :=
    exists_ends (fun v => v) (fun u v => r * s ≤ u * v) (exists_mul_le_corner left right)
  exact ⟨u, v, uEnd, vEnd, by exact_mod_cast corner⟩

/-- The reciprocals of the members lie between the reciprocals of the ends. -/
private theorem inv_mem (member : s ∈ y) (excluded : y.containsZero = false) :
    s⁻¹ ∈ Set.Icc (y.hi.value.toRat : ℝ)⁻¹ (y.lo.value.toRat : ℝ)⁻¹ := by
  rcases excludes_zero excluded with sign | sign
  · have positive : (0 : ℝ) < y.lo.value.toRat := by exact_mod_cast sign
    exact ⟨inv_anti₀ (positive.trans_le member.1) member.2, inv_anti₀ positive member.1⟩
  · have negative : (y.hi.value.toRat : ℝ) < 0 := by exact_mod_cast sign
    exact ⟨(inv_le_inv_of_neg negative (member.2.trans_lt negative)).mpr member.2,
      (inv_le_inv_of_neg (member.2.trans_lt negative)
        ((member.1.trans member.2).trans_lt negative)).mpr member.1⟩

theorem exists_quotient_le (left : r ∈ x) (right : s ∈ y) (excluded : y.containsZero = false) :
    ∃ u v, x.IsEnd u ∧ y.IsEnd v ∧ ((u.value.toRat / v.value.toRat : ℚ) : ℝ) ≤ r / s := by
  obtain ⟨a, c, aEnd, cEnd, below⟩ := exists_corner_le_mul left (inv_mem right excluded)
  obtain ⟨u, v, uEnd, vEnd, corner⟩ :=
    exists_ends (·⁻¹) (fun u v => u * v ≤ r * s⁻¹) ⟨a, c, aEnd, cEnd.symm, below⟩
  refine ⟨u, v, uEnd, vEnd, ?_⟩
  push_cast
  rwa [div_eq_mul_inv, div_eq_mul_inv]

theorem exists_le_quotient (left : r ∈ x) (right : s ∈ y) (excluded : y.containsZero = false) :
    ∃ u v, x.IsEnd u ∧ y.IsEnd v ∧ r / s ≤ ((u.value.toRat / v.value.toRat : ℚ) : ℝ) := by
  obtain ⟨a, c, aEnd, cEnd, above⟩ := exists_mul_le_corner left (inv_mem right excluded)
  obtain ⟨u, v, uEnd, vEnd, corner⟩ :=
    exists_ends (·⁻¹) (fun u v => r * s⁻¹ ≤ u * v) ⟨a, c, aEnd, cEnd.symm, above⟩
  refine ⟨u, v, uEnd, vEnd, ?_⟩
  push_cast
  rwa [div_eq_mul_inv, div_eq_mul_inv]

variable (context : Context)
  (operation : Direction → ℕ → DecimalFloat → DecimalFloat → DecimalFloat) {u v : DecimalFloat}

theorem corners_lo_le (uEnd : x.IsEnd u) (vEnd : y.IsEnd v) :
    (corners context operation x y).lo.value.toRat ≤
      (operation context.lower context.precision u v).value.toRat := by
  apply least_le
  rcases uEnd with rfl | rfl <;> rcases vEnd with rfl | rfl <;> simp

theorem le_corners_hi (uEnd : x.IsEnd u) (vEnd : y.IsEnd v) :
    (operation context.upper context.precision u v).value.toRat ≤
      (corners context operation x y).hi.value.toRat := by
  apply le_greatest
  rcases uEnd with rfl | rfl <;> rcases vEnd with rfl | rfl <;> simp

end Corners

/-! ## Results of members -/

theorem sub_eq_add (context : Context) (x y : Interval DecimalFloat) :
    x.sub context y = x.add context y.neg := rfl

theorem mem_neg {x : Interval DecimalFloat} {r : ℝ} (member : r ∈ x) : -r ∈ x.neg := by
  obtain ⟨low, high⟩ := member
  simp only [mem_iff, Interval.neg, Endpoint.neg, DecimalFloat.neg, Decimal.toRat_neg]
  push_cast
  exact ⟨neg_le_neg high, neg_le_neg low⟩

variable {context : Context} (dual : context.mode = .dual)
include dual

/-- The hull of the corners reaches from below the least exact corner to above the
greatest one. -/
theorem mem_corners {operation : Direction → ℕ → DecimalFloat → DecimalFloat → DecimalFloat}
    {exact : ℚ → ℚ → ℚ} {x y : Interval DecimalFloat} {r : ℝ}
    (bounds : ∀ direction u v, y.IsEnd v →
      Direction.Bounds direction (exact u.value.toRat v.value.toRat)
        (operation direction context.precision u v).value.toRat)
    (below : ∃ u v, x.IsEnd u ∧ y.IsEnd v ∧ ((exact u.value.toRat v.value.toRat : ℚ) : ℝ) ≤ r)
    (above : ∃ u v, x.IsEnd u ∧ y.IsEnd v ∧ r ≤ ((exact u.value.toRat v.value.toRat : ℚ) : ℝ)) :
    r ∈ corners context operation x y := by
  obtain ⟨u, v, uEnd, vEnd, low⟩ := below
  obtain ⟨u', v', uEnd', vEnd', high⟩ := above
  have down := corners_lo_le context operation uEnd vEnd
  have up := le_corners_hi context operation uEnd' vEnd'
  rw [Context.lower_eq_down dual] at down
  rw [Context.upper_eq_up dual] at up
  exact mem_of_bounds (down.trans (bounds .down u v vEnd)) (le_trans (bounds .up u' v' vEnd') up)
    low high

theorem mem_add {x y : Interval DecimalFloat} {r s : ℝ} (left : r ∈ x) (right : s ∈ y) :
    r + s ∈ x.add context y := by
  obtain ⟨rLow, rHigh⟩ := left
  obtain ⟨sLow, sHigh⟩ := right
  rw [Interval.add, Context.lower_eq_down dual, Context.upper_eq_up dual]
  apply mem_of_bounds (add_bounds .down context.precision x.lo y.lo)
    (add_bounds .up context.precision x.hi y.hi)
  · push_cast
    exact add_le_add rLow sLow
  · push_cast
    exact add_le_add rHigh sHigh

theorem mem_sub {x y : Interval DecimalFloat} {r s : ℝ} (left : r ∈ x) (right : s ∈ y) :
    r - s ∈ x.sub context y := by
  rw [sub_eq_add_neg, sub_eq_add]
  exact mem_add dual left (mem_neg right)

theorem mem_mul {x y : Interval DecimalFloat} {r s : ℝ} (left : r ∈ x) (right : s ∈ y) :
    r * s ∈ x.mul context y :=
  mem_corners dual (fun direction u v _ => mul_bounds direction context.precision u v)
    (exists_product_le left right) (exists_le_product left right)

theorem mem_quotient {x y : Interval DecimalFloat} {r s : ℝ} (left : r ∈ x) (right : s ∈ y)
    (excluded : y.containsZero = false) : r / s ∈ x.quotient context y := by
  apply mem_corners dual _ (exists_quotient_le left right excluded)
    (exists_le_quotient left right excluded)
  intro direction u v isEnd
  exact div_bounds direction context.precision u (isEnd.ne_zero (ordered_of_mem right) excluded)

theorem mem_scale {x : Interval DecimalFloat} {r : ℝ} (member : r ∈ x) (factor : DecimalFloat) :
    factor.value.toRat * r ∈ x.scale context factor := by
  rw [mul_comm]
  exact mem_mul dual member (mem_point.mpr rfl)

/-- All operations enclose the results on all pairs of members. A division is refused exactly
where the divisor contains zero; one that is carried out looks at quotients by numbers other
than zero only, so it would be the same with any other answer to a division by zero. -/
theorem operations_enclose (x : Interval DecimalFloat) {y : Interval DecimalFloat}
    (order : y.Ordered) :
    (∀ r ∈ x, ∀ s ∈ y, r + s ∈ x.add context y ∧ r - s ∈ x.sub context y ∧
      r * s ∈ x.mul context y) ∧
    (∀ r ∈ x, -r ∈ x.neg ∧
      ∀ factor : DecimalFloat, factor.value.toRat * r ∈ x.scale context factor) ∧
    (x.div? context y = .error (.divisionByZero (Endpoint.display y.lo) (Endpoint.display y.hi)) ↔
      (0 : ℝ) ∈ y) ∧
    ((0 : ℝ) ∉ y → ∃ z, x.div? context y = .ok z ∧ (∀ r ∈ x, ∀ s ∈ y, r / s ∈ z) ∧
      ∀ divide : Direction → ℕ → DecimalFloat → DecimalFloat → DecimalFloat,
        (∀ direction precision u v, v.value.toRat ≠ 0 →
          divide direction precision u v = DecimalFloat.div direction precision u v) →
        corners context divide x y = z) := by
  refine ⟨?_, ?_, ?_, ?_⟩
  · intro r left s right
    exact ⟨mem_add dual left right, mem_sub dual left right, mem_mul dual left right⟩
  · intro r member
    exact ⟨mem_neg member, mem_scale dual member⟩
  · rw [← containsZero_iff, div?]
    cases y.containsZero <;> simp
  · intro outside
    have excluded := Bool.eq_false_iff.mpr (mt containsZero_iff.mp outside)
    refine ⟨x.quotient context y, div?_eq_ok_iff.mpr ⟨excluded, rfl⟩, ?_, ?_⟩
    · intro r left s right
      exact mem_quotient dual left right excluded
    · intro divide agrees
      have low : y.lo.value.toRat ≠ 0 := IsEnd.ne_zero (.inl rfl) order excluded
      have high : y.hi.value.toRat ≠ 0 := IsEnd.ne_zero (.inr rfl) order excluded
      simp only [quotient, corners, agrees _ _ _ _ low, agrees _ _ _ _ high]
      rfl

omit dual in
/-- A divisor below zero, and one that reaches up to zero. -/
theorem operations_enclose_integers :
    (∃ z, (ofIntegers 1 2).div? ⟨2, 2, .dual⟩ (ofIntegers (-4) (-3)) = .ok z ∧
      (1 / -3 : ℝ) ∈ z) ∧
    (ofIntegers 1 2).div? ⟨2, 2, .dual⟩ (ofIntegers (-1) 0) =
      .error (.divisionByZero "-1" "0") := by
  have dual : (⟨2, 2, .dual⟩ : Context).mode = .dual := rfl
  have negative : (ofIntegers (-4) (-3)).Ordered := ofIntegers_ordered.mpr (by decide)
  have around : (ofIntegers (-1) 0).Ordered := ofIntegers_ordered.mpr (by decide)
  constructor
  · obtain ⟨-, -, -, divided⟩ := operations_enclose dual (ofIntegers 1 2) negative
    obtain ⟨z, accepted, inside, -⟩ := divided (by simp)
    exact ⟨z, accepted, inside 1 (by norm_num) (-3) (by norm_num)⟩
  · obtain ⟨-, -, refused, -⟩ := operations_enclose dual (ofIntegers 1 2) around
    have low : Endpoint.display (ofIntegers (-1) 0).lo = "-1" := by decide +kernel
    have high : Endpoint.display (ofIntegers (-1) 0).hi = "0" := by decide +kernel
    rw [low, high] at refused
    exact refused.mpr (by simp)

/-- Interval arithmetic in dual mode encloses the arithmetic of the reals. -/
theorem arithmetic_simulates :
    (Interval.arithmetic context).Simulates (.ofField ℝ)
      fun (x : Interval DecimalFloat) r => r ∈ x where
  zero := by simp [mem_iff, arithmetic, Interval.zero, point, Endpoint.zero, DecimalFloat.zero]
  one := by simp [mem_iff, arithmetic, Interval.one, point, Endpoint.one, DecimalFloat.one]
  add := mem_add dual
  sub := mem_sub dual
  mul := mem_mul dual
  isPivot {x r} member pivot := by
    have side := excludes_zero (x := x) (by simpa [arithmetic] using pivot)
    rw [Arithmetic.ofField_isPivot]
    rcases side with sign | sign
    · have positive : (0 : ℝ) < x.lo.value.toRat := by exact_mod_cast sign
      exact (positive.trans_le member.1).ne'
    · have negative : (x.hi.value.toRat : ℝ) < 0 := by exact_mod_cast sign
      exact (member.2.trans_lt negative).ne
  quotient left right pivot := mem_quotient dual left right (by simpa [arithmetic] using pivot)

end Interval

end LinearEnclosure
