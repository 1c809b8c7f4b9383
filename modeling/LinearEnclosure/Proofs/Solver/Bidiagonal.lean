/-
# Bidiagonal factors

A tridiagonal matrix with `n + 1` rows has bidiagonal factors. Their multipliers and
pivots follow one another in a recurrence that is defined for any bands, and where no
pivot vanishes they are the triangular factors of the matrix.
-/

import LinearEnclosure.Dense.Vector
import LinearEnclosure.Proofs.Solver.Factorization

namespace LinearEnclosure

open Matrix

variable {F : Type} [Field F] {n : ℕ}

/-- All entries beside the three bands are zero. -/
def IsTridiagonal (A : Matrix (Fin n) (Fin n) F) : Prop :=
  ∀ i j : Fin n, i.val + 1 < j.val ∨ j.val + 1 < i.val → A i j = 0

/-- The multipliers and pivots that the bands of a matrix determine, from the first row to
the last. -/
structure IsThomas (A : Matrix (Fin (n + 1)) (Fin (n + 1)) F) (l : Fin n → F)
    (d : Fin (n + 1) → F) : Prop where
  first : d 0 = A 0 0
  multiplier : ∀ k : Fin n, l k = A k.succ k.castSucc / d k.castSucc
  pivot : ∀ k : Fin n, d k.succ = A k.succ k.succ - l k * A k.castSucc k.succ

/-- The lower factor, with the multipliers below its unit diagonal. -/
def lowerBidiagonal (l : Fin n → F) : Matrix (Fin (n + 1)) (Fin (n + 1)) F :=
  Matrix.of fun i j =>
    if i = j then 1 else if below : i.val = j.val + 1 then l ⟨j.val, lt_of_val_eq_succ below⟩ else 0

/-- The upper factor, with the pivots below the super-diagonal of `A`. -/
def upperBidiagonal (A : Matrix (Fin (n + 1)) (Fin (n + 1)) F) (d : Fin (n + 1) → F) :
    Matrix (Fin (n + 1)) (Fin (n + 1)) F :=
  Matrix.of fun i j => if i = j then d i else if j.val = i.val + 1 then A i j else 0

section Lower

variable (l : Fin n → F)

theorem isUnitLower_lowerBidiagonal : IsUnitLower (lowerBidiagonal l) where
  lower i j above := by
    have order : i.val < j.val := above
    rw [lowerBidiagonal, of_apply, if_neg (Fin.ne_of_lt order), dif_neg (by omega)]
  diagonal i := by
    rw [lowerBidiagonal, of_apply, if_pos rfl]

theorem lowerBidiagonal_succ (k : Fin n) : lowerBidiagonal l k.succ k.castSucc = l k := by
  rw [lowerBidiagonal, of_apply, if_neg k.castSucc_lt_succ.ne', dif_pos (by simp)]
  rfl

theorem lowerBidiagonal_mulVec_zero (v : Fin (n + 1) → F) : (lowerBidiagonal l *ᵥ v) 0 = v 0 := by
  have lower := isUnitLower_lowerBidiagonal l
  rw [mulVec, dotProduct, Fintype.sum_eq_single 0, lower.diagonal, one_mul]
  intro j other
  rw [lower.above (Fin.pos_of_ne_zero other), zero_mul]

theorem lowerBidiagonal_mulVec_succ (v : Fin (n + 1) → F) (k : Fin n) :
    (lowerBidiagonal l *ᵥ v) k.succ = v k.succ + l k * v k.castSucc := by
  rw [mulVec, dotProduct, Fintype.sum_eq_add k.succ k.castSucc k.castSucc_lt_succ.ne',
    (isUnitLower_lowerBidiagonal l).diagonal, one_mul, lowerBidiagonal_succ]
  rintro j ⟨offDiagonal, offBand⟩
  have apart : ¬ k.succ.val = j.val + 1 := by
    intro same
    exact offBand (Fin.ext (by simpa using same.symm))
  rw [lowerBidiagonal, of_apply, if_neg offDiagonal.symm, dif_neg apart, zero_mul]

end Lower

section Upper

variable (A : Matrix (Fin (n + 1)) (Fin (n + 1)) F) (d : Fin (n + 1) → F)

theorem isUpperTriangular_upperBidiagonal : (upperBidiagonal A d).IsUpperTriangular := by
  intro i j below
  have order : j.val < i.val := below
  rw [upperBidiagonal, of_apply, if_neg (Fin.ne_of_gt order), if_neg (by omega)]

theorem upperBidiagonal_diagonal (i : Fin (n + 1)) : upperBidiagonal A d i i = d i := by
  rw [upperBidiagonal, of_apply, if_pos rfl]

theorem upperBidiagonal_succ (k : Fin n) :
    upperBidiagonal A d k.castSucc k.succ = A k.castSucc k.succ := by
  rw [upperBidiagonal, of_apply, if_neg k.castSucc_lt_succ.ne, if_pos (by simp)]

/-- Above the diagonal the upper factor is the matrix itself. -/
theorem upperBidiagonal_of_lt (banded : IsTridiagonal A) {i j : Fin (n + 1)} (above : i < j) :
    upperBidiagonal A d i j = A i j := by
  have order : i.val < j.val := above
  rw [upperBidiagonal, of_apply, if_neg (Fin.ne_of_lt above)]
  by_cases next : j.val = i.val + 1
  · rw [if_pos next]
  · rw [if_neg next, banded]
    omega

theorem upperBidiagonal_mulVec_last (x : Fin (n + 1) → F) :
    (upperBidiagonal A d *ᵥ x) (Fin.last n) = d (Fin.last n) * x (Fin.last n) := by
  rw [mulVec, dotProduct, Fintype.sum_eq_single (Fin.last n), upperBidiagonal_diagonal]
  intro j other
  have below : upperBidiagonal A d (Fin.last n) j = 0 :=
    isUpperTriangular_upperBidiagonal A d (Fin.lt_last_iff_ne_last.mpr other)
  rw [below, zero_mul]

theorem upperBidiagonal_mulVec_castSucc (x : Fin (n + 1) → F) (k : Fin n) :
    (upperBidiagonal A d *ᵥ x) k.castSucc =
      d k.castSucc * x k.castSucc + A k.castSucc k.succ * x k.succ := by
  rw [mulVec, dotProduct, Fintype.sum_eq_add k.castSucc k.succ k.castSucc_lt_succ.ne,
    upperBidiagonal_diagonal, upperBidiagonal_succ]
  rintro j ⟨offDiagonal, offBand⟩
  have apart : ¬ j.val = k.castSucc.val + 1 := by
    intro same
    exact offBand (Fin.ext (by simpa using same))
  rw [upperBidiagonal, of_apply, if_neg offDiagonal.symm, if_neg apart, zero_mul]

end Upper

namespace IsThomas

variable {A : Matrix (Fin (n + 1)) (Fin (n + 1)) F} {l : Fin n → F} {d : Fin (n + 1) → F}

theorem unique {l' : Fin n → F} {d' : Fin (n + 1) → F} (one : IsThomas A l d)
    (other : IsThomas A l' d') : l' = l ∧ d' = d := by
  have pivots : ∀ i, d' i = d i := by
    intro i
    induction i using Fin.induction with
    | zero => rw [other.first, one.first]
    | succ k ih => rw [other.pivot, one.pivot, other.multiplier, one.multiplier, ih]
  have multipliers : ∀ k, l' k = l k := by
    intro k
    rw [other.multiplier, one.multiplier, pivots]
  exact ⟨funext multipliers, funext pivots⟩

theorem isThomas_iff (thomas : IsThomas A l d) {l' : Fin n → F} {d' : Fin (n + 1) → F} :
    IsThomas A l' d' ↔ l' = l ∧ d' = d := by
  constructor
  · intro other
    exact thomas.unique other
  · rintro ⟨rfl, rfl⟩
    exact thomas

/-- Row by row, each entry of the product of the factors is the entry of the matrix. -/
theorem isLU (thomas : IsThomas A l d) (banded : IsTridiagonal A) (pivots : ∀ i, d i ≠ 0) :
    IsLU A (lowerBidiagonal l) (upperBidiagonal A d) where
  lower := isUnitLower_lowerBidiagonal l
  upper := isUpperTriangular_upperBidiagonal A d
  product := by
    ext i j
    have column : (lowerBidiagonal l * upperBidiagonal A d) i j =
        (lowerBidiagonal l *ᵥ fun k => upperBidiagonal A d k j) i := rfl
    rw [column]
    cases i using Fin.cases with
    | zero =>
      rw [lowerBidiagonal_mulVec_zero]
      cases j using Fin.cases with
      | zero => rw [upperBidiagonal_diagonal, thomas.first]
      | succ j => rw [upperBidiagonal_of_lt A d banded (Fin.succ_pos j)]
    | succ k =>
      rw [lowerBidiagonal_mulVec_succ]
      obtain below | rfl | above := lt_trichotomy j k.succ
      · have left : upperBidiagonal A d k.succ j = 0 :=
          isUpperTriangular_upperBidiagonal A d below
        rw [left, zero_add]
        obtain rfl | before := (Fin.le_castSucc_iff.mpr below).eq_or_lt
        · rw [upperBidiagonal_diagonal, thomas.multiplier, div_mul_cancel₀ _ (pivots k.castSucc)]
        · have outside : upperBidiagonal A d k.castSucc j = 0 :=
            isUpperTriangular_upperBidiagonal A d before
          have apart : j.val < k.val := before
          rw [outside, mul_zero, banded]
          simpa using .inr apart
      · rw [upperBidiagonal_diagonal, upperBidiagonal_succ, thomas.pivot, sub_add_cancel]
      · have apart : k.val + 1 < j.val := above
        have outside : upperBidiagonal A d k.castSucc j = 0 := by
          rw [upperBidiagonal_of_lt A d banded (k.castSucc_lt_succ.trans above), banded]
          simpa using .inl apart
        rw [outside, mul_zero, add_zero, upperBidiagonal_of_lt A d banded above]

theorem det_ne_zero (thomas : IsThomas A l d) (banded : IsTridiagonal A)
    (pivots : ∀ i, d i ≠ 0) : A.det ≠ 0 := by
  apply (thomas.isLU banded pivots).det_ne_zero
  intro i
  rw [upperBidiagonal_diagonal]
  exact pivots i

end IsThomas

end LinearEnclosure
