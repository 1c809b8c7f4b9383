/-
# Exact arithmetics and simulation

A field is an arithmetic like any other, with everything but zero as a pivot. It is what
the rounded arithmetics are compared with, through a relation that every operation keeps:
`Simulates` asks that related operands have related results, and that whatever the first
arithmetic divides by, the second may divide by as well.

Nothing is asked in the other direction. The first arithmetic may refuse a pivot that the
second would take.
-/

import LinearEnclosure.Arithmetic
import Mathlib

namespace LinearEnclosure.Arithmetic

/-- The arithmetic of a field, without any rounding. -/
noncomputable def ofField (F : Type) [Field F] : Arithmetic F where
  zero := 0
  one := 1
  add x y := x + y
  sub x y := x - y
  mul x y := x * y
  quotient x y := x / y
  isPivot x := by
    classical
    exact decide (x ≠ 0)
  isFinite _ := true

section Field

variable {F : Type} [Field F]

@[simp] theorem ofField_zero : (ofField F).zero = 0 := rfl

@[simp] theorem ofField_one : (ofField F).one = 1 := rfl

@[simp] theorem ofField_add (x y : F) : (ofField F).add x y = x + y := rfl

@[simp] theorem ofField_sub (x y : F) : (ofField F).sub x y = x - y := rfl

@[simp] theorem ofField_mul (x y : F) : (ofField F).mul x y = x * y := rfl

@[simp] theorem ofField_quotient (x y : F) : (ofField F).quotient x y = x / y := rfl

@[simp] theorem ofField_isPivot (x : F) : (ofField F).isPivot x = true ↔ x ≠ 0 := by
  simp [ofField]

/-- The operations are those of the field, and the pivots are the numbers other than zero. The
answer to a division by zero is left open, because nobody asks for it. -/
structure IsExact (K : Arithmetic F) : Prop where
  zero : K.zero = 0
  one : K.one = 1
  add (x y : F) : K.add x y = x + y
  sub (x y : F) : K.sub x y = x - y
  mul (x y : F) : K.mul x y = x * y
  quotient (x : F) {y : F} : y ≠ 0 → K.quotient x y = x / y
  isPivot (x : F) : K.isPivot x = true ↔ x ≠ 0

/-- A division that is carried out has a divisor that is not zero. -/
theorem ofField_div?_eq_some {x y q : F} (divided : (ofField F).div? x y = some q) :
    y ≠ 0 ∧ q = x / y := by
  by_cases pivot : (ofField F).isPivot y = true
  · rw [div?, if_pos pivot] at divided
    exact ⟨(ofField_isPivot y).mp pivot, (Option.some.inj divided).symm⟩
  · rw [div?, if_neg pivot] at divided
    cases divided

/-- Products taken away one at a time are taken away in a sum. -/
theorem ofField_subProducts (x : F) (terms : List (F × F)) :
    (ofField F).subProducts x terms = x - (terms.map fun term => term.1 * term.2).sum := by
  unfold subProducts
  induction terms generalizing x with
  | nil => simp
  | cons term terms ih =>
    rw [List.foldl_cons, ih, List.map_cons, List.sum_cons]
    simp only [ofField_sub, ofField_mul]
    ring

/-- Products added one at a time to a start. -/
private theorem foldl_add_products (start : F) (terms : List (F × F)) :
    terms.foldl (fun value term => value + term.1 * term.2) start =
      start + (terms.map fun term => term.1 * term.2).sum := by
  induction terms generalizing start with
  | nil => simp
  | cons term terms ih => rw [List.foldl_cons, ih, List.map_cons, List.sum_cons, add_assoc]

theorem ofField_sumProducts (terms : List (F × F)) :
    (ofField F).sumProducts terms = (terms.map fun term => term.1 * term.2).sum :=
  (foldl_add_products 0 terms).trans (zero_add _)

end Field

variable {α β : Type}

/-- Every operation of `K` is followed by the same operation of `K'` through a relation. -/
structure Simulates (K : Arithmetic α) (K' : Arithmetic β) (R : α → β → Prop) : Prop where
  zero : R K.zero K'.zero
  one : R K.one K'.one
  add {x y : α} {x' y' : β} : R x x' → R y y' → R (K.add x y) (K'.add x' y')
  sub {x y : α} {x' y' : β} : R x x' → R y y' → R (K.sub x y) (K'.sub x' y')
  mul {x y : α} {x' y' : β} : R x x' → R y y' → R (K.mul x y) (K'.mul x' y')
  isPivot {x : α} {x' : β} : R x x' → K.isPivot x = true → K'.isPivot x' = true
  quotient {x y : α} {x' y' : β} : R x x' → R y y' → K.isPivot y = true →
    R (K.quotient x y) (K'.quotient x' y')

namespace Simulates

variable {K : Arithmetic α} {K' : Arithmetic β} {R : α → β → Prop} (simulates : K.Simulates K' R)
include simulates

/-- A division that is carried out is followed by one. -/
theorem div? {x y q : α} {x' y' : β} (dividend : R x x') (divisor : R y y')
    (divided : K.div? x y = some q) : ∃ q', K'.div? x' y' = some q' ∧ R q q' := by
  by_cases pivot : K.isPivot y = true
  · rw [Arithmetic.div?, if_pos pivot] at divided
    obtain rfl := Option.some.inj divided
    exact ⟨_, if_pos (simulates.isPivot divisor pivot),
      simulates.quotient dividend divisor pivot⟩
  · rw [Arithmetic.div?, if_neg pivot] at divided
    cases divided

theorem subProducts {x : α} {x' : β} {terms : List (α × α)} {terms' : List (β × β)}
    (start : R x x')
    (related : List.Forall₂ (fun t t' => R t.1 t'.1 ∧ R t.2 t'.2) terms terms') :
    R (K.subProducts x terms) (K'.subProducts x' terms') := by
  unfold Arithmetic.subProducts
  induction related generalizing x x' with
  | nil => exact start
  | cons term _ ih => exact ih (simulates.sub start (simulates.mul term.1 term.2))

theorem sumProducts {terms : List (α × α)} {terms' : List (β × β)}
    (related : List.Forall₂ (fun t t' => R t.1 t'.1 ∧ R t.2 t'.2) terms terms') :
    R (K.sumProducts terms) (K'.sumProducts terms') := by
  unfold Arithmetic.sumProducts
  generalize K.zero = start, K'.zero = start', simulates.zero = first
  induction related generalizing start start' with
  | nil => exact first
  | cons term _ ih => exact ih _ _ (simulates.add first (simulates.mul term.1 term.2))

end Simulates

end LinearEnclosure.Arithmetic
