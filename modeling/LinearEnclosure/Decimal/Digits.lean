/-
# Decimal digits of a natural number

The length of a number written in base ten, and the number of zeros at its end.
Zero is written with no digits here, so that `n < 10 ^ digitCount n` is sharp for
every `n`.
-/

namespace LinearEnclosure

-- Powers are those of the core library.
attribute [local instance (high)] instPowNat

/-- The number of decimal digits of `n`; zero has none. -/
def digitCount (n : Nat) : Nat :=
  if n = 0 then 0 else (Nat.toDigits 10 n).length

/-- The number of zeros at the end of the decimal digits of `n`; none for zero. -/
def trailingZeros (n : Nat) : Nat :=
  if n = 0 ∨ n % 10 ≠ 0 then 0 else trailingZeros (n / 10) + 1
termination_by n
decreasing_by omega

@[simp] theorem digitCount_zero : digitCount 0 = 0 := rfl

/-- A number lies below the power of ten that its digit count names. -/
theorem lt_ten_pow_digitCount (n : Nat) : n < 10 ^ digitCount n := by
  unfold digitCount
  split
  · omega
  · exact (Nat.length_toDigits_le_iff (by decide) Nat.length_toDigits_pos).mp (Nat.le_refl _)

/-- A positive number is at least the power of ten one below its digit count. -/
theorem ten_pow_le_of_digitCount {n : Nat} (positive : 0 < n) :
    10 ^ (digitCount n - 1) ≤ n := by
  have count : digitCount n = (Nat.toDigits 10 n).length := if_neg (by omega)
  rcases Nat.lt_or_ge n (10 ^ (digitCount n - 1)) with below | above
  · rw [count] at below
    have long : 0 < (Nat.toDigits 10 n).length := Nat.length_toDigits_pos
    by_cases single : (Nat.toDigits 10 n).length = 1
    · simp [single] at below
      omega
    · have := (Nat.length_toDigits_le_iff (by decide) (by omega)).mpr below
      omega
  · exact above

/-- The zeros at the end can be divided out. -/
theorem ten_pow_trailingZeros_dvd (n : Nat) : 10 ^ trailingZeros n ∣ n := by
  fun_induction trailingZeros n with
  | case1 => simp
  | case2 n more ih =>
    obtain ⟨k, split⟩ := ih
    refine ⟨k, ?_⟩
    calc n = 10 * (n / 10) := by omega
      _ = 10 * (10 ^ trailingZeros (n / 10) * k) := congrArg (10 * ·) split
      _ = 10 ^ (trailingZeros (n / 10) + 1) * k := by
        rw [Nat.pow_succ, ← Nat.mul_assoc, Nat.mul_comm 10]

/-- What is left after dividing out the zeros at the end does not end in zero. -/
theorem div_trailingZeros_mod {n : Nat} (positive : 0 < n) :
    n / 10 ^ trailingZeros n % 10 ≠ 0 := by
  fun_induction trailingZeros n with
  | case1 n stop => simp; omega
  | case2 n more ih =>
    have reduced := ih (by omega)
    rwa [Nat.pow_succ, Nat.mul_comm, ← Nat.div_div_eq_div_mul]

end LinearEnclosure
