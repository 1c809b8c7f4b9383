/-
# Magnitudes of a binary format

The magnitudes form blocks in which the spacing is constant, and the spacing doubles from
one block to the next. A rank is split into its shift, which numbers the block, and its
significand within the block. The number of units grows strictly with the rank, and the
numbers of units that occur are those with a short significand: the multiples of a power of
two that are not too large for it.
-/

import LinearEnclosure.Binary.Format
import Mathlib

namespace LinearEnclosure.Format

variable (F : Format)

theorem normalRank_pos : 0 < F.normalRank :=
  Nat.two_pow_pos _

/-- In the first block a rank is its own significand; in the others the leading bit of the
significand is set. -/
theorem block_cases (rank : ℕ) :
    (F.shift rank = 0 ∧ F.significand rank = rank ∧ rank < F.normalRank) ∨
      (F.normalRank ≤ F.significand rank ∧ F.significand rank < 2 * F.normalRank ∧
        F.shift rank * F.normalRank + F.significand rank = rank) := by
  have split := Nat.div_add_mod rank F.normalRank
  have rest := Nat.mod_lt rank F.normalRank_pos
  cases block : rank / F.normalRank with
  | zero =>
    left
    have shift : F.shift rank = 0 := by
      rw [Format.shift, ← normalRank, block]
    rw [significand, shift]
    rw [block] at split
    omega
  | succ step =>
    right
    have shift : F.shift rank = step := by
      rw [Format.shift, ← normalRank, block, Nat.add_sub_cancel]
    rw [significand, shift, ← normalRank]
    rw [block, Nat.mul_succ, Nat.mul_comm] at split
    omega

theorem shift_mul_add_significand (rank : ℕ) :
    F.shift rank * F.normalRank + F.significand rank = rank := by
  rcases F.block_cases rank with ⟨shift, same, -⟩ | ⟨-, -, split⟩
  · rw [shift, same, Nat.zero_mul, Nat.zero_add]
  · exact split

theorem significand_lt (rank : ℕ) : F.significand rank < 2 * F.normalRank := by
  have := F.block_cases rank
  omega

theorem shift_eq_zero_or_le_significand (rank : ℕ) :
    F.shift rank = 0 ∨ F.normalRank ≤ F.significand rank := by
  have := F.block_cases rank
  omega

/-- The units of a magnitude that is given by block and significand. The significand may reach
the end of the block, where the next one begins. -/
theorem units_block (step significand : ℕ) (low : step = 0 ∨ F.normalRank ≤ significand)
    (high : significand ≤ 2 * F.normalRank) :
    F.units (step * F.normalRank + significand) = significand * 2 ^ step := by
  have spacing := F.normalRank_pos
  have shift : F.shift (step * F.normalRank + significand) =
      step + significand / F.normalRank - 1 := by
    rw [Format.shift, ← normalRank, Nat.mul_comm, Nat.mul_add_div spacing]
  rw [units, Format.significand, shift, ← normalRank]
  rcases Nat.lt_or_ge significand F.normalRank with first | inside
  · obtain rfl : step = 0 := by omega
    simp [Nat.div_eq_of_lt first]
  rcases high.lt_or_eq with inner | rfl
  · have block : significand / F.normalRank = 1 := Nat.div_eq_of_lt_le (by omega) (by omega)
    rw [block, Nat.add_sub_cancel, Nat.add_sub_cancel_left]
  · have next : step * F.normalRank + 2 * F.normalRank - (step + 1) * F.normalRank =
        F.normalRank := by
      rw [Nat.add_mul]
      omega
    rw [Nat.mul_div_cancel _ spacing, show step + 2 - 1 = step + 1 from rfl, next, pow_succ]
    ring

/-- Neighbours differ by one step of the significand. -/
theorem units_succ (rank : ℕ) : F.units (rank + 1) = F.units rank + 2 ^ F.shift rank := by
  have bound := F.significand_lt rank
  have low := F.shift_eq_zero_or_le_significand rank
  have next := F.units_block (F.shift rank) (F.significand rank + 1) (by omega) (by omega)
  rw [← add_assoc, shift_mul_add_significand] at next
  rw [next, units]
  ring

theorem units_succ_le (rank : ℕ) :
    F.units (rank + 1) ≤ 2 * F.normalRank * 2 ^ F.shift rank := by
  have short : F.significand rank + 1 ≤ 2 * F.normalRank := F.significand_lt rank
  calc F.units (rank + 1) = (F.significand rank + 1) * 2 ^ F.shift rank := by
        rw [units_succ, units]
        ring
    _ ≤ 2 * F.normalRank * 2 ^ F.shift rank := Nat.mul_le_mul_right _ short

theorem units_strictMono : StrictMono F.units := by
  apply strictMono_nat_of_lt_succ
  intro rank
  rw [units_succ]
  exact Nat.lt_add_of_pos_right (Nat.two_pow_pos _)

@[simp] theorem units_zero : F.units 0 = 0 := by
  simpa using F.units_block 0 0 (.inl rfl) (Nat.zero_le _)

theorem units_pos {rank : ℕ} (positive : 0 < rank) : 0 < F.units rank := by
  simpa using F.units_strictMono positive

/-- Whatever is a short multiple of a power of two is a magnitude. -/
theorem exists_units_eq (step significand : ℕ) (high : significand ≤ 2 * F.normalRank) :
    ∃ rank, F.units rank = significand * 2 ^ step := by
  induction step generalizing significand with
  | zero => exact ⟨_, F.units_block 0 significand (.inl rfl) high⟩
  | succ step ih =>
    rcases Nat.lt_or_ge significand F.normalRank with small | large
    · obtain ⟨rank, units⟩ := ih (2 * significand) (by omega)
      exact ⟨rank, by rw [units, pow_succ]; ring⟩
    · exact ⟨_, F.units_block (step + 1) significand (.inr large) high⟩

end LinearEnclosure.Format
