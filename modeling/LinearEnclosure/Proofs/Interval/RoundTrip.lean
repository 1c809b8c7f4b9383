/-
# Intervals that are printed and read back

The printed form of an interval is accepted by the reader, which sees the two printed ends.
In dual mode both the printer and the reader round outward, so what comes back lies around
the interval. With decimal ends the two roundings are one, to the smaller of the two numbers
of digits, and an interval that has been read back once comes back unchanged.
-/

import LinearEnclosure.Proofs.Decimal.Reading
import LinearEnclosure.Proofs.Interval.Writing

namespace LinearEnclosure.Interval

variable {context : Context}

/-- Two numbers between brackets are read as the two ends. -/
theorem read_bracket {β : Type} [Endpoint β] {lower upper : List Char} {l h : ℚ}
    (low : WritesNumber lower l) (high : WritesNumber upper h) :
    (read context (String.ofList (bracket lower upper)) : Except IntervalError (Interval β)) =
      Endpoint.read context.lower context.precision lower >>= fun lo =>
        Endpoint.read context.upper context.precision upper >>= make? lo := by
  have shape : bracket lower upper = '[' :: (lower ++ ';' :: upper ++ [']']) := rfl
  have clear : ∀ c ∈ bracket lower upper, (!Text.isBlank c) = true := by
    intro c member
    simp only [shape, List.append_assoc, List.cons_append, List.mem_cons, List.mem_append,
      List.not_mem_nil, or_false] at member
    rcases member with rfl | inside | rfl | inside | rfl
    · rfl
    · rw [(low.isNumberChar c inside).not_isBlank, Bool.not_false]
    · rfl
    · rw [(high.isNumberChar c inside).not_isBlank, Bool.not_false]
    · rfl
  have compact : Text.squeeze (bracket lower upper) = bracket lower upper :=
    List.filter_eq_self.mpr clear
  apply read_of_pair (.inl rfl) low high
  exact .inr (by rw [String.toList_ofList, compact, shape])

/-! ## Decimal ends -/

/-- The interval whose ends have been printed and read. -/
def reread (context : Context) (x : Interval DecimalFloat) : Interval DecimalFloat :=
  ⟨.round context.lower context.precision
      (x.lo.value.roundTo context.lower (context.outDigits + 1)),
    .round context.upper context.precision
      (x.hi.value.roundTo context.upper (context.outDigits + 1))⟩

variable {x : Interval DecimalFloat}

theorem read_format (positive : context.outDigits ≠ 0) (ordered : (x.reread context).Ordered)
    (low : (x.lo.value.roundTo context.lower (context.outDigits + 1)).InRange)
    (high : (x.hi.value.roundTo context.upper (context.outDigits + 1)).InRange) :
    read context (x.format context) = .ok (x.reread context) := by
  have lower : Endpoint.read context.lower context.precision
      (x.lo.value.scientific context.lower context.outDigits) = .ok (x.reread context).lo :=
    mapError_eq_ok_iff.mpr (DecimalFloat.readDirected_scientific positive low)
  have upper : Endpoint.read context.upper context.precision
      (x.hi.value.scientific context.upper context.outDigits) = .ok (x.reread context).hi :=
    mapError_eq_ok_iff.mpr (DecimalFloat.readDirected_scientific positive high)
  have printed : x.format context =
      String.ofList (bracket (x.lo.value.scientific context.lower context.outDigits)
        (x.hi.value.scientific context.upper context.outDigits)) := rfl
  rw [printed, read_bracket ⟨_, x.lo.value.printed_spells _ positive, rfl⟩
    ⟨_, x.hi.value.printed_spells _ positive, rfl⟩, lower, ok_bind, upper, ok_bind,
    make?_eq_ok_iff]
  exact ⟨ordered, rfl⟩

/-- In dual mode the two ends are each rounded outward, once. -/
theorem reread_isRounded (dual : context.mode = .dual) (precise : 1 ≤ context.precision)
    (x : Interval DecimalFloat) :
    Direction.down.IsRounded (min context.precision (context.outDigits + 1)) x.lo.value.toRat
        (x.reread context).lo.value.toRat ∧
      Direction.up.IsRounded (min context.precision (context.outDigits + 1)) x.hi.value.toRat
        (x.reread context).hi.value.toRat := by
  rw [reread, Context.lower_eq_down dual, Context.upper_eq_up dual]
  exact ⟨DecimalFloat.round_roundTo_isRounded precise _,
    DecimalFloat.round_roundTo_isRounded precise _⟩

theorem reread_covers (dual : context.mode = .dual) (precise : 1 ≤ context.precision)
    (x : Interval DecimalFloat) : (x.reread context).Covers x :=
  covers_iff.mpr ((reread_isRounded dual precise x).imp (·.bounds) (·.bounds))

/-- What has been read once is short, so nothing is rounded away from it a second time. -/
theorem read_format_reread (dual : context.mode = .dual) (precise : 1 ≤ context.precision)
    (positive : context.outDigits ≠ 0) (ordered : (x.reread context).Ordered)
    (low : (x.reread context).lo.value.InRange) (high : (x.reread context).hi.value.InRange) :
    read context ((x.reread context).format context) = .ok (x.reread context) := by
  obtain ⟨lower, upper⟩ := reread_isRounded dual precise x
  obtain ⟨fewLow, printedLow⟩ := le_min_iff.mp (Decimal.mem_short_iff.mp lower.mem_short)
  obtain ⟨fewHigh, printedHigh⟩ := le_min_iff.mp (Decimal.mem_short_iff.mp upper.mem_short)
  have same : (x.reread context).reread context = x.reread context := by
    apply congrArg₂ Interval.mk
    · rw [Decimal.roundTo_of_size_le printedLow]
      exact DecimalFloat.round_value_eq_self precise (max_eq_left precise) fewLow
    · rw [Decimal.roundTo_of_size_le printedHigh]
      exact DecimalFloat.round_value_eq_self precise (max_eq_left precise) fewHigh
  rw [← Decimal.roundTo_of_size_le printedLow] at low
  rw [← Decimal.roundTo_of_size_le printedHigh] at high
  have again := read_format positive (by rwa [same]) low high
  rwa [same] at again

end LinearEnclosure.Interval
