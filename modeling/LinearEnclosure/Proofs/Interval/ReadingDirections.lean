/-
# Texts that only some directions read

To nearest, a 64-bit number is read by the binary reader alone. In a direction the decimal is read
as well, by a second reader that computes positions in signed words of 64 bits. Both accept the
same spellings, so the two only part where a position does not fit into a word although the number
itself is harmless: it is zero, or so small that it vanishes. Such a text is read to nearest and
refused downward and upward.

An interval that is read in single mode is therefore read in dual mode if the literals in its text
are in range, and in no other case. The order of its ends gives no trouble, as they only move
apart. For a system this means that each of its texts has to be in range.
-/

import LinearEnclosure.Config.Basic
import LinearEnclosure.Proofs.Binary.ThreeReadings
import LinearEnclosure.Proofs.Interval.ReversedText

namespace LinearEnclosure

/-! ## Numbers -/

namespace Double

open Binary

variable {direction : Direction} {precision : ℕ} {text : List Char}

/-- A direction reads the literals whose nearest number is finite, and unless it goes to nearest
they must be in range. -/
theorem exists_readDirected_iff :
    (∃ x : Double, readDirected direction text = .ok x) ↔
      ∃ literal : Literal, literal.Spells text ∧ Reads direction literal := by
  constructor
  · rintro ⟨x, accepted⟩
    obtain ⟨literal, spelled, inRange, finite⟩ := exists_spells_of_readDirected accepted
    exact ⟨literal, spelled, (isFinite_nearest_iff _).mp finite, inRange⟩
  · rintro ⟨literal, spelled, fits, inRange⟩
    obtain ⟨x, -, accepted, -⟩ := exists_place_readDirected (F := Format.double) (by decide)
      spelled inRange ((isFinite_nearest_iff _).mpr fits)
    exact ⟨x, accepted⟩

/-- All directions read a text, or none does, unless it spells a number that fits but has a
position out of range. -/
theorem directions_agree_iff (text : List Char) :
    ((∀ direction, ∃ x : Double, readDirected direction text = .ok x) ∨
        ∀ direction, ¬∃ x : Double, readDirected direction text = .ok x) ↔
      ¬∃ literal : Literal, literal.Spells text ∧ Fits literal.number ∧
        literal.inRange = false := by
  simp only [exists_readDirected_iff]
  constructor
  · rintro agree ⟨literal, spelled, fits, outside⟩
    rcases agree with all | none
    · obtain ⟨other, again, -, inRange⟩ := all .down
      obtain rfl := spelled.unique again
      rw [inRange (by decide)] at outside
      cases outside
    · exact none .nearest ⟨literal, spelled, fits, absurd rfl⟩
  · intro harmless
    by_cases read : ∃ literal : Literal, literal.Spells text ∧ Fits literal.number
    · obtain ⟨literal, spelled, fits⟩ := read
      refine .inl fun direction => ⟨literal, spelled, fits, fun _ => ?_⟩
      by_contra outside
      exact harmless ⟨literal, spelled, fits, Bool.eq_false_of_not_eq_true outside⟩
    · right
      rintro direction ⟨literal, spelled, fits, -⟩
      exact read ⟨literal, spelled, fits⟩

/-- Two ends are read in order if the nearest numbers are in order. -/
theorem exists_read_notAbove (context : Context) {first last : List Char} {lower upper : Literal}
    (spelledLower : lower.Spells first) (spelledUpper : upper.Spells last)
    (readsLower : Reads context.lower lower) (readsUpper : Reads context.upper upper)
    (order : ∀ {i j}, Format.double.Nearest (Format.double.inUnits lower.number) i →
      Format.double.Nearest (Format.double.inUnits upper.number) j → i ≤ j) :
    ∃ below above : Double, Endpoint.read context.lower context.precision first = .ok below ∧
      Endpoint.read context.upper context.precision last = .ok above ∧
      Endpoint.NotAbove below above := by
  obtain ⟨below, i, readBelow, low, here⟩ := exists_place_of_reads spelledLower readsLower
  obtain ⟨above, j, readAbove, high, there⟩ := exists_place_of_reads spelledUpper readsUpper
  have down := Format.double.outward_mem_of_ne_up (Format.double.inUnits lower.number) i
    context.lower_ne_up
  have up := Format.double.outward_mem_of_ne_down (Format.double.inUnits upper.number) j
    context.upper_ne_down
  exact ⟨below, above, readBelow, readAbove,
    (notAbove_iff here there).mpr (down.2.trans ((order low high).trans up.1))⟩

end Double

/-! ## Intervals -/

/-- A text of an interval with all of its literals in range. -/
def SpellsInRange (text : String) : Prop :=
  ∃ literals, SpellsInterval text literals ∧ ∀ literal ∈ literals, literal.inRange = true

namespace Interval

open Double Endpoint

variable {context : Context} {text : String}

/-- Both directions of dual mode ask for literals in range. -/
theorem spellsInRange_of_read (dual : context.mode = .dual) {x : Interval Double}
    (accepted : read context text = .ok x) : SpellsInRange text := by
  have literalOf {direction : Direction} {text : List Char} {u : Double}
      (directed : direction ≠ .nearest)
      (accepted : Endpoint.read direction context.precision text = .ok u) :
      ∃ literal : Literal, literal.Spells text ∧ literal.inRange = true := by
    obtain ⟨literal, spelled, -, inRange⟩ :=
      exists_readDirected_iff.mp ⟨u, mapError_eq_ok_iff.mp accepted⟩
    exact ⟨literal, spelled, inRange directed⟩
  have lower : context.lower ≠ .nearest := by rw [Context.lower_eq_down dual]; decide
  have upper : context.upper ≠ .nearest := by rw [Context.upper_eq_up dual]; decide
  obtain ⟨inner, shape, -, came⟩ := exists_readFrom accepted
  cases came with
  | single readBelow _ _ =>
    obtain ⟨literal, spelled, inRange⟩ := literalOf lower readBelow
    exact ⟨_, ⟨inner, .single spelled, shape⟩, List.forall_mem_singleton.mpr inRange⟩
  | pair parted readBelow readAbove _ =>
    obtain ⟨first, spelledFirst, inRangeFirst⟩ := literalOf lower readBelow
    obtain ⟨last, spelledLast, inRangeLast⟩ := literalOf upper readAbove
    exact ⟨_, ⟨_, .pair parted spelledFirst spelledLast, shape⟩,
      List.forall_mem_cons.mpr ⟨inRangeFirst, List.forall_mem_singleton.mpr inRangeLast⟩⟩

/-- What single mode reads has numbers that fit, and in order if there are two. If they are in range
as well, any mode reads it. -/
theorem exists_read_of_spellsInRange (single : context.mode = .single) {x : Interval Double}
    (accepted : read context text = .ok x) (inRange : SpellsInRange text) (mode : RoundingMode) :
    ∃ y : Interval Double, read (context.withMode mode) text = .ok y := by
  have toLower : context.lower = .nearest := by rw [Context.lower, single]; rfl
  have toUpper : context.upper = .nearest := by rw [Context.upper, single]; rfl
  obtain ⟨literals, ⟨inner, bounds, shape⟩, inRange⟩ := inRange
  cases bounds with
  | single spelled =>
    rw [read_of_single ⟨_, spelled, rfl⟩ shape] at accepted
    obtain ⟨_, readBelow, -⟩ := bind_eq_ok_iff.mp accepted
    have fits := (reads_of_read spelled readBelow).1
    have ranged := inRange _ List.mem_cons_self
    obtain ⟨below, above, readBelow, readAbove, order⟩ :=
      exists_read_notAbove (context.withMode mode) spelled spelled ⟨fits, fun _ => ranged⟩
        ⟨fits, fun _ => ranged⟩ fun first second => (first.unique second).le
    rw [read_of_single ⟨_, spelled, rfl⟩ shape, readBelow, ok_bind, readAbove, ok_bind]
    exact ⟨_, make?_eq_ok_iff.mpr ⟨keepsSums (context.withMode mode) order
      (OrderedRounding.neg_epsilon _), rfl⟩⟩
  | @pair first last _ lower upper parted spelledLower spelledUpper =>
    rw [read_of_pair parted ⟨_, spelledLower, rfl⟩ ⟨_, spelledUpper, rfl⟩ shape] at accepted
    obtain ⟨below, readBelow, accepted⟩ := bind_eq_ok_iff.mp accepted
    obtain ⟨above, readAbove, made⟩ := bind_eq_ok_iff.mp accepted
    obtain ⟨ordered, -⟩ := make?_eq_ok_iff.mp made
    obtain ⟨readsLower, i, low, here⟩ := exists_place_of_read spelledLower readBelow
    obtain ⟨readsUpper, j, high, there⟩ := exists_place_of_read spelledUpper readAbove
    -- Single mode has compared the nearest numbers themselves.
    rw [toLower] at here
    rw [toUpper] at there
    have le : i ≤ j := (notAbove_iff here there).mp ordered
    obtain ⟨below, above, readBelow, readAbove, order⟩ :=
      exists_read_notAbove (context.withMode mode) spelledLower spelledUpper
        ⟨readsLower.1, fun _ => inRange _ (by simp)⟩ ⟨readsUpper.1, fun _ => inRange _ (by simp)⟩
        fun first second => low.unique first ▸ high.unique second ▸ le
    rw [read_of_pair parted ⟨_, spelledLower, rfl⟩ ⟨_, spelledUpper, rfl⟩ shape, readBelow,
      ok_bind, readAbove, ok_bind]
    exact ⟨_, make?_eq_ok_iff.mpr ⟨order, rfl⟩⟩

/-- So dual mode reads those texts of single mode that are in range. -/
theorem exists_read_dual_iff (context : Context) (text : String)
    (accepted : ∃ x : Interval Double, read (context.withMode .single) text = .ok x) :
    (∃ y : Interval Double, read (context.withMode .dual) text = .ok y) ↔ SpellsInRange text := by
  obtain ⟨x, accepted⟩ := accepted
  constructor
  · rintro ⟨y, again⟩
    exact spellsInRange_of_read rfl again
  · intro inRange
    exact exists_read_of_spellsInRange rfl accepted inRange .dual

end Interval

/-! ## Systems -/

namespace SystemConfig

variable {α : Type} {S : Scalar α}

/-- The texts that a system is read from. The fields of the other layout are not looked at. -/
def texts (config : SystemConfig) : List String :=
  config.rhs ++
    match config.layout with
    | .tridiagonal => config.sub ++ config.diag ++ config.sup
    | _ => config.matrix.flatten

/-- The rows of a matrix, if there is one, are as long as there are rows. -/
def IsSquare (config : SystemConfig) : Prop :=
  config.layout ≠ .tridiagonal → ∀ row ∈ config.matrix, row.length = config.matrix.length

theorem exists_readVector_iff {texts : List String} :
    (∃ xs, readVector S texts = .ok xs) ↔ ∀ text ∈ texts, ∃ x, S.read text = .ok x := by
  induction texts with
  | nil => simp [readVector]
  | cons text texts ih =>
    rw [List.forall_mem_cons, ← ih]
    simp only [readVector, bind_eq_ok_iff, pure, Except.pure, Except.ok.injEq]
    constructor
    · rintro ⟨_, first, readFirst, rest, readRest, -⟩
      exact ⟨⟨first, readFirst⟩, rest, readRest⟩
    · rintro ⟨⟨first, readFirst⟩, rest, readRest⟩
      exact ⟨_, first, readFirst, rest, readRest, rfl⟩

theorem exists_readMatrix_iff {cols : ℕ} {rows : List (List String)} :
    (∃ A, readMatrix S cols rows = .ok A) ↔
      (∀ row ∈ rows, row.length = cols) ∧ ∀ text ∈ rows.flatten, ∃ x, S.read text = .ok x := by
  induction rows with
  | nil => simp [readMatrix]
  | cons row rows ih =>
    rw [List.forall_mem_cons, List.flatten_cons, List.forall_mem_append, and_and_and_comm, ← ih,
      ← exists_readVector_iff, readMatrix]
    by_cases size : row.length = cols
    · simp only [size, dite_true, bind_eq_ok_iff, pure, Except.pure, Except.ok.injEq, true_and]
      constructor
      · rintro ⟨_, first, readFirst, rest, readRest, -⟩
        exact ⟨⟨first, readFirst⟩, rest, readRest⟩
      · rintro ⟨⟨first, readFirst⟩, rest, readRest⟩
        exact ⟨_, first, readFirst, rest, readRest, rfl⟩
    · simp [size]

/-- A system is read if its matrix is square and each of its texts is read. -/
theorem exists_system_iff (config : SystemConfig) :
    (∃ system, config.system S = .ok system) ↔
      config.IsSquare ∧ ∀ text ∈ config.texts, ∃ x, S.read text = .ok x := by
  have whole : (∃ system : LinearSystem α, (readVector S config.rhs >>= fun b =>
      readMatrix S config.matrix.length config.matrix >>= fun A => pure (.dense A b)) =
        .ok system) ↔
      (∀ row ∈ config.matrix, row.length = config.matrix.length) ∧
        (∃ b, readVector S config.rhs = .ok b) ∧
        ∀ text ∈ config.matrix.flatten, ∃ x, S.read text = .ok x := by
    rw [and_left_comm, ← exists_readMatrix_iff]
    simp only [bind_eq_ok_iff, pure, Except.pure, Except.ok.injEq]
    constructor
    · rintro ⟨_, b, readB, A, readA, -⟩
      exact ⟨⟨b, readB⟩, A, readA⟩
    · rintro ⟨⟨b, readB⟩, A, readA⟩
      exact ⟨_, b, readB, A, readA, rfl⟩
  rw [texts, List.forall_mem_append, ← exists_readVector_iff, IsSquare, system]
  cases config.layout with
  | tridiagonal =>
    simp only [List.forall_mem_append, ← exists_readVector_iff, bind_eq_ok_iff, pure, Except.pure,
      Except.ok.injEq]
    constructor
    · rintro ⟨_, b, readB, sub, readSub, diag, readDiag, sup, readSup, -⟩
      exact ⟨absurd rfl, ⟨b, readB⟩, ⟨⟨sub, readSub⟩, diag, readDiag⟩, sup, readSup⟩
    · rintro ⟨-, ⟨b, readB⟩, ⟨⟨sub, readSub⟩, diag, readDiag⟩, sup, readSup⟩
      exact ⟨_, b, readB, sub, readSub, diag, readDiag, sup, readSup, rfl⟩
  | general =>
    rw [forall_prop_of_true (by decide)]
    exact whole
  | symmetric =>
    rw [forall_prop_of_true (by decide)]
    exact whole

end SystemConfig

/-- Which directions read a 64-bit number, and what this means for systems of intervals. All
directions read a text or none does, unless it spells a number whose nearest 64-bit number is
finite and which has a position beyond a signed word of 64 bits; such a text is read to nearest
only. So a system that is read in single mode is read in dual mode if and only if the literals of
all of its texts are in range. -/
theorem directions_agree_inRange (text : List Char) (config : SystemConfig) (context : Context) :
    (((∀ direction, ∃ x : Double, Binary.readDirected direction text = .ok x) ∨
        ∀ direction, ¬∃ x : Double, Binary.readDirected direction text = .ok x) ↔
      ¬∃ literal : Literal, literal.Spells text ∧ Double.Fits literal.number ∧
        literal.inRange = false) ∧
    ((∃ system : LinearSystem (Interval Double),
        config.system (.interval (context.withMode .single)) = .ok system) →
      ((∃ system : LinearSystem (Interval Double),
        config.system (.interval (context.withMode .dual)) = .ok system) ↔
          ∀ text ∈ config.texts, SpellsInRange text)) := by
  refine ⟨Double.directions_agree_iff text, ?_⟩
  intro single
  simp only [SystemConfig.exists_system_iff, Scalar.interval, mapError_eq_ok_iff] at single ⊢
  obtain ⟨square, accepted⟩ := single
  rw [and_iff_right square]
  exact forall₂_congr fun text given =>
    Interval.exists_read_dual_iff context text (accepted text given)

/-- An equation with a tenth and with the bounds one and two is read in both modes. -/
theorem directions_agree_inRange_equation :
    let config : SystemConfig :=
      ⟨.general, .intervalDouble, none, [["0.1"]], [], [], [], ["[1;2]"]⟩
    let context : Context := ⟨16, 16, .dual⟩
    (∃ system : LinearSystem (Interval Double),
      config.system (.interval (context.withMode .single)) = .ok system) ∧
    ∃ system : LinearSystem (Interval Double),
      config.system (.interval (context.withMode .dual)) = .ok system := by
  intro config context
  have single : ∃ system : LinearSystem (Interval Double),
      config.system (.interval (context.withMode .single)) = .ok system :=
    exists_of_isOk (by decide +kernel)
  have tenth : SpellsInRange "0.1" :=
    ⟨[⟨false, ['0'], ['1'], 0⟩], ⟨_, .single (Literal.read_eq_some_iff.mp (by decide +kernel)),
      .inl rfl⟩, by decide +kernel⟩
  have bounds : SpellsInRange "[1;2]" :=
    ⟨[⟨false, ['1'], [], 0⟩, ⟨false, ['2'], [], 0⟩],
      ⟨['1'] ++ ';' :: ['2'], .pair (.inl rfl) (Literal.read_eq_some_iff.mp (by decide +kernel))
        (Literal.read_eq_some_iff.mp (by decide +kernel)), .inr (by decide +kernel)⟩,
      by decide +kernel⟩
  refine ⟨single, ((directions_agree_inRange "0.1".toList config context).2 single).mpr ?_⟩
  have given : config.texts = ["[1;2]", "0.1"] := rfl
  rw [given]
  exact List.forall_mem_cons.mpr ⟨bounds, List.forall_mem_singleton.mpr tenth⟩

/-- Zero may be written with an exponent that is too large for a word. It is read to nearest, and
the other directions take it for no decimal number. -/
theorem zero_read_to_nearest_only :
    let text := "0e9223372036854775808"
    Binary.readDirected .nearest text.toList = .ok (Binary.zero : Double) ∧
      (Binary.readDirected .down text.toList : Except Fault Double) = .error .notDecimal ∧
      (Binary.readDirected .up text.toList : Except Fault Double) = .error .notDecimal ∧
      ¬((∀ direction, ∃ x : Double, Binary.readDirected direction text.toList = .ok x) ∨
        ∀ direction, ¬∃ x : Double, Binary.readDirected direction text.toList = .ok x) := by
  intro text
  have nearest : Binary.readDirected .nearest text.toList = .ok (Binary.zero : Double) := by
    decide +kernel
  have down : (Binary.readDirected .down text.toList : Except Fault Double) =
      .error .notDecimal := by
    decide +kernel
  have up : (Binary.readDirected .up text.toList : Except Fault Double) = .error .notDecimal := by
    decide +kernel
  refine ⟨nearest, down, up, ?_⟩
  rintro (all | none)
  · obtain ⟨x, accepted⟩ := all .down
    rw [down] at accepted
    cases accepted
  · exact none .nearest ⟨_, nearest⟩

end LinearEnclosure
