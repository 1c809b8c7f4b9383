/-
# Reports of 64-bit numbers that are read back

Seventeen digits are printed of a 64-bit number, and reading them gives the number again; only the
sign of a zero is lost. What is written for the infinities and for what is not a number is
read back as well.

In a report every printed number has blanks on both sides, and no other word is a number, except
the code in the last line. So the numbers among its words are the entries of the factors, of the
intermediate vectors and of the solution in their order, and the text determines all of them.
-/

import LinearEnclosure.Proofs.Binary.Shortest
import LinearEnclosure.Proofs.Binary.Special
import LinearEnclosure.Report

namespace LinearEnclosure

/-! ## A single number -/

namespace Binary

variable {F : Format} {x : Binary F} {places : ℕ}

/-- The number with the plain zero for both zeros. -/
def unsigned (x : Binary F) : Binary F :=
  if x.isZero then Binary.zero else x

theorem compare?_unsigned [NeZero F.infinityRank] (finite : x.isFinite = true) :
    x.unsigned.compare? x = some .eq := by
  obtain ⟨c, units⟩ := isFinite_iff.mp finite
  apply compare?_of_place? _ units
  unfold unsigned
  split
  · next zero =>
    obtain ⟨positive, negative, _, rfl⟩ := exists_of_isZero zero
    cases negative <;> simp [Binary.zero, ofRank, positive, place?]
  · rfl

variable [NeZero F.fractionBits] [NeZero F.infinityRank]

/-- A finite number is read back if sufficiently many digits are printed. -/
theorem read_scientific_of_enough (reach : F.unitBits ≤ F.blocks + F.fractionBits)
    (enough : 2 * F.normalRank < 10 ^ places) (finite : x.isFinite = true) :
    read (x.scientific .nearest places) = .ok x.unsigned := by
  obtain ⟨c, units⟩ := isFinite_iff.mp finite
  have positive : places ≠ 0 := by
    rintro rfl
    have := F.normalRank_pos
    omega
  rw [scientific_eq_decimal units,
    read_of_spells (x.decimal.printed_spells .nearest positive), Decimal.value_printed, unsigned]
  congr 1
  have exact := inUnits_decimal units
  split
  · next zero =>
    rw [(isZero_iff_units units).mp zero, Int.cast_zero, ← F.inUnits_zero,
      F.inUnits_strictMono.injective.eq_iff, ← Decimal.isZero_iff] at exact
    rw [Decimal.printed, if_pos exact, Decimal.isZero_iff_eq.mp exact, Decimal.roundTo_zero]
    rfl
  · next nonzero =>
    have rounds := nearest_literal_roundsTo reach (x.decimal.printed .nearest places)
    rw [← Literal.toRat_value, Decimal.value_printed] at rounds
    have same := place?_of_digits enough units rounds (x.decimal.two_mul_abs_roundTo_sub_le places)
    exact (eq_or_isZero_of_place? same units).resolve_right fun both => nonzero both.2

end Binary

/-- A text without blanks. -/
def Text.IsClear (text : List Char) : Prop :=
  ∀ c ∈ text, isBlank c = false

theorem Text.IsClear.append {front back : List Char} (first : Text.IsClear front)
    (second : Text.IsClear back) : Text.IsClear (front ++ back) :=
  List.forall_mem_append.mpr ⟨first, second⟩

instance (text : List Char) : Decidable (Text.IsClear text) :=
  decidable_of_iff (text.all (!Text.isBlank ·) = true) (by simp [Text.IsClear])

/-- What is printed for a number is a word. -/
theorem Double.scientific_clear (x : Double) :
    x.scientific .nearest 16 ≠ [] ∧ Text.IsClear (x.scientific .nearest 16) := by
  cases x with
  | finite negative rank bound =>
    have finite : (Binary.finite negative rank bound : Double).units? = some _ := rfl
    have spelled := (Binary.finite negative rank bound : Double).decimal.printed_spells .nearest
      (by decide : 16 ≠ 0)
    have written : WritesNumber _ _ := ⟨_, spelled, rfl⟩
    rw [Binary.scientific_eq_decimal finite]
    exact ⟨written.ne_nil, fun c member => (written.isNumberChar c member).not_isBlank⟩
  | infinite negative => cases negative <;> exact ⟨by decide, by decide +kernel⟩
  | nan => exact ⟨by decide, by decide +kernel⟩

/-- Every 64-bit number is read back from what is printed for it, except for the sign of a zero. -/
theorem Scalar.read_render_double (x : Double) :
    Scalar.double.read (Scalar.double.render x) = .ok x.unsigned := by
  have clear := trim_eq_self x.scientific_clear.2
  have back : Binary.read (x.scientific .nearest 16) = .ok x.unsigned := by
    cases x with
    | finite => exact Binary.read_scientific_of_enough (by decide) (by decide) rfl
    | infinite negative => cases negative <;> decide +kernel
    | nan => decide +kernel
  simp only [Scalar.double, Scalar.binary, String.toList_ofList, clear, back]
  rfl

/-! ## The numbers in a text -/

namespace Text

/-- The parts of a text between blanks. -/
def words (text : List Char) : List (List Char) :=
  (text.splitOnP isBlank).filter fun word => !word.isEmpty

theorem words_append_cons (front back : List Char) {c : Char} (blank : isBlank c = true) :
    words (front ++ c :: back) = words front ++ words back := by
  rw [words, List.splitOnP_append_cons _ _ blank, List.filter_append, words, words]

theorem words_of_clear {word : List Char} (nonempty : word ≠ []) (clear : IsClear word) :
    words word = [word] := by
  rw [words, List.splitOnP_eq_singleton clear]
  simpa using nonempty

theorem words_cons_blank {c : Char} (blank : isBlank c = true) (text : List Char) :
    words (c :: text) = words text :=
  words_append_cons [] text blank

theorem words_append_blanks (front : List Char) {blanks : List Char}
    (all : ∀ c ∈ blanks, isBlank c = true) : words (front ++ blanks) = words front := by
  induction blanks generalizing front with
  | nil => rw [List.append_nil]
  | cons c rest ih =>
    obtain ⟨blank, others⟩ := List.forall_mem_cons.mp all
    have none : words rest = [] := ih [] others
    rw [words_append_cons front rest blank, none, List.append_nil]

theorem words_trimEnd (text : List Char) : words (trimEnd text) = words text := by
  have parts := List.takeWhile_append_dropWhile (p := isBlank) (l := text.reverse)
  rw [← List.reverse_inj, List.reverse_append, List.reverse_reverse] at parts
  conv_rhs => rw [← parts]
  refine (words_append_blanks _ fun c member => ?_).symm
  exact List.mem_takeWhile_imp (List.mem_reverse.mp member)

/-- The numbers among the words of a text. -/
def numbers (text : List Char) : List Double :=
  (words text).filterMap fun word => (Scalar.double.read (String.ofList word)).toOption

theorem numbers_append_cons (front back : List Char) {c : Char} (blank : isBlank c = true) :
    numbers (front ++ c :: back) = numbers front ++ numbers back := by
  rw [numbers, words_append_cons front back blank, List.filterMap_append, numbers, numbers]

theorem numbers_blanks_append (blanks : ℕ) (text : List Char) :
    numbers (List.replicate blanks ' ' ++ text) = numbers text := by
  induction blanks with
  | zero => rfl
  | succ blanks ih =>
    rw [List.replicate_succ, List.cons_append, numbers, words_cons_blank (by decide), ← numbers, ih]

theorem numbers_trimEnd (text : List Char) : numbers (trimEnd text) = numbers text := by
  rw [numbers, words_trimEnd, numbers]

theorem numbers_render (x : Double) : numbers (Scalar.double.render x).toList = [x.unsigned] := by
  obtain ⟨nonempty, clear⟩ := x.scientific_clear
  have written : (Scalar.double.render x).toList = x.scientific .nearest 16 :=
    String.toList_ofList
  have back := Scalar.read_render_double x
  rw [← String.ofList_toList (s := Scalar.double.render x), written] at back
  rw [written, numbers, words_of_clear nonempty clear, List.filterMap_cons, back]
  rfl

/-- A bracket stands in no number, and in no word for one. -/
theorem read_ne_ok_of_bracket {word : List Char} {bracket : Char}
    (mark : bracket = '[' ∨ bracket = ')') (member : bracket ∈ word) (value : Double) :
    Binary.read word ≠ .ok value := by
  have notNumeral : ¬IsNumberChar bracket := by rcases mark with rfl | rfl <;> simp [IsNumberChar]
  intro accepted
  rcases Binary.exists_literal_or_mem_of_read accepted with ⟨literal, found⟩ | known
  · exact notNumeral
      (WritesNumber.isNumberChar ⟨_, Literal.read_eq_some_iff.mp found, rfl⟩ _ member)
  · obtain ⟨sign, signed, split⟩ := Literal.exists_sign word
    have behind : bracket ∈ (Literal.takeSign word).2 := by
      rw [split] at member
      exact (List.mem_append.mp member).resolve_left fun before =>
        notNumeral (signed.isNumberChar _ before)
    have lowered : bracket.toLower ∈ (Literal.takeSign word).2.map Char.toLower :=
      List.mem_map_of_mem behind
    rw [← String.toList_ofList (l := (Literal.takeSign word).2.map Char.toLower)] at lowered
    simp only [List.mem_cons, List.not_mem_nil, or_false] at known
    rcases known with same | same | same <;> rw [same] at lowered <;>
      rcases mark with rfl | rfl <;> revert lowered <;> decide

theorem numbers_of_bracket {word : List Char} (clear : IsClear word) {bracket : Char}
    (mark : bracket = '[' ∨ bracket = ')') (member : bracket ∈ word) : numbers word = [] := by
  rw [numbers, words_of_clear (List.ne_nil_of_mem member) clear, List.filterMap_cons]
  have refused := read_ne_ok_of_bracket mark member
  simp only [Scalar.double, Scalar.binary, String.toList_ofList, trim_eq_self clear]
  cases outcome : (Binary.read word : Except _ Double) with
  | error cause => rfl
  | ok value => exact absurd outcome (refused value)

end Text

/-! ## Reports -/

/-- The numbers of a solution in the order in which a report shows them. -/
def Solution.printed {α : Type} (K : Arithmetic α) : Solution α → List α
  | .general solution =>
    solution.factors.lower.toRows.flatten ++ solution.factors.upper.toRows.flatten ++
      solution.y.toList ++ solution.x.toList
  | .symmetric solution =>
    solution.factors.lower.toRows.flatten ++ solution.factors.diagonal.toList ++
      (solution.factors.upper K).toRows.flatten ++ solution.y.toList ++ solution.z.toList ++
      solution.x.toList
  | .tridiagonal solution =>
    solution.factors.multipliers.toList ++ solution.factors.pivots.toList ++
      solution.factors.sup.toList ++ solution.y.toList ++ solution.x.toList

namespace Report

open Text

/-- The numbers in some lines, each of which ends with a line break. -/
theorem numbers_lines (lines : List String) :
    numbers (String.join (lines.map (· ++ "\n"))).toList =
      lines.flatMap fun line => numbers line.toList := by
  have joined : (String.join (lines.map (· ++ "\n"))).toList =
      lines.flatMap fun line => line.toList ++ ['\n'] := by
    simp [String.toList_join, List.flatMap_map]
  rw [joined]
  clear joined
  induction lines with
  | nil => rfl
  | cons line rest ih =>
    rw [List.flatMap_cons, List.flatMap_cons, List.append_assoc, List.singleton_append,
      numbers_append_cons _ _ (by decide), ih]

theorem repr_clear (n : ℕ) : IsClear n.repr.toList := by
  intro c member
  rw [Nat.toList_repr] at member
  exact isBlank_of_isDigit (allDigits_toDigits n c member)

theorem numbers_entryLine {name : String} (clear : IsClear name.toList)
    (index : ℕ) (x : Double) :
    numbers (entryLine name index (Scalar.double.render x)).toList = [x.unsigned] := by
  have marked : numbers (name.toList ++ ['['] ++ index.repr.toList ++ [']']) = [] := by
    apply numbers_of_bracket _ (.inl rfl) (by simp)
    exact ((clear.append (by decide)).append (repr_clear index)).append (by decide)
  have split : (entryLine name index (Scalar.double.render x)).toList =
      (name.toList ++ ['['] ++ index.repr.toList ++ [']']) ++
        ' ' :: (['='] ++ ' ' :: (Scalar.double.render x).toList) := by
    simp [entryLine]
  have sign : numbers ['='] = [] := by decide +kernel
  generalize name.toList ++ ['['] ++ index.repr.toList ++ [']'] = word at *
  rw [split, numbers_append_cons _ _ (by decide), numbers_append_cons _ _ (by decide), marked, sign,
    numbers_render, List.nil_append, List.nil_append]

theorem numbers_row {width : ℕ} {row : List Double}
    (fits : ∀ x ∈ row, (Scalar.double.render x).length < width) :
    numbers ((row.map Scalar.double.render).flatMap (padded width)) =
      row.map Binary.unsigned := by
  induction row with
  | nil => rfl
  | cons x rest ih =>
    obtain ⟨first, others⟩ := List.forall_mem_cons.mp fits
    have blank : width - (Scalar.double.render x).length =
        (width - (Scalar.double.render x).length - 1) + 1 := by omega
    rw [List.map_cons, List.flatMap_cons, padded, blank, List.replicate_succ, List.append_assoc,
      List.cons_append, numbers_append_cons _ _ (by decide), numbers_render, numbers_blanks_append,
      ih others, List.singleton_append, List.map_cons]

/-- Every cell of a matrix is followed by a blank. -/
theorem lt_columnWidth {cells : List String} {cell : String} (member : cell ∈ cells) :
    cell.length < columnWidth cells := by
  have bounds (sizes : List ℕ) (start : ℕ) :
      start ≤ sizes.foldl max start ∧ ∀ size ∈ sizes, size ≤ sizes.foldl max start := by
    induction sizes generalizing start with
    | nil => simp
    | cons size rest ih =>
      obtain ⟨least, all⟩ := ih (max start size)
      rw [List.foldl_cons]
      refine ⟨(le_max_left ..).trans least, List.forall_mem_cons.mpr ⟨?_, all⟩⟩
      exact (le_max_right ..).trans least
  exact (bounds (cells.map fun cell => cell.length + 1) 15).2 _ (List.mem_map_of_mem member)

/-- The numbers among the words of a block. -/
def Shows (block : Block) (values : List Double) : Prop :=
  (block.toLines.flatMap fun line => numbers line.toList) = values.map Binary.unsigned

theorem shows_of_lines {title : String} {lines : List String} {values : List Double}
    (titled : numbers (title ++ ":").toList = [])
    (shown : (lines.flatMap fun line => numbers line.toList) = values.map Binary.unsigned) :
    Shows ⟨title, lines⟩ values := by
  have ended : numbers [] = [] := rfl
  rw [Shows, Block.toLines, List.flatMap_append, List.flatMap_cons, titled, shown]
  simp [ended]

theorem vector_shows {title name : String} (titled : numbers (title ++ ":").toList = [])
    (clear : IsClear name.toList) {n : ℕ} (v : Vector Double n) :
    Shows (vector Scalar.double title name v) v.toList := by
  apply shows_of_lines titled
  have entries (values : List Double) (line : ℕ → String → String)
      (shown : ∀ i x, numbers (line i (Scalar.double.render x)).toList = [x.unsigned]) :
      (((values.map Scalar.double.render).mapIdx line).flatMap fun line => numbers line.toList) =
        values.map Binary.unsigned := by
    induction values generalizing line with
    | nil => rfl
    | cons x rest ih =>
      rw [List.map_cons, List.mapIdx_cons, List.flatMap_cons, shown, ih _ fun i => shown (i + 1)]
      rfl
  exact entries _ _ fun i x => numbers_entryLine clear i x

theorem matrix_shows {title : String} (titled : numbers (title ++ ":").toList = []) {m n : ℕ}
    (A : DenseMatrix Double m n) : Shows (matrix Scalar.double title A) A.toRows.flatten := by
  apply shows_of_lines titled
  rw [List.map_flatten, List.flatMap_map, List.flatMap_map, ← List.flatMap_def]
  apply List.flatMap_congr
  intro row member
  rw [String.toList_ofList, numbers_trimEnd]
  apply numbers_row
  intro x inside
  apply lt_columnWidth
  exact List.mem_flatten.mpr ⟨_, List.mem_map_of_mem member, List.mem_map_of_mem inside⟩

theorem numbers_statusLine (status : Status) :
    numbers (statusLine status).toList = [Binary.ofNat status.code] := by
  cases status with
  | solved => decide +kernel
  | nonFinite index =>
    have marked : numbers (index.repr.toList ++ [')']) = [] :=
      numbers_of_bracket ((repr_clear index).append (by decide)) (.inr rfl) (by simp)
    obtain ⟨front, code, split⟩ : ∃ front, numbers front = [Binary.ofNat 2] ∧
        (statusLine (.nonFinite index)).toList = front ++ ' ' :: (index.repr.toList ++ [')']) := by
      have last : "non-finite value in solution at index ".toList =
          "non-finite value in solution at index".toList ++ [' '] := by decide +kernel
      have close : ")".toList = [')'] := by decide +kernel
      refine ⟨"Status: ".toList ++ ((2 : ℕ).repr.toList ++ (" (".toList ++
        "non-finite value in solution at index".toList)), by decide +kernel, ?_⟩
      unfold statusLine Status.message Status.code
      simp only [String.toList_append, last, close, List.append_assoc, List.cons_append,
        List.nil_append]
    generalize index.repr.toList ++ [')'] = word at marked split
    rw [split, numbers_append_cons _ _ (by decide), code, marked]
    rfl

theorem shows_blocks {blocks : List Block} {values : List (List Double)}
    (shown : List.Forall₂ Shows blocks values) :
    ((blocks.flatMap Block.toLines).flatMap fun line => numbers line.toList) =
      values.flatten.map Binary.unsigned := by
  induction shown with
  | nil => rfl
  | cons first _ ih =>
    rw [List.flatMap_cons, List.flatMap_append, first, ih, List.flatten_cons, List.map_append]

/-- The numbers of a report are those of the solution and the code of its status. -/
theorem numbers_report (solution : Solution Double) :
    numbers (render Scalar.double solution).toList =
      (solution.printed Scalar.double.toArithmetic).map Binary.unsigned ++
        [Binary.ofNat solution.status.code] := by
  have shown : ∃ values, List.Forall₂ Shows (blocks Scalar.double solution) values ∧
      values.flatten = solution.printed Scalar.double.toArithmetic := by
    have lower : numbers ("Matrix L" ++ ":").toList = [] := by decide +kernel
    have y : numbers ("Vector y (from L·y = b)" ++ ":").toList = [] := by decide +kernel
    have x : numbers ("Solution x" ++ ":").toList = [] := by decide +kernel
    cases solution with
    | general solution =>
      have upper : numbers ("Matrix U" ++ ":").toList = [] := by decide +kernel
      refine ⟨_, .cons (matrix_shows lower _) (.cons (matrix_shows upper _)
        (.cons (vector_shows y (by decide) _) (.cons (vector_shows x (by decide) _) .nil))), ?_⟩
      simp [Solution.printed]
    | symmetric solution =>
      have diagonal : numbers ("Diagonal D" ++ ":").toList = [] := by decide +kernel
      have upper : numbers ("Matrix U = D·Lᵀ" ++ ":").toList = [] := by decide +kernel
      have z : numbers ("Vector z (from D·z = y)" ++ ":").toList = [] := by decide +kernel
      refine ⟨_, .cons (matrix_shows lower _) (.cons (vector_shows diagonal (by decide) _)
        (.cons (matrix_shows upper _) (.cons (vector_shows y (by decide) _)
        (.cons (vector_shows z (by decide) _) (.cons (vector_shows x (by decide) _) .nil))))), ?_⟩
      simp [Solution.printed]
    | tridiagonal solution =>
      have multipliers : numbers ("Multipliers L" ++ ":").toList = [] := by decide +kernel
      have pivots : numbers ("Pivots D" ++ ":").toList = [] := by decide +kernel
      have sup : numbers ("Super-diagonal U" ++ ":").toList = [] := by decide +kernel
      refine ⟨_, .cons (vector_shows multipliers (by decide) _)
        (.cons (vector_shows pivots (by decide) _) (.cons (vector_shows sup (by decide) _)
        (.cons (vector_shows y (by decide) _) (.cons (vector_shows x (by decide) _) .nil)))), ?_⟩
      simp [Solution.printed]
  obtain ⟨values, blocks, same⟩ := shown
  rw [render, numbers_lines, lines, List.flatMap_append, shows_blocks blocks, same,
    List.flatMap_singleton, numbers_statusLine]

/-- A finite 64-bit number is read back from what is printed for it, as a number that compares
equal. The numbers in a report are the entries of the factors, of the intermediate vectors and of
the solution, each with the plain zero for both zeros, and the code of its status, so two
solutions with the same report agree in all of them up to the signs of zeros. -/
theorem printed_numbers_read_back :
    (∀ x : Double, x.isFinite = true → ∃ y, Scalar.double.read (Scalar.double.render x) = .ok y ∧
      y.compare? x = some .eq) ∧
    ∀ solution : Solution Double, numbers (render Scalar.double solution).toList =
      (solution.printed Scalar.double.toArithmetic).map Binary.unsigned ++
        [Binary.ofNat solution.status.code] :=
  ⟨fun x finite => ⟨_, Scalar.read_render_double x, Binary.compare?_unsigned finite⟩,
    numbers_report⟩

/-- The largest number is rounded up to seventeen digits, and still comes back. -/
theorem printed_numbers_read_back_largest :
    (Binary.largest false : Double).isFinite = true ∧
      ∃ y, Scalar.double.read "1.7976931348623157E+308" = .ok y ∧
        y.compare? (Binary.largest false) = some .eq := by
  have finite : (Binary.largest false : Double).isFinite = true := by decide +kernel
  have text : Scalar.double.render (Binary.largest false) = "1.7976931348623157E+308" := by
    decide +kernel
  exact ⟨finite, text ▸ printed_numbers_read_back.1 _ finite⟩

end Report

end LinearEnclosure
