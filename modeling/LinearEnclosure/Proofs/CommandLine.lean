/-
# A saved description is the effective one

A call that overrides parts of a description may save what comes out. Naming the saved file
in a second call, with nothing to override, gives the same report, the same complaint and the
same code.

What has to be checked is that every overridden description can be read back. Reading accepts
no digit count that is zero or does not fit into a word, the flags do neither, and the usual
contexts are far from both.
-/

import LinearEnclosure.CommandLine
import LinearEnclosure.Proofs.Config.RoundTrip
import LinearEnclosure.Proofs.Solver.Stages

namespace LinearEnclosure

/-! ## What is overridden can be stored -/

namespace Context

variable {α : Type} {context : Context}

theorem Storable.withMode (storable : context.Storable) (mode : RoundingMode) :
    (context.withMode mode).Storable :=
  storable

theorem Storable.withPrecision {found : Context} {n : ℕ} (storable : context.Storable)
    (small : n < 2 ^ 64) (accepted : context.withPrecision n = .ok found) : found.Storable := by
  unfold Context.withPrecision at accepted
  split_ifs at accepted with zero
  cases accepted
  exact ⟨⟨Nat.one_le_iff_ne_zero.mpr zero, small⟩, storable.2⟩

theorem Storable.withOutDigits {found : Context} {n : ℕ} (storable : context.Storable)
    (small : n < 2 ^ 64) (accepted : context.withOutDigits n = .ok found) : found.Storable := by
  unfold Context.withOutDigits at accepted
  split_ifs at accepted with zero
  cases accepted
  exact ⟨storable.1, Nat.one_le_iff_ne_zero.mpr zero, small⟩

/-- Where a count may replace one of the context, a computation goes on with a storable
context if every such count leaves one. -/
theorem Storable.exists_replaced (storable : context.Storable)
    {replace : Context → ℕ → Except IntervalError Context} {count : Option ℕ}
    (kept : ∀ n ∈ count, ∀ found, replace context n = .ok found → found.Storable)
    {next : Context → Except IntervalError α} {a : α}
    (accepted : (match count with
      | some n => replace context n >>= next
      | none => pure context >>= next) = .ok a) :
    ∃ found : Context, found.Storable ∧ next found = .ok a := by
  cases count with
  | none => exact ⟨context, storable, accepted⟩
  | some n =>
    obtain ⟨found, replaced, accepted⟩ := bind_eq_ok_iff.mp accepted
    exact ⟨found, kept n rfl found replaced, accepted⟩

theorem storable_initial (numbers : NumberKind) : numbers.initial.Storable := by
  cases numbers <;> decide

end Context

namespace CommandLine

theorem size?_lt {value : String} {n : ℕ} (accepted : size? value = some n) : n < 2 ^ 64 := by
  simp only [size?, Option.ite_none_right_eq_some, Bool.and_eq_true, decide_eq_true_eq,
    Option.some.injEq] at accepted
  obtain ⟨⟨-, small⟩, rfl⟩ := accepted
  exact small

theorem exists_of_value? {α : Type} {given : List (Flag × String)} {flag : Flag}
    {read : String → Option α} {a : α} (accepted : value? given flag read = some (some a)) :
    ∃ value, read value = some a := by
  unfold value? at accepted
  split at accepted
  case h_1 => cases accepted
  case h_2 _ _ value _ =>
    obtain ⟨_, found, ⟨⟩⟩ := Option.map_eq_some_iff.mp accepted
    exact ⟨value, found⟩
  case h_3 => cases accepted

namespace Arguments

/-- A call gives no digit count that does not fit into a word. -/
theorem counts_lt_of_parse? {arguments : List String} {call : Arguments}
    (accepted : parse? arguments = some call) :
    (∀ n ∈ call.precision, n < 2 ^ 64) ∧ ∀ n ∈ call.outDigits, n < 2 ^ 64 := by
  simp only [parse?, Option.bind_eq_bind, Option.bind_eq_some_iff, Option.some.injEq] at accepted
  obtain ⟨given, -, _, -, _, -, _, -, _, -, precision, readPrecision, outDigits, readOutDigits,
    _, -, _, -, rfl⟩ := accepted
  constructor
  · rintro n rfl
    obtain ⟨value, size⟩ := exists_of_value? readPrecision
    exact size?_lt size
  · rintro n rfl
    obtain ⟨value, size⟩ := exists_of_value? readOutDigits
    exact size?_lt size

/-- A path to save to is not empty. -/
theorem filled_of_parse? {arguments : List String} {call : Arguments} {path : String}
    (accepted : parse? arguments = some call) (saving : call.save = some path) : path ≠ "" := by
  simp only [parse?, Option.bind_eq_bind, Option.bind_eq_some_iff, Option.some.injEq] at accepted
  obtain ⟨given, -, _, -, _, -, _, -, _, -, _, -, _, -, save, readSave, _, -, rfl⟩ := accepted
  obtain rfl : save = some path := saving
  obtain ⟨value, read⟩ := exists_of_value? readSave
  rw [path?, Option.ite_none_left_eq_some] at read
  obtain ⟨filled, ⟨⟩⟩ := read
  simpa using filled

theorem override_storable {call : Arguments} {described config : SystemConfig}
    (small : (∀ n ∈ call.precision, n < 2 ^ 64) ∧ ∀ n ∈ call.outDigits, n < 2 ^ 64)
    (storable : ∀ context ∈ described.context, context.Storable)
    (accepted : call.override described = .ok config) :
    ∀ context ∈ config.context, context.Storable := by
  unfold override at accepted
  split at accepted
  · cases accepted
    exact storable
  · have start (numbers : NumberKind) : (described.context.getD numbers.initial).Storable := by
      cases given : described.context with
      | none => exact Context.storable_initial numbers
      | some context => exact storable context given
    have started := (start (call.numbers.getD described.numbers)).withMode (call.mode.getD
      (described.context.getD (call.numbers.getD described.numbers).initial).mode)
    obtain ⟨context, precise, accepted⟩ := started.exists_replaced
      (fun n given _ => started.withPrecision (small.1 n given)) accepted
    obtain ⟨context, printed, ⟨⟩⟩ := precise.exists_replaced
      (fun n given _ => precise.withOutDigits (small.2 n given)) accepted
    simpa using printed

/-- The call that names a description and overrides nothing. -/
def plain (path : String) : Arguments :=
  ⟨path, none, none, none, none, none, none⟩

theorem override_plain (path : String) (config : SystemConfig) :
    (plain path).override config = .ok config := rfl

theorem parse?_config {path : String} (filled : path ≠ "") :
    parse? ["--config=" ++ path] = some (plain path) := by
  have chars : ("--config=" ++ path).toList = "--config=".toList ++ path.toList :=
    String.toList_append
  have token : Token.ofArgument ("--config=" ++ path) =
      .flag .config (some (String.ofList path.toList)) := by
    rw [Token.ofArgument, chars]
    rfl
  rw [String.ofList_toList] at token
  have given : flags ["--config=" ++ path] = some [(.config, path)] := by
    rw [flags, token]
    rfl
  have named : path? path = some path := by
    rw [path?, if_neg]
    simpa using filled
  rw [parse?, given]
  have config : value? [(Flag.config, path)] .config path? = some (some path) := by
    simp [value?, named]
  simp only [Option.bind_eq_bind, Option.bind_some, config]
  rfl

end Arguments

/-! ## Two calls -/

theorem prepare_eq_ok {call : Arguments} {source : String} {described config : SystemConfig}
    (accepted : SystemConfig.parse? source = some described)
    (overridden : call.override described = .ok config) :
    prepare call (.ok source) = .ok config := by
  rw [prepare]
  simp only [Except.mapError, ok_bind, accepted, overridden]

/-- A call that is accepted and may write its file saves the overridden description, and then
solves it. -/
theorem execute_save {files : Files} {arguments : List String} {call : Arguments}
    {source path : String} {described config : SystemConfig}
    (called : Arguments.parse? arguments = some call)
    (named : files.read call.config = .ok source)
    (accepted : SystemConfig.parse? source = some described)
    (overridden : call.override described = .ok config)
    (saving : call.save = some path) (writable : files.write path = .ok ()) :
    execute files arguments = ⟨some (path, config.print), solve config⟩ := by
  rw [execute, called]
  simp only [named, prepare_eq_ok accepted overridden, saving, writable]

/-- A call that overrides nothing solves what it reads. -/
theorem execute_plain {files : Files} {arguments : List String} {source path : String}
    {config : SystemConfig} (called : Arguments.parse? arguments = some (.plain path))
    (named : files.read path = .ok source)
    (accepted : SystemConfig.parse? source = some config) :
    execute files arguments = ⟨none, solve config⟩ := by
  have prepared : prepare (.plain path) (files.read path) = .ok config := by
    rw [named]
    exact prepare_eq_ok accepted (Arguments.override_plain path config)
  rw [execute, called]
  have own : (Arguments.plain path).config = path := rfl
  simp only [own, prepared]
  rfl

/-- A call that overrides parts of a description and saves it, and a second call that only
names what was saved, end with the same code after the same output and the same complaint. -/
theorem saved_description_effective {files : Files} {arguments : List String} {call : Arguments}
    {source path : String} {described config : SystemConfig}
    (called : Arguments.parse? arguments = some call)
    (named : files.read call.config = .ok source)
    (accepted : SystemConfig.parse? source = some described)
    (overridden : call.override described = .ok config)
    (saving : call.save = some path) (writable : files.write path = .ok ()) :
    Arguments.parse? ["--config=" ++ path] = some (.plain path) ∧
    ∃ text, (execute files arguments).saved = some (path, text) ∧
      ∀ (later : Files) (again : List String), later.read path = .ok text →
        Arguments.parse? again = some (.plain path) →
          (execute later again).code = (execute files arguments).code ∧
          (execute later again).output = (execute files arguments).output ∧
          (execute later again).complaint? = (execute files arguments).complaint? := by
  have storable := Arguments.override_storable (Arguments.counts_lt_of_parse? called)
    (SystemConfig.storable_of_parse? accepted) overridden
  have first := execute_save called named accepted overridden saving writable
  refine ⟨Arguments.parse?_config (Arguments.filled_of_parse? called saving),
    config.print, by rw [first], fun later again kept plain => ?_⟩
  have second := execute_plain plain kept (SystemConfig.parse?_print storable)
  rw [first, second]
  exact ⟨rfl, rfl, rfl⟩

/-- A description of one equation, without a context. -/
def halfConfig : SystemConfig :=
  ⟨.general, .intervalDecimal, none, [["2"]], [], [], [], ["1"]⟩

/-- Files that all hold the description and can all be written. -/
def halfFiles : Files :=
  ⟨fun _ => .ok halfConfig.print, fun _ => .ok ()⟩

/-- The context that is saved here is the usual one for intervals of decimals, with the
precision that the first call gives. -/
theorem saved_description_effective_half :
    Arguments.parse? ["--config=saved"] = some (.plain "saved") ∧
    ∃ text, (execute halfFiles ["--config=half", "--precision=3", "--save=saved"]).saved =
        some ("saved", text) ∧
      ∀ (later : Files) (again : List String), later.read "saved" = .ok text →
        Arguments.parse? again = some (.plain "saved") →
          (execute later again).code =
            (execute halfFiles ["--config=half", "--precision=3", "--save=saved"]).code ∧
          (execute later again).output =
            (execute halfFiles ["--config=half", "--precision=3", "--save=saved"]).output ∧
          (execute later again).complaint? =
            (execute halfFiles ["--config=half", "--precision=3", "--save=saved"]).complaint? := by
  have called : Arguments.parse? ["--config=half", "--precision=3", "--save=saved"] =
      some ⟨"half", none, none, none, some 3, none, some "saved"⟩ := by decide
  have accepted : SystemConfig.parse? halfConfig.print = some halfConfig :=
    SystemConfig.parse?_print (by simp [halfConfig])
  have overridden :
      Arguments.override ⟨"half", none, none, none, some 3, none, some "saved"⟩ halfConfig =
        .ok { halfConfig with context := some ⟨3, 17, .dual⟩ } := rfl
  exact saved_description_effective called rfl accepted overridden rfl rfl

end CommandLine

end LinearEnclosure
