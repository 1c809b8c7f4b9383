/-
# Descriptions that are saved and read again

Empty lists and an absent context are left out of a file, so a description is written as the
record of those fields that are there, each under a name of its own. Reading looks every name
up and finds the field, or that it was left out. The fields are then read back one by one:
words stand for what they were written for, texts come back as they were, and a field that was
left out stands for the empty list.

Only a context is checked again. One with a digit count of zero is refused as it is read, and
so is a count that does not fit into a word.
-/

import LinearEnclosure.Config.Codec
import LinearEnclosure.Proofs.Json.RoundTrip

namespace LinearEnclosure

namespace Json

/-! ## Records -/

theorem mapM_eq_some {α β : Type} {f : α → Option β} {g : α → β} {items : List α}
    (each : ∀ item ∈ items, f item = some (g item)) : items.mapM f = some (items.map g) := by
  induction items with
  | nil => rfl
  | cons item items ih =>
    rw [List.mapM_cons, each item List.mem_cons_self,
      ih fun other isItem => each other (List.mem_cons_of_mem _ isItem)]
    rfl

/-- The member of a record for one of its fields, if the field is there. -/
def memberOf (field : String × Option Json) : List (String × Json) :=
  field.2.toList.map (field.1, ·)

/-- The record of the fields that are there. -/
def record (fields : List (String × Option Json)) : Json :=
  object ((fields.flatMap memberOf).map (Prod.map some id))

theorem filter_memberOf (field : String × Option Json) (name : String) :
    (memberOf field).filter (·.1 == name) = if field.1 = name then memberOf field else [] := by
  obtain ⟨own, value⟩ := field
  cases value with
  | none => simp [memberOf]
  | some value =>
    by_cases same : own = name
    · simp [memberOf, same]
    · simp [memberOf, same]

/-- A name that no field has is not found. -/
theorem filter_flatMap_memberOf {fields : List (String × Option Json)} {name : String}
    (absent : name ∉ fields.map Prod.fst) :
    (fields.flatMap memberOf).filter (·.1 == name) = [] := by
  rw [List.filter_flatMap, List.flatMap_eq_nil_iff]
  intro field isField
  rw [filter_memberOf, if_neg]
  rintro rfl
  exact absent (List.mem_map_of_mem isField)

/-- A name that only one field has is found there. -/
theorem member?_flatMap {fields : List (String × Option Json)}
    (distinct : (fields.map Prod.fst).Nodup) {field : String × Option Json}
    (given : field ∈ fields) : member? (fields.flatMap memberOf) field.1 = some field.2 := by
  have found : (fields.flatMap memberOf).filter (·.1 == field.1) = memberOf field := by
    induction fields with
    | nil => cases given
    | cons first fields ih =>
      rw [List.map_cons, List.nodup_cons] at distinct
      rw [List.flatMap_cons, List.filter_append, filter_memberOf]
      rcases List.mem_cons.mp given with rfl | later
      · rw [if_pos rfl, filter_flatMap_memberOf distinct.1, List.append_nil]
      · have other : first.1 ≠ field.1 := by
          intro same
          exact distinct.1 (same ▸ List.mem_map_of_mem later)
        rw [if_neg other, ih distinct.2 later, List.nil_append]
  rw [member?, found]
  obtain ⟨name, value⟩ := field
  cases value with
  | none => rfl
  | some value => rfl

/-- Looking the names of a record up gives its fields, if no name is used twice. -/
theorem fields?_record (fields : List (String × Option Json))
    (distinct : (fields.map Prod.fst).Nodup) :
    (record fields).fields? (fields.map Prod.fst) = some (fields.map Prod.snd) := by
  have named : ((fields.flatMap memberOf).map (Prod.map some id)).mapM
      (fun member => member.1.map (·, member.2)) = some (fields.flatMap memberOf) := by
    rw [List.mapM_map]
    exact (mapM_eq_some (g := id) fun _ _ => rfl).trans (by rw [List.map_id])
  have found : (fields.map Prod.fst).mapM (member? (fields.flatMap memberOf)) =
      some (fields.map Prod.snd) := by
    rw [List.mapM_map]
    exact mapM_eq_some fun field isField => member?_flatMap distinct isField
  rw [record, fields?]
  exact (congrArg (Option.bind · _) named).trans found

theorem plain_record {fields : List (String × Option Json)}
    (plain : ∀ field ∈ fields, ∀ value ∈ field.2, Plain value) : Plain (record fields) := by
  refine .object fun member isMember => ?_
  simp only [List.mem_map, List.mem_flatMap, memberOf] at isMember
  obtain ⟨_, ⟨field, isField, value, isValue, rfl⟩, rfl⟩ := isMember
  exact plain field isField value (by simpa using isValue)

/-! ## Fields -/

theorem size?_ofNat_eq_some_iff {n found : ℕ} :
    (ofNat n).size? = some found ↔ found = n ∧ n < 2 ^ 64 := by
  have digits : (Nat.toDigits 10 n).all Char.isDigit = true :=
    List.all_eq_true.mpr (allDigits_toDigits n)
  simp [ofNat, size?, digits, Nat.ofDigitChars_ten_toDigits, and_comm, eq_comm]

theorem size?_lt {value : Json} {n : ℕ} (accepted : value.size? = some n) : n < 2 ^ 64 := by
  cases value with
  | number literal =>
    simp only [size?, Option.ite_none_right_eq_some, Bool.and_eq_true, decide_eq_true_eq,
      Option.some.injEq] at accepted
    obtain ⟨⟨-, small⟩, rfl⟩ := accepted
    exact small
  | _ => cases accepted

theorem orElse_some {α : Type} (absent : α) (read : Json → Option α) (value : Json) :
    orElse absent read (some value) = read value := rfl

end Json

/-! ## Contexts -/

/-- The contexts that are accepted where they are read: their digit counts are positive and fit
into a word. -/
def Context.Storable (context : Context) : Prop :=
  (1 ≤ context.precision ∧ context.precision < 2 ^ 64) ∧
    1 ≤ context.outDigits ∧ context.outDigits < 2 ^ 64

instance (context : Context) : Decidable context.Storable :=
  inferInstanceAs (Decidable ((_ ∧ _) ∧ _ ∧ _))

theorem RoundingMode.ofWord?_word (mode : RoundingMode) : ofWord? mode.word = some mode := by
  cases mode with
  | single => rfl
  | dual => rfl

theorem Structure.ofWord?_word (layout : Structure) : ofWord? layout.word = some layout := by
  cases layout with
  | general => rfl
  | symmetric => rfl
  | tridiagonal => rfl

theorem NumberKind.ofWord?_word (numbers : NumberKind) : ofWord? numbers.word = some numbers := by
  cases numbers with
  | double => rfl
  | decimal => rfl
  | intervalDouble => rfl
  | intervalDecimal => rfl

namespace Context

/-- The fields of a context, all of which are written. -/
def fields (context : Context) : List (String × Option Json) :=
  [("precision", some (.ofNat context.precision)),
    ("out_digits", some (.ofNat context.outDigits)),
    ("mode", some (.text context.mode.word))]

theorem toJson_eq_record (context : Context) : context.toJson = Json.record context.fields := rfl

theorem plain_toJson (context : Context) : context.toJson.Plain := by
  rw [toJson_eq_record]
  apply Json.plain_record
  simp only [fields, List.forall_mem_cons, Option.mem_def, Option.some.injEq, forall_eq']
  exact ⟨.number _, .number _, .text _, List.forall_mem_nil _⟩

theorem toOption_validate_eq_some_iff {context found : Context} :
    context.validate.toOption = some found ↔
      found = context ∧ 1 ≤ context.precision ∧ 1 ≤ context.outDigits := by
  unfold validate
  split_ifs with noPrecision noOutDigits
  · simp [Except.toOption, noPrecision]
  · simp [Except.toOption, noOutDigits]
  · have positive : 1 ≤ context.precision ∧ 1 ≤ context.outDigits := by omega
    simp [Except.toOption, positive, eq_comm]

/-- A context is read back, but only if it is storable. -/
theorem ofJson?_toJson_eq_some_iff {context found : Context} :
    ofJson? context.toJson = some found ↔ found = context ∧ context.Storable := by
  have given : context.toJson.fields? ["precision", "out_digits", "mode"] =
      some (context.fields.map Prod.snd) :=
    Json.fields?_record context.fields (by simp [fields])
  rw [ofJson?, given]
  simp only [fields, List.map_cons, List.map_nil, Option.bind_eq_bind, Option.bind_some,
    Option.bind_eq_some_iff, Json.size?_ofNat_eq_some_iff, Json.orElse_some, Json.word?,
    RoundingMode.ofWord?_word, and_assoc, exists_eq_left, toOption_validate_eq_some_iff]
  unfold Storable
  tauto

theorem storable_of_ofJson? {value : Json} {context : Context}
    (accepted : ofJson? value = some context) : context.Storable := by
  simp only [ofJson?, Option.bind_eq_bind, Option.bind_eq_some_iff] at accepted
  obtain ⟨fields, -, accepted⟩ := accepted
  split at accepted
  case h_1 =>
    simp only [Option.bind_eq_some_iff, toOption_validate_eq_some_iff] at accepted
    obtain ⟨precision, sizePrecision, outDigits, sizeOutDigits, mode, -, rfl, positive⟩ := accepted
    exact ⟨⟨positive.1, Json.size?_lt sizePrecision⟩, positive.2, Json.size?_lt sizeOutDigits⟩
  case h_2 => cases accepted

end Context

/-! ## Descriptions -/

namespace SystemConfig

theorem texts?_textsToJson (texts : List String) : (textsToJson texts).texts? = some texts := by
  have read : (texts.map Json.text).mapM Json.text? = some (texts.map id) := by
    rw [List.mapM_map]
    exact Json.mapM_eq_some fun _ _ => rfl
  rw [List.map_id] at read
  exact read

theorem textRows?_textsToJson (rows : List (List String)) :
    (Json.array (rows.map textsToJson)).textRows? = some rows := by
  have read : (rows.map textsToJson).mapM Json.texts? = some (rows.map id) := by
    rw [List.mapM_map]
    exact Json.mapM_eq_some fun row _ => texts?_textsToJson row
  rw [List.map_id] at read
  exact read

/-- A field for a list, unless the list is empty. -/
def listField {α : Type} (write : List α → Json) : List α → Option Json
  | [] => none
  | items => some (write items)

theorem unlessEmpty_eq {α : Type} (name : String) (write : List α → Json) (items : List α) :
    unlessEmpty name write items =
      (Json.memberOf (name, listField write items)).map (Prod.map some id) := by
  cases items with
  | nil => rfl
  | cons item items => rfl

/-- A list that was left out is read as the empty list, and any other as it was written. -/
theorem orElse_listField {α : Type} {write : List α → Json} {read : Json → Option (List α)}
    (inverse : ∀ items, read (write items) = some items) (items : List α) :
    Json.orElse [] read (listField write items) = some items := by
  cases items with
  | nil => rfl
  | cons item items => exact inverse (item :: items)

/-- The fields of a description. Some are left out. -/
def fields (config : SystemConfig) : List (String × Option Json) :=
  [("structure", some (.text config.layout.word)),
    ("arithmetic", some (.text config.numbers.word)),
    ("context", config.context.map Context.toJson),
    ("matrix", listField (fun rows => .array (rows.map textsToJson)) config.matrix),
    ("sub", listField textsToJson config.sub),
    ("diag", listField textsToJson config.diag),
    ("sup", listField textsToJson config.sup),
    ("rhs", some (textsToJson config.rhs))]

theorem toJson_eq_record (config : SystemConfig) :
    config.toJson = Json.record config.fields := by
  simp only [toJson, unlessEmpty_eq, fields, Json.record, List.flatMap_cons, List.flatMap_nil,
    List.map_append, List.append_assoc]
  cases config.context with
  | none => rfl
  | some context => rfl

/-- The context is read back where it is storable, and so is that there is none. -/
theorem orElse_context_eq_some_iff {context found : Option Context} :
    Json.orElse none ofJson?.readContext (context.map Context.toJson) = some found ↔
      found = context ∧ ∀ given ∈ context, given.Storable := by
  cases context with
  | none => simp [Json.orElse, eq_comm]
  | some context =>
    have read : ofJson?.readContext context.toJson = (Context.ofJson? context.toJson).map some :=
      rfl
    simp only [Option.map_some, Json.orElse_some, read, Option.map_eq_some_iff,
      Context.ofJson?_toJson_eq_some_iff]
    constructor
    · rintro ⟨_, ⟨rfl, storable⟩, rfl⟩
      exact ⟨rfl, by simpa using storable⟩
    · rintro ⟨rfl, storable⟩
      exact ⟨context, ⟨rfl, storable context rfl⟩, rfl⟩

/-- The record of a description is read back, but only if its context is storable. -/
theorem ofJson?_toJson_eq_some_iff {config found : SystemConfig} :
    ofJson? config.toJson = some found ↔
      found = config ∧ ∀ context ∈ config.context, context.Storable := by
  have given : config.toJson.fields?
      ["structure", "arithmetic", "context", "matrix", "sub", "diag", "sup", "rhs"] =
        some (config.fields.map Prod.snd) := by
    rw [toJson_eq_record]
    exact Json.fields?_record config.fields (by simp [fields])
  rw [ofJson?, given]
  simp only [fields, List.map_cons, List.map_nil, Option.bind_eq_bind, Option.bind_some,
    Option.bind_eq_some_iff, Json.orElse_some, Json.word?, Structure.ofWord?_word,
    NumberKind.ofWord?_word, orElse_listField texts?_textsToJson,
    orElse_listField textRows?_textsToJson, texts?_textsToJson, orElse_context_eq_some_iff]
  constructor
  · rintro ⟨_, ⟨rfl, storable⟩, ⟨⟩⟩
    exact ⟨rfl, storable⟩
  · rintro ⟨rfl, storable⟩
    exact ⟨_, ⟨rfl, storable⟩, rfl⟩

theorem plain_textsToJson (texts : List String) : (textsToJson texts).Plain := by
  refine .array fun item isItem => ?_
  obtain ⟨text, -, rfl⟩ := List.mem_map.mp isItem
  exact .text text

theorem plain_listField {α : Type} {write : List α → Json} (plain : ∀ items, (write items).Plain)
    (items : List α) : ∀ value ∈ listField write items, value.Plain := by
  cases items with
  | nil => simp [listField]
  | cons item items => simp [listField, plain]

/-- A description is written as values that can be read back. -/
theorem plain_toJson (config : SystemConfig) : Json.Plain config.toJson := by
  have rows (matrix : List (List String)) : (Json.array (matrix.map textsToJson)).Plain := by
    refine .array fun row isRow => ?_
    obtain ⟨texts, -, rfl⟩ := List.mem_map.mp isRow
    exact plain_textsToJson texts
  have context : ∀ value ∈ config.context.map Context.toJson, value.Plain := by
    intro value isValue
    obtain ⟨context, -, rfl⟩ := Option.map_eq_some_iff.mp isValue
    exact context.plain_toJson
  rw [toJson_eq_record]
  apply Json.plain_record
  simp only [fields, List.forall_mem_cons, Option.mem_def, Option.some.injEq, forall_eq']
  exact ⟨.text _, .text _, context, plain_listField rows _, plain_listField plain_textsToJson _,
    plain_listField plain_textsToJson _, plain_listField plain_textsToJson _,
    plain_textsToJson _, List.forall_mem_nil _⟩

theorem parse?_print_eq_ofJson? (config : SystemConfig) :
    parse? config.print = ofJson? config.toJson := by
  rw [parse?, print, Json.read_indented config.plain_toJson, Option.bind_some]

/-- A description with a storable context is read back from its own text. -/
theorem parse?_print {config : SystemConfig}
    (storable : ∀ context ∈ config.context, context.Storable) :
    parse? config.print = some config := by
  rw [parse?_print_eq_ofJson?, ofJson?_toJson_eq_some_iff]
  exact ⟨rfl, storable⟩

/-- Reading a saved description back gives the description itself, and nothing where its
context has a digit count that is zero or does not fit into a word. -/
theorem parse?_print_eq_some_iff (config found : SystemConfig) :
    parse? config.print = some found ↔
      found = config ∧ ∀ context ∈ config.context, context.Storable := by
  rw [parse?_print_eq_ofJson?, ofJson?_toJson_eq_some_iff]

theorem storable_of_readContext {value : Json} {context : Option Context}
    (accepted : ofJson?.readContext value = some context) : ∀ given ∈ context, given.Storable := by
  unfold ofJson?.readContext at accepted
  split at accepted
  case h_1 =>
    cases accepted
    simp
  case h_2 =>
    obtain ⟨found, read, rfl⟩ := Option.map_eq_some_iff.mp accepted
    simpa using Context.storable_of_ofJson? read

/-- Every context that is read is storable. -/
theorem storable_of_parse? {source : String} {config : SystemConfig}
    (accepted : parse? source = some config) : ∀ context ∈ config.context, context.Storable := by
  simp only [parse?, ofJson?, Option.bind_eq_bind, Option.bind_eq_some_iff] at accepted
  obtain ⟨value, -, fields, -, accepted⟩ := accepted
  split at accepted
  case h_1 _ _ field _ _ _ _ _ =>
    simp only [Option.bind_eq_some_iff, Option.some.injEq] at accepted
    obtain ⟨_, -, _, -, context, read, _, -, _, -, _, -, _, -, _, -, rfl⟩ := accepted
    cases field with
    | none =>
      cases read
      simp
    | some value => exact storable_of_readContext read
  case h_2 => cases accepted

end SystemConfig

end LinearEnclosure
