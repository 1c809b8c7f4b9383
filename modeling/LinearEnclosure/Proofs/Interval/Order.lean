/-
# Intervals in order

An interval is in order if its lower end is not above its upper one. Only the reader and
`make?` look at the order of the ends; all other operations round the two ends apart, and
rely on the roundings not crossing.

What this takes of the endpoints is stated here for any kind of them. Endpoints are ordered
by their levels, and one that is not a number has none, so it is above nothing and below
nothing. Products and quotients stay in order through any one of their four corners. A sum
has no corner in common at its ends: it stays in order in a context whose two directions
keep the order of sums.
-/

import LinearEnclosure.Proofs.Interval.Reading

namespace LinearEnclosure

/-- Endpoints that are ordered by levels. One without a level has no place in the order. -/
class Leveled (β : Type) [Endpoint β] where
  level : β → Option ℚ
  compare?_eq (x y : β) :
    Endpoint.compare? x y = (level x).bind fun a => (level y).map fun b => compare a b

namespace Endpoint

open Leveled

variable {β : Type} [Endpoint β]

/-- `x` is not above `y`; so it is as well where one of them has no place in the order. -/
def NotAbove (x y : β) : Prop :=
  Endpoint.lt y x = false

variable [Leveled β] {x y z : β}

theorem isUnordered_iff_level : isUnordered x = true ↔ level x = none := by
  cases here : level x <;> simp [isUnordered, compare?_eq, here]

theorem lt_iff_level : Endpoint.lt x y = true ↔ ∃ a ∈ level x, ∃ b ∈ level y, a < b := by
  cases left : level x <;> cases right : level y <;>
    simp [Endpoint.lt, compare?_eq, left, right, compare_lt_iff_lt]

theorem le_iff_level : Endpoint.le x y = true ↔ ∃ a ∈ level x, ∃ b ∈ level y, a ≤ b := by
  cases left : level x <;> cases right : level y <;>
    simp [Endpoint.le, compare?_eq, left, right, compare_lt_iff_lt, le_iff_lt_or_eq]

theorem notAbove_iff : NotAbove x y ↔ ∀ a ∈ level x, ∀ b ∈ level y, a ≤ b := by
  rw [NotAbove, Bool.eq_false_iff, Ne, lt_iff_level]
  grind

variable (x) in
theorem NotAbove.refl : NotAbove x x := by
  rw [notAbove_iff]
  rintro a left b right
  exact (Option.some.inj (left.symm.trans right)).le

theorem NotAbove.trans_le (first : NotAbove x y) (second : Endpoint.le y z = true) :
    NotAbove x z := by
  rw [notAbove_iff] at *
  obtain ⟨b, middle, c, right, le⟩ := le_iff_level.mp second
  intro a left c' right'
  obtain rfl := Option.some.inj (right.symm.trans right')
  exact (first a left b middle).trans le

theorem NotAbove.of_le (first : Endpoint.le x y = true) (second : NotAbove y z) :
    NotAbove x z := by
  rw [notAbove_iff] at *
  obtain ⟨a, left, b, middle, le⟩ := le_iff_level.mp first
  intro a' left' c right
  obtain rfl := Option.some.inj (left.symm.trans left')
  exact le.trans (second b middle c right)

end Endpoint

namespace Interval

open Endpoint Leveled

variable {β : Type} [Endpoint β]

/-- The lower end is not above the upper one. -/
def Ordered (x : Interval β) : Prop :=
  NotAbove x.lo x.hi

theorem make?_eq_ok_iff {lo hi : β} {x : Interval β} :
    make? lo hi = .ok x ↔ NotAbove lo hi ∧ x = ⟨lo, hi⟩ := by
  unfold make? NotAbove
  cases Endpoint.lt hi lo <;> simp [eq_comm]

/-- What is read has passed the test of its bounds. -/
theorem exists_make?_of_read {context : Context} {text : String} {x : Interval β}
    (accepted : read context text = .ok x) : ∃ lo hi, make? lo hi = .ok x := by
  obtain ⟨_, -, -, came⟩ := exists_readFrom accepted
  cases came with
  | single _ _ made => exact ⟨_, _, made⟩
  | pair _ _ _ made => exact ⟨_, _, made⟩

/-- The end of an interval, lower or upper. -/
def IsEnd (x : Interval β) (u : β) : Prop :=
  u = x.lo ∨ u = x.hi

/-! ## The least and the greatest of several endpoints -/

theorem extreme_mem (better : β → β → Bool) (best : β) (values : List β) :
    extreme better best values ∈ best :: values := by
  induction values generalizing best with
  | nil => exact List.mem_cons_self
  | cons value rest ih =>
    rw [extreme]
    split
    · exact List.mem_cons_self
    split
    · exact List.mem_cons_of_mem _ List.mem_cons_self
    · have member := ih (if better value best then value else best)
      grind

section Corners

variable (context : Context) (operation : Direction → ℕ → β → β → β) (x y : Interval β)

/-- The lower end of a hull of corners is the result at one of them. -/
theorem exists_corners_lo : ∃ u v, x.IsEnd u ∧ y.IsEnd v ∧
    (corners context operation x y).lo = operation context.lower context.precision u v := by
  have member := extreme_mem Endpoint.lt (operation context.lower context.precision x.lo y.lo)
    [operation context.lower context.precision x.lo y.hi,
      operation context.lower context.precision x.hi y.lo,
      operation context.lower context.precision x.hi y.hi]
  simp only [List.mem_cons, List.not_mem_nil, or_false] at member
  rcases member with same | same | same | same
  · exact ⟨_, _, .inl rfl, .inl rfl, same⟩
  · exact ⟨_, _, .inl rfl, .inr rfl, same⟩
  · exact ⟨_, _, .inr rfl, .inl rfl, same⟩
  · exact ⟨_, _, .inr rfl, .inr rfl, same⟩

theorem exists_corners_hi : ∃ u v, x.IsEnd u ∧ y.IsEnd v ∧
    (corners context operation x y).hi = operation context.upper context.precision u v := by
  have member := extreme_mem (fun a b => Endpoint.lt b a)
    (operation context.upper context.precision x.lo y.lo)
    [operation context.upper context.precision x.lo y.hi,
      operation context.upper context.precision x.hi y.lo,
      operation context.upper context.precision x.hi y.hi]
  simp only [List.mem_cons, List.not_mem_nil, or_false] at member
  rcases member with same | same | same | same
  · exact ⟨_, _, .inl rfl, .inl rfl, same⟩
  · exact ⟨_, _, .inl rfl, .inr rfl, same⟩
  · exact ⟨_, _, .inr rfl, .inl rfl, same⟩
  · exact ⟨_, _, .inr rfl, .inr rfl, same⟩

end Corners

variable [Leveled β]

omit [Leveled β] in
/-- An extreme value that has a level is extreme among values that all have one. -/
theorem exists_level_extreme (better : β → β → Bool) (key : β → Option ℚ)
    (unordered : ∀ x, isUnordered x = true ↔ key x = none)
    (decides : ∀ x y, better x y = true ↔ ∃ a ∈ key x, ∃ b ∈ key y, a < b) (best : β)
    (values : List β) :
    ∀ a ∈ key (extreme better best values), ∀ z ∈ best :: values, ∃ b ∈ key z, a ≤ b := by
  induction values generalizing best with
  | nil =>
    intro a least z member
    obtain rfl := List.mem_singleton.mp member
    exact ⟨a, least, le_rfl⟩
  | cons value rest ih =>
    intro a least
    rw [extreme] at least
    split at least
    · next missing => rw [(unordered best).mp missing] at least; cases least
    next present =>
    split at least
    · next missing => rw [(unordered value).mp missing] at least; cases least
    next alsoPresent =>
    obtain ⟨b, atBest⟩ := Option.ne_none_iff_exists'.mp (mt (unordered best).mpr present)
    obtain ⟨c, atValue⟩ := Option.ne_none_iff_exists'.mp (mt (unordered value).mpr alsoPresent)
    have lower := ih _ a least
    obtain ⟨d, chosen, below⟩ := lower _ List.mem_cons_self
    have smaller : d ≤ b ∧ d ≤ c := by
      split at chosen
      · next wins =>
        obtain ⟨c', value', b', best', less⟩ := (decides _ _).mp wins
        grind
      · next loses =>
        have least : ¬c < b := fun less => loses ((decides _ _).mpr ⟨c, atValue, b, atBest, less⟩)
        grind
    intro z member
    rcases List.mem_cons.mp member with rfl | member
    · exact ⟨b, atBest, below.trans smaller.1⟩
    rcases List.mem_cons.mp member with rfl | member
    · exact ⟨c, atValue, below.trans smaller.2⟩
    · exact lower z (List.mem_cons_of_mem _ member)

theorem exists_level_least (best : β) (values : List β) :
    ∀ a ∈ level (least best values), ∀ z ∈ best :: values, ∃ b ∈ level z, a ≤ b :=
  exists_level_extreme Endpoint.lt level (fun _ => isUnordered_iff_level)
    (fun _ _ => lt_iff_level) best values

theorem exists_level_greatest (best : β) (values : List β) :
    ∀ a ∈ level (greatest best values), ∀ z ∈ best :: values, ∃ b ∈ level z, b ≤ a := by
  intro a most z member
  have mirrored := exists_level_extreme (fun x y => Endpoint.lt y x)
    (fun x : β => (level x).map (-·)) (by simp [isUnordered_iff_level])
    (by intro x y; rw [lt_iff_level]; simp; grind) best values (-a)
    (by rw [← greatest, most]; rfl) z member
  simpa using mirrored

/-- A hull of corners is in order as soon as the first of them is rounded in order. -/
theorem corners_ordered {context : Context} {operation : Direction → ℕ → β → β → β}
    {x y : Interval β}
    (apart : NotAbove (operation context.lower context.precision x.lo y.lo)
      (operation context.upper context.precision x.lo y.lo)) :
    (corners context operation x y).Ordered := by
  rw [Ordered, notAbove_iff]
  intro a low b high
  obtain ⟨c, lower, below⟩ := exists_level_least _ _ a low _ List.mem_cons_self
  obtain ⟨d, upper, above⟩ := exists_level_greatest _ _ b high _ List.mem_cons_self
  exact below.trans ((notAbove_iff.mp apart c lower d upper).trans above)

theorem hull_ordered {x y : Interval β} (left : x.Ordered) (right : y.Ordered) :
    (x.hull y).Ordered := by
  rw [Ordered, hull]
  split
  · next below =>
    split
    · exact left
    · exact right.of_le below
  · split
    · next above => exact right.trans_le above
    · exact right

/-- A divisor in order that excludes zero does not end in zero. -/
theorem level_ne_of_excluded {x : Interval β} (order : x.Ordered)
    (excluded : x.containsZero = false) :
    level x.lo ≠ level (Endpoint.zero : β) ∧ level x.hi ≠ level (Endpoint.zero : β) := by
  have outside := Bool.eq_false_iff.mp excluded
  simp only [containsZero, Bool.or_eq_true, Bool.and_eq_true, isUnordered_iff_level,
    le_iff_level, Ne, not_or] at outside
  obtain ⟨⟨lowPlaced, highPlaced⟩, outside⟩ := outside
  obtain ⟨a, low⟩ := Option.ne_none_iff_exists'.mp lowPlaced
  obtain ⟨b, high⟩ := Option.ne_none_iff_exists'.mp highPlaced
  have le : a ≤ b := notAbove_iff.mp order a low b high
  constructor
  · intro zero
    have atZero := zero.symm.trans low
    exact outside ⟨⟨a, low, a, atZero, le_rfl⟩, a, atZero, b, high, le⟩
  · intro zero
    have atZero := zero.symm.trans high
    exact outside ⟨⟨a, low, b, atZero, le⟩, b, atZero, b, high, le_rfl⟩

end Interval

/-! ## Intervals that are built up -/

/-- Endpoints whose operations keep ends in order: negation exchanges them, a difference is a
sum, and a single product or quotient is not above itself when it is rounded in the other
direction of a context. -/
class OrderedRounding (β : Type) [Endpoint β] extends Leveled β where
  neg {x y : β} : Endpoint.NotAbove x y → Endpoint.NotAbove (Endpoint.neg y) (Endpoint.neg x)
  sub_eq_add_neg (direction : Direction) (precision : ℕ) (x y : β) :
    Endpoint.sub direction precision x y = Endpoint.add direction precision x (Endpoint.neg y)
  neg_epsilon (precision : ℕ) :
    Endpoint.NotAbove (Endpoint.neg (Endpoint.epsilon precision)) (Endpoint.epsilon precision : β)
  mul (context : Context) (x y : β) :
    Endpoint.NotAbove (Endpoint.mul context.lower context.precision x y)
      (Endpoint.mul context.upper context.precision x y)
  div (context : Context) (x : β) {y : β} : level y ≠ level (Endpoint.zero : β) →
    Endpoint.NotAbove (Endpoint.div context.lower context.precision x y)
      (Endpoint.div context.upper context.precision x y)

namespace Context

variable (context : Context)

theorem lower_ne_up : context.lower ≠ .up := by
  rw [lower]
  cases context.mode <;> decide

theorem upper_ne_down : context.upper ≠ .down := by
  rw [upper]
  cases context.mode <;> decide

variable {context} (dual : context.mode = .dual)
include dual

theorem lower_eq_down : context.lower = .down := by
  simp [lower, dual, RoundingMode.lower]

theorem upper_eq_up : context.upper = .up := by
  simp [upper, dual, RoundingMode.upper]

end Context

variable {β : Type} [Endpoint β]

variable (β) in
/-- In this context sums of lower ends are not above sums of upper ends. -/
def KeepsSums (context : Context) : Prop :=
  ∀ {a b c d : β}, Endpoint.NotAbove a b → Endpoint.NotAbove c d →
    Endpoint.NotAbove (Endpoint.add context.lower context.precision a c)
      (Endpoint.add context.upper context.precision b d)

namespace Interval

/-- The intervals that are built from some endpoints by operations in any contexts, one after
another. The contexts in which something is added or subtracted are named. -/
inductive Built (ends : Set β) (sums : Set Context) : Interval β → Prop
  | make {lo hi : β} {x : Interval β} : lo ∈ ends → hi ∈ ends → make? lo hi = .ok x →
      Built ends sums x
  | point {x : β} : x ∈ ends → Built ends sums (point x)
  | widened {context : Context} {x : β} : context ∈ sums → x ∈ ends →
      Built ends sums (widened context x)
  | read {context : Context} {text : String} {x : Interval β} : read context text = .ok x →
      Built ends sums x
  | add {context : Context} {x y : Interval β} : context ∈ sums → Built ends sums x →
      Built ends sums y → Built ends sums (x.add context y)
  | sub {context : Context} {x y : Interval β} : context ∈ sums → Built ends sums x →
      Built ends sums y → Built ends sums (x.sub context y)
  | neg {x : Interval β} : Built ends sums x → Built ends sums x.neg
  | mul {context : Context} {x y : Interval β} : Built ends sums x → Built ends sums y →
      Built ends sums (x.mul context y)
  | div {context : Context} {x y z : Interval β} : Built ends sums x → Built ends sums y →
      x.div? context y = .ok z → Built ends sums z
  | scale {context : Context} {x : Interval β} {factor : β} : Built ends sums x →
      factor ∈ ends → Built ends sums (x.scale context factor)
  | hull {x y : Interval β} : Built ends sums x → Built ends sums y → Built ends sums (x.hull y)

theorem div?_eq_ok_iff {context : Context} {x y z : Interval β} :
    x.div? context y = .ok z ↔ y.containsZero = false ∧ z = x.quotient context y := by
  unfold div?
  cases y.containsZero <;> simp [eq_comm]

variable [OrderedRounding β] {context : Context} {x y z : Interval β}

theorem sub_ordered (kept : KeepsSums β context) (left : x.Ordered) (right : y.Ordered) :
    (x.sub context y).Ordered := by
  rw [Ordered, Interval.sub, OrderedRounding.sub_eq_add_neg, OrderedRounding.sub_eq_add_neg]
  exact kept left (OrderedRounding.neg right)

theorem widened_ordered (kept : KeepsSums β context) (x : β) : (widened context x).Ordered := by
  rw [Ordered, widened, OrderedRounding.sub_eq_add_neg]
  exact kept (.refl x) (OrderedRounding.neg_epsilon context.precision)

theorem mul_ordered (context : Context) (x y : Interval β) : (x.mul context y).Ordered :=
  corners_ordered (OrderedRounding.mul context x.lo y.lo)

theorem quotient_ordered (context : Context) (x : Interval β) (order : y.Ordered)
    (excluded : y.containsZero = false) : (x.quotient context y).Ordered :=
  corners_ordered (OrderedRounding.div context x.lo (level_ne_of_excluded order excluded).1)

/-- Every operation keeps intervals in order, and so does every sequence of them. -/
theorem Built.ordered {ends : Set β} {sums : Set Context}
    (kept : ∀ context ∈ sums, KeepsSums β context) (built : Built ends sums x) : x.Ordered := by
  induction built with
  | make _ _ made =>
    obtain ⟨order, rfl⟩ := make?_eq_ok_iff.mp made
    exact order
  | point _ => exact .refl _
  | widened known _ => exact widened_ordered (kept _ known) _
  | read accepted =>
    obtain ⟨lo, hi, made⟩ := exists_make?_of_read accepted
    obtain ⟨order, rfl⟩ := make?_eq_ok_iff.mp made
    exact order
  | add known _ _ left right => exact kept _ known left right
  | sub known _ _ left right => exact sub_ordered (kept _ known) left right
  | neg _ order => exact OrderedRounding.neg order
  | mul _ _ _ _ => exact mul_ordered _ _ _
  | div _ _ divided _ order =>
    obtain ⟨excluded, rfl⟩ := div?_eq_ok_iff.mp divided
    exact quotient_ordered _ _ order excluded
  | scale _ _ _ => exact mul_ordered _ _ _
  | hull _ _ left right => exact hull_ordered left right

end Interval

end LinearEnclosure
