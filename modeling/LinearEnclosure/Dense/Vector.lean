/-
# Vectors by their first entry

Elimination peels off the first unknown of a system and goes on with the rest, so
vectors are taken apart and put together at their first entry.
-/

namespace LinearEnclosure

variable {α : Type} {n : Nat}

-- The position 0 is found by this instance alone, so that it is the same term everywhere.
attribute [instance (high)] Nat.instNeZeroSucc

/-- Vectors with equal entries are equal. -/
theorem ext_get {xs ys : Vector α n} (same : ∀ i, xs.get i = ys.get i) : xs = ys :=
  Vector.ext fun i bound => same ⟨i, bound⟩

/-- A position with another one right behind it is not the last. -/
theorem lt_of_val_eq_succ {i j : Fin (n + 1)} (next : i.val = j.val + 1) : j.val < n := by
  omega

/-- No entries. -/
def noEntries : Vector α 0 := #v[]

/-- The entries behind the first one. -/
def dropFirst (xs : Vector α (n + 1)) : Vector α n :=
  Vector.ofFn fun i => xs.get i.succ

/-- The vector that starts with `x` and goes on with `xs`. -/
def addFirst (x : α) (xs : Vector α n) : Vector α (n + 1) :=
  Vector.ofFn (Fin.cases x fun i => xs.get i)

@[simp] theorem get_dropFirst (xs : Vector α (n + 1)) (i : Fin n) :
    (dropFirst xs).get i = xs.get i.succ :=
  Vector.getElem_ofFn i.isLt

@[simp] theorem get_addFirst_zero (x : α) (xs : Vector α n) : (addFirst x xs).get 0 = x :=
  Vector.getElem_ofFn n.succ_pos

@[simp] theorem get_addFirst_succ (x : α) (xs : Vector α n) (i : Fin n) :
    (addFirst x xs).get i.succ = xs.get i :=
  Vector.getElem_ofFn i.succ.isLt

@[simp] theorem dropFirst_addFirst (x : α) (xs : Vector α n) : dropFirst (addFirst x xs) = xs :=
  ext_get fun i => (get_dropFirst _ i).trans (get_addFirst_succ x xs i)

end LinearEnclosure
