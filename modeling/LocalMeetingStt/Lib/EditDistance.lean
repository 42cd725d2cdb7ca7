import Mathlib.Data.List.Basic
import Mathlib.Order.Bounds.Basic

/-!
# The least number of edits between two lists

An edit puts in, takes out or replaces one element, anywhere. The fewest edits that lead
from one list to another are what the recurrence on the first elements computes
(`isLeast_distance`): following it costs that many, and no single edit brings a list nearer
to another by more than one (`distance_le_of_edit`).

Edits can be undone, put one behind the other, and read from the back. So the least number
is symmetric, satisfies the triangle inequality, and is the same for the reversed lists;
programs that fill a table row by row work on the reversed prefixes.
-/

namespace EditDistance

variable {α : Type*}

/-! ## Edits -/

/-- One edit. Replacing an element by itself is allowed: it is never part of a least run. -/
inductive Edit : List α → List α → Prop
  | insert (before after : List α) (c : α) : Edit (before ++ after) (before ++ c :: after)
  | delete (before after : List α) (c : α) : Edit (before ++ c :: after) (before ++ after)
  | substitute (before after : List α) (c d : α) :
      Edit (before ++ c :: after) (before ++ d :: after)

/-- So many edits, one after another. -/
inductive Edits : Nat → List α → List α → Prop
  | done (xs : List α) : Edits 0 xs xs
  | edit {n : Nat} {xs ys zs : List α} : Edit xs ys → Edits n ys zs → Edits (n + 1) xs zs

theorem Edit.symm {xs ys : List α} (h : Edit xs ys) : Edit ys xs := by
  cases h with
  | insert before after c => exact .delete before after c
  | delete before after c => exact .insert before after c
  | substitute before after c d => exact .substitute before after d c

theorem Edit.cons (a : α) {xs ys : List α} (h : Edit xs ys) : Edit (a :: xs) (a :: ys) := by
  cases h with
  | insert before after c => exact .insert (a :: before) after c
  | delete before after c => exact .delete (a :: before) after c
  | substitute before after c d => exact .substitute (a :: before) after c d

theorem Edit.reverse {xs ys : List α} (h : Edit xs ys) : Edit xs.reverse ys.reverse := by
  cases h with
  | insert before after c => simpa using Edit.insert after.reverse before.reverse c
  | delete before after c => simpa using Edit.delete after.reverse before.reverse c
  | substitute before after c d =>
    simpa using Edit.substitute after.reverse before.reverse c d

theorem Edits.single {xs ys : List α} (h : Edit xs ys) : Edits 1 xs ys := .edit h (.done ys)

theorem Edits.trans {m n : Nat} {xs ys zs : List α} (h : Edits m xs ys) (h' : Edits n ys zs) :
    Edits (m + n) xs zs := by
  induction h with
  | done xs =>
    rw [Nat.zero_add]
    exact h'
  | edit first _ ih =>
    rw [Nat.add_right_comm]
    exact .edit first (ih h')

theorem Edits.symm {n : Nat} {xs ys : List α} (h : Edits n xs ys) : Edits n ys xs := by
  induction h with
  | done xs => exact .done xs
  | edit first _ ih => exact ih.trans (.single first.symm)

theorem Edits.cons (a : α) {n : Nat} {xs ys : List α} (h : Edits n xs ys) :
    Edits n (a :: xs) (a :: ys) := by
  induction h with
  | done xs => exact .done (a :: xs)
  | edit first _ ih => exact .edit (first.cons a) ih

theorem Edits.reverse {n : Nat} {xs ys : List α} (h : Edits n xs ys) :
    Edits n xs.reverse ys.reverse := by
  induction h with
  | done xs => exact .done xs.reverse
  | edit first _ ih => exact .edit first.reverse ih

/-- The cheaper of two ways. -/
theorem Edits.cheaper {m n : Nat} {xs ys : List α} (hm : Edits m xs ys) (hn : Edits n xs ys) :
    Edits (min m n) xs ys := by
  cases Nat.le_total m n with
  | inl h =>
    rw [show min m n = m from Nat.min_eq_left h]
    exact hm
  | inr h =>
    rw [show min m n = n from Nat.min_eq_right h]
    exact hn

theorem edits_zero_iff {xs ys : List α} : Edits 0 xs ys ↔ xs = ys := by
  constructor
  · intro h
    cases h
    rfl
  · intro h
    subst h
    exact .done xs

theorem edits_reverse_iff {n : Nat} {xs ys : List α} :
    Edits n xs.reverse ys.reverse ↔ Edits n xs ys := by
  constructor
  · intro h
    simpa using h.reverse
  · exact Edits.reverse

/-! ## The least number of them -/

/-- `n` is the least number of edits from `xs` to `ys`. -/
def Least (xs ys : List α) (n : Nat) : Prop := IsLeast {n | Edits n xs ys} n

theorem Least.unique {xs ys : List α} {m n : Nat} (hm : Least xs ys m) (hn : Least xs ys n) :
    m = n :=
  IsLeast.unique hm hn

theorem Least.symm {xs ys : List α} {n : Nat} (h : Least xs ys n) : Least ys xs n := by
  refine ⟨h.1.symm, ?_⟩
  intro m hm
  exact h.2 (Edits.symm hm)

theorem Least.zero_iff {xs ys : List α} {n : Nat} (h : Least xs ys n) : n = 0 ↔ xs = ys := by
  rw [← edits_zero_iff]
  constructor
  · intro hn
    exact hn ▸ h.1
  · intro hedits
    exact Nat.le_zero.mp (h.2 hedits)

theorem Least.triangle {xs ys zs : List α} {m n k : Nat} (hm : Least xs ys m)
    (hn : Least ys zs n) (hk : Least xs zs k) : k ≤ m + n :=
  hk.2 (Edits.trans hm.1 hn.1)

theorem least_reverse_iff {xs ys : List α} {n : Nat} :
    Least xs.reverse ys.reverse n ↔ Least xs ys n := by
  unfold Least
  simp only [edits_reverse_iff]

/-! ## The recurrence -/

variable [DecidableEq α]

/-- The least of three: the last edit puts in the first of `ys`, takes out the first of
    `xs`, or replaces one by the other. -/
def distance : List α → List α → Nat
  | [], ys => ys.length
  | x :: xs, [] => (x :: xs).length
  | x :: xs, y :: ys =>
    min (min (distance (x :: xs) ys + 1) (distance xs (y :: ys) + 1))
      (distance xs ys + if x = y then 0 else 1)
termination_by xs ys => xs.length + ys.length

@[simp] theorem distance_nil_left (ys : List α) : distance [] ys = ys.length := by
  simp [distance]

@[simp] theorem distance_nil_right (xs : List α) : distance xs [] = xs.length := by
  cases xs <;> simp [distance]

theorem distance_cons_cons (x y : α) (xs ys : List α) :
    distance (x :: xs) (y :: ys) =
      min (min (distance (x :: xs) ys + 1) (distance xs (y :: ys) + 1))
        (distance xs ys + if x = y then 0 else 1) := by
  rw [distance]

@[simp] theorem distance_self (xs : List α) : distance xs xs = 0 := by
  induction xs with
  | nil => simp
  | cons x xs ih => simp [distance_cons_cons, ih]

/-! ### Each choice can be followed -/

theorem edits_distance (xs ys : List α) : Edits (distance xs ys) xs ys := by
  induction xs, ys using distance.induct with
  | case1 ys =>
    simp only [distance_nil_left]
    induction ys with
    | nil => exact .done []
    | cons y ys ih => exact ih.trans (.single (.insert [] ys y))
  | case2 x xs =>
    simp only [distance_nil_right]
    induction x :: xs with
    | nil => exact .done []
    | cons x xs ih => exact .edit (.delete [] xs x) ih
  | case3 x xs y ys insert delete replace =>
    have hinsert : Edits (distance (x :: xs) ys + 1) (x :: xs) (y :: ys) :=
      insert.trans (.single (.insert [] ys y))
    have hdelete : Edits (distance xs (y :: ys) + 1) (x :: xs) (y :: ys) :=
      .edit (.delete [] xs x) delete
    have hreplace : Edits (distance xs ys + if x = y then 0 else 1) (x :: xs) (y :: ys) := by
      split
      next heq =>
        subst heq
        exact replace.cons x
      next => exact (replace.cons x).trans (.single (.substitute [] ys x y))
    rw [distance_cons_cons]
    exact (hinsert.cheaper hdelete).cheaper hreplace

/-! ### No edit is worth more than one -/

theorem distance_cons_le (x : α) (xs zs : List α) :
    distance (x :: xs) zs ≤ distance xs zs + 1 := by
  cases zs with
  | nil => simp
  | cons z zs =>
    rw [distance_cons_cons]
    omega

theorem distance_cons_right_le (z : α) (xs zs : List α) :
    distance xs (z :: zs) ≤ distance xs zs + 1 := by
  cases xs with
  | nil => simp
  | cons x xs =>
    rw [distance_cons_cons]
    omega

theorem distance_le_cons (x : α) (xs zs : List α) :
    distance xs zs ≤ distance (x :: xs) zs + 1 := by
  induction zs with
  | nil => simp; omega
  | cons z zs ih =>
    have hright := distance_cons_right_le z xs zs
    rw [distance_cons_cons]
    omega

theorem distance_substitute_le (x y : α) (xs zs : List α) :
    distance (x :: xs) zs ≤ distance (y :: xs) zs + 1 := by
  induction zs with
  | nil => simp
  | cons z zs ih =>
    rw [distance_cons_cons, distance_cons_cons y]
    have hx : (if x = z then 0 else 1) ≤ 1 := by split <;> omega
    omega

/-- What holds of two lists against every third holds behind one more element. -/
theorem distance_cons_le_cons (a : α) {xs ys : List α} {k : Nat}
    (h : ∀ zs, distance xs zs ≤ distance ys zs + k) (zs : List α) :
    distance (a :: xs) zs ≤ distance (a :: ys) zs + k := by
  induction zs with
  | nil =>
    have hnil := h []
    simp only [distance_nil_right, List.length_cons] at hnil ⊢
    omega
  | cons z zs ih =>
    have hdelete := h (z :: zs)
    have hreplace := h zs
    rw [distance_cons_cons, distance_cons_cons a]
    omega

theorem distance_append_le (before : List α) {xs ys : List α} {k : Nat}
    (h : ∀ zs, distance xs zs ≤ distance ys zs + k) (zs : List α) :
    distance (before ++ xs) zs ≤ distance (before ++ ys) zs + k := by
  induction before generalizing zs with
  | nil => exact h zs
  | cons a before ih => exact distance_cons_le_cons a ih zs

/-- **One edit brings a list nearer to another by at most one.** -/
theorem distance_le_of_edit {xs ys : List α} (h : Edit xs ys) (zs : List α) :
    distance xs zs ≤ distance ys zs + 1 := by
  cases h with
  | insert before after c => exact distance_append_le before (distance_le_cons c after) zs
  | delete before after c => exact distance_append_le before (distance_cons_le c after) zs
  | substitute before after c d =>
    exact distance_append_le before (distance_substitute_le c d after) zs

theorem distance_le_of_edits {n : Nat} {xs ys : List α} (h : Edits n xs ys) :
    distance xs ys ≤ n := by
  induction h with
  | done xs => simp
  | @edit n xs ys zs first _ ih =>
    have hfirst := distance_le_of_edit first zs
    omega

/-- **The recurrence computes the least number of edits.** -/
theorem isLeast_distance (xs ys : List α) : Least xs ys (distance xs ys) :=
  ⟨edits_distance xs ys, fun _ h => distance_le_of_edits h⟩

end EditDistance
