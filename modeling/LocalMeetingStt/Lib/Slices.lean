import Mathlib.Data.List.Basic
import Mathlib.Data.List.Pairwise

/-!
# Increasing slices of a stream

A consumer of a stream that hands out pieces of it is right about *which* elements it
handed out when its pieces are slices of the stream, in order and without overlap.
`Within lo ivs hi` says that of a list of offset pairs, threaded from `lo` to `hi` so
that two stretches of a run compose (`Within.append`) without comparing every interval
of one with every interval of the other; `Within.pairwise` reads the comparison back.
-/

namespace Slices

variable {α : Type*}

/-- The elements at the offsets `[iv.1, iv.2)`. -/
def slice (xs : List α) (iv : Nat × Nat) : List α := (xs.take iv.2).drop iv.1

/-- The intervals are increasing, disjoint and inside `[lo, hi]`. -/
def Within : Nat → List (Nat × Nat) → Nat → Prop
  | lo, [], hi => lo ≤ hi
  | lo, iv :: rest, hi => lo ≤ iv.1 ∧ iv.1 ≤ iv.2 ∧ Within iv.2 rest hi

theorem slice_length {xs : List α} {a b : Nat} (h : b ≤ xs.length) :
    (slice xs (a, b)).length = b - a := by
  simp [slice, Nat.min_eq_left h]

/-- A slice does not change when the stream goes on. -/
theorem slice_append_left {xs ys : List α} {iv : Nat × Nat} (h : iv.2 ≤ xs.length) :
    slice (xs ++ ys) iv = slice xs iv := by
  simp [slice, List.take_append_of_le_length h]

/-- A slice of what is left after `k` elements, in offsets of the whole stream. -/
theorem slice_drop (xs : List α) (k a b : Nat) :
    slice (xs.drop k) (a, b) = slice xs (k + a, k + b) := by
  simp [slice, List.take_drop, List.drop_drop]

theorem slice_all_from (xs : List α) (a : Nat) : slice xs (a, xs.length) = xs.drop a := by
  simp [slice]

theorem Within.le {lo hi : Nat} {ivs : List (Nat × Nat)} (h : Within lo ivs hi) : lo ≤ hi := by
  induction ivs generalizing lo with
  | nil => exact h
  | cons iv rest ih => exact Nat.le_trans h.1 (Nat.le_trans h.2.1 (ih h.2.2))

theorem Within.mono {lo lo' hi hi' : Nat} {ivs : List (Nat × Nat)} (h : Within lo ivs hi)
    (hlo : lo' ≤ lo) (hhi : hi ≤ hi') : Within lo' ivs hi' := by
  induction ivs generalizing lo lo' with
  | nil => exact Nat.le_trans hlo (Nat.le_trans h hhi)
  | cons iv rest ih => exact ⟨Nat.le_trans hlo h.1, h.2.1, ih h.2.2 (Nat.le_refl _)⟩

theorem Within.append {lo mid hi : Nat} {xs ys : List (Nat × Nat)} (hx : Within lo xs mid)
    (hy : Within mid ys hi) : Within lo (xs ++ ys) hi := by
  induction xs generalizing lo with
  | nil => exact hy.mono hx (Nat.le_refl _)
  | cons iv rest ih => exact ⟨hx.1, hx.2.1, ih hx.2.2⟩

theorem Within.mem {lo hi : Nat} {ivs : List (Nat × Nat)} (h : Within lo ivs hi)
    {iv : Nat × Nat} (hiv : iv ∈ ivs) : lo ≤ iv.1 ∧ iv.1 ≤ iv.2 ∧ iv.2 ≤ hi := by
  induction ivs generalizing lo with
  | nil => simp at hiv
  | cons jv rest ih =>
    rcases List.mem_cons.mp hiv with rfl | hrest
    · exact ⟨h.1, h.2.1, h.2.2.le⟩
    · obtain ⟨h1, h2, h3⟩ := ih h.2.2 hrest
      exact ⟨Nat.le_trans h.1 (Nat.le_trans h.2.1 h1), h2, h3⟩

/-- Of two intervals, the one listed first ends before the other starts. -/
theorem Within.pairwise {lo hi : Nat} {ivs : List (Nat × Nat)} (h : Within lo ivs hi) :
    ivs.Pairwise fun iv jv => iv.2 ≤ jv.1 := by
  induction ivs generalizing lo with
  | nil => exact .nil
  | cons iv rest ih => exact .cons (fun jv hjv => (h.2.2.mem hjv).1) (ih h.2.2)

/-- The intervals before one of them end where it starts. -/
theorem Within.before {lo hi : Nat} {xs ys : List (Nat × Nat)} {iv : Nat × Nat}
    (h : Within lo (xs ++ iv :: ys) hi) : Within lo xs iv.1 := by
  induction xs generalizing lo with
  | nil => exact h.1
  | cons jv xs ih => exact ⟨h.1, h.2.1, ih h.2.2⟩

/-- Intervals that are not empty differ from each other. -/
theorem Within.nodup {lo hi : Nat} {ivs : List (Nat × Nat)} (h : Within lo ivs hi)
    (hne : ∀ iv ∈ ivs, iv.1 < iv.2) : ivs.Nodup := by
  refine h.pairwise.imp_of_mem ?_
  intro iv jv hiv _ hle heq
  have := hne iv hiv
  rw [← heq] at hle
  omega

/-! ## Tilings -/

/-- The intervals are not empty and follow each other without a gap from `lo` to `hi`. -/
def Tiles : Nat → List (Nat × Nat) → Nat → Prop
  | lo, [], hi => lo = hi
  | lo, iv :: rest, hi => iv.1 = lo ∧ lo < iv.2 ∧ Tiles iv.2 rest hi

theorem Tiles.le {lo hi : Nat} {ivs : List (Nat × Nat)} (h : Tiles lo ivs hi) : lo ≤ hi := by
  induction ivs generalizing lo with
  | nil => exact Nat.le_of_eq h
  | cons iv rest ih => exact Nat.le_trans (Nat.le_of_lt h.2.1) (ih h.2.2)

end Slices
