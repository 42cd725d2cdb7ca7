import Mathlib.Data.List.Basic

/-!
# Cutting a stream at its separators

A reader of lines keeps what it has not seen the end of. `frames` is what such a reader
knows after some input: the pieces whose separator has arrived, without it, and the
unfinished rest. The one fact everything else comes from is `frames_append`: reading on
is cutting *the rest followed by the new input*, so that where the input was split into
reads leaves no trace.

`frames_terminated` goes the other way, for a writer that ends each piece itself.
-/

namespace Framing

variable {α : Type*} {sep : α → Bool}

/-- Put an element in front of the first piece, or of the rest when no piece is complete. -/
def extend (x : α) : List (List α) × List α → List (List α) × List α
  | ([], rest) => ([], x :: rest)
  | (piece :: pieces, rest) => ((x :: piece) :: pieces, rest)

/-- The completed pieces of a stream and what follows its last separator. -/
def frames (sep : α → Bool) : List α → List (List α) × List α
  | [] => ([], [])
  | x :: xs => if sep x then ([] :: (frames sep xs).1, (frames sep xs).2)
      else extend x (frames sep xs)

@[simp] theorem frames_nil : frames sep [] = ([], []) := rfl

theorem frames_sep {x : α} (xs : List α) (hx : sep x = true) :
    frames sep (x :: xs) = ([] :: (frames sep xs).1, (frames sep xs).2) := if_pos hx

theorem frames_other {x : α} (xs : List α) (hx : ¬sep x = true) :
    frames sep (x :: xs) = extend x (frames sep xs) := if_neg hx

/-- Without a separator nothing is complete. -/
theorem frames_open {xs : List α} (h : ∀ x ∈ xs, ¬sep x = true) : frames sep xs = ([], xs) := by
  induction xs with
  | nil => rfl
  | cons x xs ih =>
    have hxs := ih fun y hy => h y (List.mem_cons_of_mem _ hy)
    rw [frames_other xs (h x List.mem_cons_self), hxs]
    rfl

/-- **One turn of a reading loop**: the piece up to the first separator is complete, and
    the loop goes on with what follows it. -/
theorem frames_cut {piece : List α} {x : α} (rest : List α) (h : ∀ y ∈ piece, ¬sep y = true)
    (hx : sep x = true) :
    frames sep (piece ++ x :: rest) = (piece :: (frames sep rest).1, (frames sep rest).2) := by
  induction piece with
  | nil => exact frames_sep rest hx
  | cons y piece ih =>
    have hpiece := ih fun z hz => h z (List.mem_cons_of_mem _ hz)
    show frames sep (y :: (piece ++ x :: rest)) = _
    rw [frames_other _ (h y List.mem_cons_self), hpiece]
    rfl

/-- What is left over has no separator. -/
theorem frames_rest (xs : List α) : ∀ x ∈ (frames sep xs).2, ¬sep x = true := by
  induction xs with
  | nil => intro x hx; cases hx
  | cons y ys ih =>
    by_cases hy : sep y = true
    · rw [frames_sep ys hy]
      exact ih
    · rw [frames_other ys hy]
      generalize frames sep ys = cut at ih ⊢
      rcases cut with ⟨_ | ⟨piece, pieces⟩, rest⟩
      · intro x hx
        rcases List.mem_cons.mp hx with rfl | hx
        · exact hy
        · exact ih x hx
      · exact ih

/-- **Reading on**: the rest is all that has to be kept of what was read. -/
theorem frames_append (xs ys : List α) :
    frames sep (xs ++ ys) =
      ((frames sep xs).1 ++ (frames sep ((frames sep xs).2 ++ ys)).1,
        (frames sep ((frames sep xs).2 ++ ys)).2) := by
  induction xs with
  | nil => rfl
  | cons x xs ih =>
    by_cases hx : sep x = true
    · show frames sep (x :: (xs ++ ys)) = _
      rw [frames_sep _ hx, frames_sep _ hx, ih]
      rfl
    · show frames sep (x :: (xs ++ ys)) = _
      rw [frames_other _ hx, frames_other _ hx, ih]
      generalize frames sep xs = cut
      rcases cut with ⟨_ | ⟨piece, pieces⟩, rest⟩
      · show _ = (frames sep (x :: (rest ++ ys)))
        rw [frames_other _ hx]
        rfl
      · rfl

/-- A writer that ends each piece with a separator is read back piece by piece. -/
theorem frames_terminated {x : α} (hx : sep x = true) {pieces : List (List α)}
    (h : ∀ piece ∈ pieces, ∀ y ∈ piece, ¬sep y = true) :
    frames sep (pieces.flatMap fun piece => piece ++ [x]) = (pieces, []) := by
  induction pieces with
  | nil => rfl
  | cons piece pieces ih =>
    have hrest := ih fun p hp => h p (List.mem_cons_of_mem _ hp)
    rw [List.flatMap_cons, List.append_assoc, List.singleton_append,
      frames_cut _ (h piece List.mem_cons_self) hx, hrest]

end Framing
