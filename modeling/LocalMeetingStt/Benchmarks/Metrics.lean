import LocalMeetingStt.Lib.EditDistance
import Mathlib.Data.Rat.Defs
import Mathlib.Data.List.Range

/-!
# Scoring a transcript (`metrics.py`)

`edit_distance` keeps two rows of the table: the row of the reference's characters read so
far, and the one being filled. Row by row it is the least number of edits from that prefix
of the reference to each prefix of the hypothesis (`fillRow_cells`, `fillRows_cells`), so the
last entry of the last row is the least number for the whole (`editDistance_least`).

The rows are read by indices, and an index out of range would be an exception. Here
that is `none`, and it does not happen.
-/

namespace LocalMeetingStt
namespace Benchmarks

open EditDistance

/-! ## The code -/

section

variable {α : Type*} [DecidableEq α]

/-- What one turn of the inner loop appends. -/
def cell (left right : α) (previous current : List Nat) (j : Nat) : Option Nat := do
  let last ← current.getLast?
  let above ← previous[j]?
  let corner ← previous[j - 1]?
  return min (min (last + 1) (above + 1)) (corner + if left = right then 0 else 1)

/-- One turn of the inner loop. -/
def fillCell (left : α) (previous current : List Nat) (turn : α × Nat) : Option (List Nat) := do
  let value ← cell left turn.1 previous current turn.2
  return current ++ [value]

/-- One turn of the outer loop: the row of one more character of the reference. -/
def fillRow (hypothesis : List α) (previous : List Nat) (turn : α × Nat) :
    Option (List Nat) :=
  (hypothesis.zipIdx 1).foldlM (fillCell turn.1 previous) [turn.2]

/-- `edit_distance` -/
def editDistance (reference hypothesis : List α) : Option Nat := do
  let previous ←
    (reference.zipIdx 1).foldlM (fillRow hypothesis) (List.range (hypothesis.length + 1))
  previous.getLast?

end

/-- What `normalize_text` asks of `unicodedata` and of `str`. -/
structure Unicode where
  nfkc : List Char → List Char
  lower : List Char → List Char
  isSpace : Char → Bool
  /-- The first letter of the character's general category. -/
  category : Char → Char

/-- `normalize_text` -/
def Unicode.normalizeText (u : Unicode) (text : List Char) : List Char :=
  (u.lower (u.nfkc text)).filter fun c =>
    !u.isSpace c && !(['P', 'Z', 'C'].contains (u.category c))

/-- What `score` returns. -/
structure Score where
  errors : Nat
  referenceChars : Nat
  cer : Option ℚ
deriving DecidableEq, Repr

/-- `score` -/
def Unicode.score (u : Unicode) (reference hypothesis : List Char) : Option Score := do
  let ref := u.normalizeText reference
  let hyp := u.normalizeText hypothesis
  let errors ← editDistance ref hyp
  return {
    errors
    referenceChars := ref.length
    cer := if ref = [] then none else some ((errors : ℚ) / ref.length) }

/-! ## A row of the table -/

section

variable {α : Type*} [DecidableEq α]

/-- The row of the prefix `xs`: its distance to each prefix of `ys`. The recurrence is on the
    first elements and the table grows at the last, so the prefixes are read backwards. -/
def cells (xs ys : List α) : List Nat :=
  (List.range (ys.length + 1)).map fun j => distance xs.reverse (ys.take j).reverse

theorem cells_nil_left (ys : List α) : cells [] ys = List.range (ys.length + 1) := by
  unfold cells
  conv_rhs => rw [← List.map_id (List.range (ys.length + 1))]
  apply List.map_congr_left
  intro j hj
  have hle : j ≤ ys.length := Nat.lt_succ_iff.mp (List.mem_range.mp hj)
  simp [hle]

theorem cells_nil_right (xs : List α) : cells xs [] = [xs.length] := by
  simp [cells]

theorem cells_snoc (xs ys : List α) (y : α) :
    cells xs (ys ++ [y]) = cells xs ys ++ [distance xs.reverse (y :: ys.reverse)] := by
  unfold cells
  rw [List.length_append, List.length_singleton, List.range_succ, List.map_append]
  congr 1
  · apply List.map_congr_left
    intro j hj
    have hle : j ≤ ys.length := Nat.lt_succ_iff.mp (List.mem_range.mp hj)
    rw [List.take_append_of_le_length hle]
  · rw [List.map_singleton, List.take_of_length_le (by simp), List.reverse_append]
    rfl

theorem cells_getLast? (xs ys : List α) :
    (cells xs ys).getLast? = some (distance xs.reverse ys.reverse) := by
  simp [cells, List.range_succ]

theorem cells_getElem? (xs before after : List α) :
    (cells xs (before ++ after))[before.length]? =
      some (distance xs.reverse before.reverse) := by
  have hlt : before.length < (before ++ after).length + 1 := by
    rw [List.length_append]
    omega
  rw [cells, List.getElem?_map, List.getElem?_range hlt, Option.map_some, List.take_left]

/-! ## The loops -/

/-- One turn of the inner loop appends the distance to one prefix more. -/
theorem fillCell_cells (left right : α) (xs before after : List α) :
    fillCell left (cells xs (before ++ right :: after)) (cells (xs ++ [left]) before)
        (right, before.length + 1) =
      some (cells (xs ++ [left]) (before ++ [right])) := by
  have habove : (cells xs (before ++ right :: after))[before.length + 1]? =
      some (distance xs.reverse (right :: before.reverse)) := by
    simpa using cells_getElem? xs (before ++ [right]) after
  have hcorner := cells_getElem? xs before (right :: after)
  have hlast := cells_getLast? (xs ++ [left]) before
  rw [cells_snoc]
  simp only [fillCell, cell, habove, hcorner, hlast, Nat.add_sub_cancel]
  simp [distance_cons_cons]

/-- The inner loop from any column on. -/
theorem fillCells_cells (left : α) (xs before after : List α) :
    (after.zipIdx (before.length + 1)).foldlM (fillCell left (cells xs (before ++ after)))
        (cells (xs ++ [left]) before) =
      some (cells (xs ++ [left]) (before ++ after)) := by
  induction after generalizing before with
  | nil => simp
  | cons right after ih =>
    have hnext := ih (before ++ [right])
    rw [List.append_assoc, List.singleton_append, List.length_append,
      List.length_singleton] at hnext
    rw [List.zipIdx_cons, List.foldlM_cons, fillCell_cells, Option.bind_eq_bind,
      Option.bind_some]
    exact hnext

/-- One turn of the outer loop fills the next row. -/
theorem fillRow_cells (left : α) (xs hypothesis : List α) :
    fillRow hypothesis (cells xs hypothesis) (left, xs.length + 1) =
      some (cells (xs ++ [left]) hypothesis) := by
  have hstart : [xs.length + 1] = cells (xs ++ [left]) [] := by
    rw [cells_nil_right, List.length_append, List.length_singleton]
  unfold fillRow
  rw [hstart]
  exact fillCells_cells left xs [] hypothesis

/-- The outer loop from any row on. -/
theorem fillRows_cells (hypothesis xs rest : List α) :
    (rest.zipIdx (xs.length + 1)).foldlM (fillRow hypothesis) (cells xs hypothesis) =
      some (cells (xs ++ rest) hypothesis) := by
  induction rest generalizing xs with
  | nil => simp
  | cons left rest ih =>
    have hnext := ih (xs ++ [left])
    rw [List.append_assoc, List.singleton_append, List.length_append,
      List.length_singleton] at hnext
    rw [List.zipIdx_cons, List.foldlM_cons, fillRow_cells, Option.bind_eq_bind,
      Option.bind_some]
    exact hnext

theorem editDistance_eq (reference hypothesis : List α) :
    editDistance reference hypothesis =
      some (distance reference.reverse hypothesis.reverse) := by
  have hrows := fillRows_cells hypothesis [] reference
  rw [List.length_nil, List.nil_append, cells_nil_left] at hrows
  unfold editDistance
  rw [hrows, Option.bind_eq_bind, Option.bind_some, cells_getLast?]

/-! ## What it computes -/

/-- **The number returned is the least number of edits**, and no index is out of range. -/
theorem editDistance_least (reference hypothesis : List α) :
    ∃ n, editDistance reference hypothesis = some n ∧ Least reference hypothesis n := by
  refine ⟨_, editDistance_eq reference hypothesis, ?_⟩
  rw [← least_reverse_iff]
  exact isLeast_distance reference.reverse hypothesis.reverse

theorem editDistance_eq_some_iff {reference hypothesis : List α} {n : Nat} :
    editDistance reference hypothesis = some n ↔ Least reference hypothesis n := by
  obtain ⟨m, hm, hleast⟩ := editDistance_least reference hypothesis
  rw [hm, Option.some.injEq]
  constructor
  · intro h
    exact h ▸ hleast
  · exact hleast.unique

theorem editDistance_zero_iff (a b : List α) : editDistance a b = some 0 ↔ a = b := by
  obtain ⟨n, hn, hleast⟩ := editDistance_least a b
  rw [hn, Option.some.injEq]
  exact hleast.zero_iff

theorem editDistance_comm (a b : List α) : editDistance a b = editDistance b a := by
  obtain ⟨n, hn, hleast⟩ := editDistance_least a b
  rw [hn, editDistance_eq_some_iff.mpr hleast.symm]

theorem editDistance_triangle (a b c : List α) :
    ∃ m n k, editDistance a b = some m ∧ editDistance b c = some n ∧
      editDistance a c = some k ∧ k ≤ m + n := by
  obtain ⟨m, hm, hab⟩ := editDistance_least a b
  obtain ⟨n, hn, hbc⟩ := editDistance_least b c
  obtain ⟨k, hk, hac⟩ := editDistance_least a c
  exact ⟨m, n, k, hm, hn, hk, hab.triangle hbc hac⟩

/-- **The distance of a score is a metric**: least, zero for equal strings only, symmetric,
    and no shorter over a third string. -/
theorem editDistance_metric :
    (∀ reference hypothesis : List α,
      ∃ n, editDistance reference hypothesis = some n ∧
        IsLeast {n | Edits n reference hypothesis} n) ∧
    (∀ a b : List α, editDistance a b = some 0 ↔ a = b) ∧
    (∀ a b : List α, editDistance a b = editDistance b a) ∧
    (∀ a b c : List α, ∃ m n k, editDistance a b = some m ∧ editDistance b c = some n ∧
      editDistance a c = some k ∧ k ≤ m + n) :=
  ⟨editDistance_least, editDistance_zero_iff, editDistance_comm, editDistance_triangle⟩

end

/-- The published error count is the least number of edits between the normalized texts, and
    an empty reference has no rate. -/
theorem Unicode.score_errors (u : Unicode) (reference hypothesis : List Char) :
    ∃ s, u.score reference hypothesis = some s ∧
      Least (u.normalizeText reference) (u.normalizeText hypothesis) s.errors ∧
      (s.cer = none ↔ u.normalizeText reference = []) := by
  obtain ⟨n, hn, hleast⟩ :=
    editDistance_least (u.normalizeText reference) (u.normalizeText hypothesis)
  refine ⟨_, by rw [score, hn]; rfl, hleast, ?_⟩
  simp

example : editDistance "kitten".toList "sitting".toList = some 3 := by decide

end Benchmarks
end LocalMeetingStt
