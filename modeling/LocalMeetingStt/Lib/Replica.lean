import Mathlib.Data.List.Basic

/-!
# A list replicated through patches

A writer edits a list and remembers only one number about what it changed: the lowest
index touched since the replica was last brought up to date. A **patch** is that index
and everything the list holds from there on; the replica drops its own elements from
the index on and appends the patch's.

`Stale d replica list` is the relation that makes the one number enough: nothing is
dirty and the two are equal, or `d` is a common prefix length. Editing at `k` lowers
the mark to `min d k` (`Stale.edit`), and a patch cut at the mark restores equality
without leaving a gap (`Stale.patch`).
-/

namespace Replica

variable {α : Type*}

/-- The elements from `start` on, replaced by `tail`. -/
def patch (start : Nat) (tail xs : List α) : List α := xs.take start ++ tail

/-- The mark after an edit that left everything below `k` alone. -/
def lower (d : Option Nat) (k : Nat) : Option Nat :=
  some ((d.map fun current => min current k).getD k)

/-- The replica is the list below the mark, and wholly where nothing is marked. -/
def Stale : Option Nat → List α → List α → Prop
  | none, replica, list => replica = list
  | some d, replica, list => d ≤ replica.length ∧ d ≤ list.length ∧ replica.take d = list.take d

/-- An edit that keeps the first `k` elements, and marks `k`. -/
theorem Stale.edit {d : Option Nat} {replica list list' : List α} {k : Nat}
    (h : Stale d replica list) (hk : k ≤ list.length) (hk' : k ≤ list'.length)
    (hkeep : list'.take k = list.take k) : Stale (lower d k) replica list' := by
  cases d with
  | none =>
    obtain rfl : replica = list := h
    exact ⟨hk, hk', hkeep.symm⟩
  | some d =>
    obtain ⟨hr, hl, heq⟩ := h
    have hle : min d k ≤ k := Nat.min_le_right d k
    refine ⟨Nat.le_trans (Nat.min_le_left d k) hr, Nat.le_trans hle hk', ?_⟩
    calc replica.take (min d k) = (replica.take d).take k := by
          rw [List.take_take, Nat.min_comm]
      _ = (list.take k).take d := by rw [heq, List.take_take, List.take_take, Nat.min_comm]
      _ = (list'.take k).take d := by rw [hkeep]
      _ = list'.take (min d k) := by rw [List.take_take]

/-- The patch cut at the mark fits the replica and brings it up to date. -/
theorem Stale.patch {d : Option Nat} {replica list : List α} (h : Stale d replica list) :
    min (d.getD list.length) list.length ≤ replica.length ∧
      patch (min (d.getD list.length) list.length)
        (list.drop (min (d.getD list.length) list.length)) replica = list := by
  cases d with
  | none =>
    obtain rfl : replica = list := h
    simp [Replica.patch]
  | some d =>
    obtain ⟨hr, hl, heq⟩ := h
    simp only [Option.getD_some, Nat.min_eq_left hl]
    refine ⟨hr, ?_⟩
    unfold Replica.patch
    rw [heq, List.take_append_drop]

end Replica
