import Mathlib.Data.List.Basic

/-!
# A file that is written an element at a time, and cut off

A program that is killed leaves what it had written, in the order it wrote it: the first so
many of its writes, each of one element at one place. `writes` lays a block out in such
writes; the lemmas say what a file looks like when only the beginning of a block has been
written, at its end or over a block of the same size.
-/

namespace Torn

variable {α : Type*}

/-- One element at one place, which is in the file or right behind it. -/
def write (file : List α) (w : Nat × α) : List α :=
  if w.1 < file.length then file.set w.1 w.2 else file ++ [w.2]

/-- A block from a place on. -/
def writes : Nat → List α → List (Nat × α)
  | _, [] => []
  | pos, x :: xs => (pos, x) :: writes (pos + 1) xs

/-- The file after some writes. -/
def after (file : List α) (ws : List (Nat × α)) : List α := ws.foldl write file

@[simp] theorem writes_length (pos : Nat) (block : List α) :
    (writes pos block).length = block.length := by
  induction block generalizing pos with
  | nil => rfl
  | cons x xs ih => rw [writes, List.length_cons, List.length_cons, ih]

theorem mem_writes {pos : Nat} {block : List α} {w : Nat × α} (h : w ∈ writes pos block) :
    pos ≤ w.1 ∧ w.1 < pos + block.length := by
  induction block generalizing pos with
  | nil => cases h
  | cons x xs ih =>
    rw [List.length_cons]
    rcases List.mem_cons.mp h with rfl | hrest
    · exact ⟨Nat.le_refl _, by dsimp only; omega⟩
    · have := ih hrest
      omega

theorem after_append (file : List α) (ws ws' : List (Nat × α)) :
    after file (ws ++ ws') = after (after file ws) ws' := List.foldl_append

/-- The beginning of a block, at the end of the file. -/
theorem after_writes_end (block : List α) (n : Nat) {file : List α} {pos : Nat}
    (h : file.length = pos) : after file ((writes pos block).take n) = file ++ block.take n := by
  induction block generalizing n file pos with
  | nil => simp [writes, after]
  | cons x xs ih =>
    cases n with
    | zero => simp [after]
    | succ n =>
      have hwrite : write file (pos, x) = file ++ [x] := if_neg (by dsimp only; omega)
      have hlength : (file ++ [x]).length = pos + 1 := by
        rw [List.length_append, h, List.length_singleton]
      have hnext := ih n hlength
      rw [writes, List.take_succ_cons, List.take_succ_cons]
      show after (write file (pos, x)) ((writes (pos + 1) xs).take n) = _
      rw [hwrite, hnext, List.append_assoc, List.singleton_append]

/-- The beginning of a block, over an old one. -/
def overlaid (n : Nat) (block old : List α) : List α := block.take n ++ old.drop n

@[simp] theorem overlaid_self (n : Nat) (block : List α) : overlaid n block block = block :=
  List.take_append_drop n block

theorem overlaid_length {block old : List α} (h : old.length = block.length) (n : Nat) :
    (overlaid n block old).length = block.length := by
  rw [overlaid, List.length_append, List.length_take, List.length_drop]
  omega

theorem overlaid_of_le {block old : List α} (h : old.length = block.length) {n : Nat}
    (hn : block.length ≤ n) : overlaid n block old = block := by
  rw [overlaid, List.take_of_length_le hn, List.drop_of_length_le (by omega), List.append_nil]

/-- Part after part. -/
theorem overlaid_append {block old : List α} (h : old.length = block.length) (n : Nat)
    (block' old' : List α) :
    overlaid n (block ++ block') (old ++ old') =
      overlaid n block old ++ overlaid (n - block.length) block' old' := by
  rw [overlaid, overlaid, overlaid, List.take_append, List.drop_append, h]
  rcases Nat.le_total n block.length with hle | hge
  · rw [Nat.sub_eq_zero_of_le hle]
    simp
  · rw [List.drop_of_length_le (by omega)]
    simp

/-- A block that is written over another one, up to some write of it. -/
theorem after_writes_over (block : List α) (n : Nat) {front old : List α} {pos : Nat}
    (hpos : front.length = pos) (hsize : old.length = block.length) (back : List α) :
    after (front ++ (old ++ back)) ((writes pos block).take n) =
      front ++ (overlaid n block old ++ back) := by
  induction block generalizing n front old pos with
  | nil =>
    obtain rfl := List.length_eq_zero_iff.mp hsize
    simp [writes, after, overlaid]
  | cons x xs ih =>
    cases n with
    | zero => simp [after, overlaid]
    | succ n =>
      cases old with
      | nil => cases hsize
      | cons y ys =>
        have hwrite : write (front ++ (y :: ys ++ back)) (pos, x) =
            front ++ [x] ++ (ys ++ back) := by
          subst hpos
          rw [write, if_pos (by simp)]
          simp
        have hlength : (front ++ [x]).length = pos + 1 := by
          rw [List.length_append, hpos, List.length_singleton]
        have hrest : ys.length = xs.length := by simpa using hsize
        have hnext := ih n hlength hrest
        rw [writes, List.take_succ_cons]
        show after (write _ (pos, x)) ((writes (pos + 1) xs).take n) = _
        rw [hwrite, hnext]
        simp [overlaid]

/-- How many of the first `n` writes of a block there are. -/
theorem countP_writes {pos : Nat} {p : Nat → Bool} (block : List α) (n : Nat)
    (h : ∀ i, pos ≤ i → i < pos + block.length → p i = true) :
    ((writes pos block).take n).countP (fun w => p w.1) = min n block.length := by
  have hall : ((writes pos block).take n).countP (fun w => p w.1) =
      ((writes pos block).take n).length := by
    rw [List.countP_eq_length]
    intro w hw
    have hplace := mem_writes (List.mem_of_mem_take hw)
    exact h w.1 hplace.1 hplace.2
  rw [hall, List.length_take, writes_length]

theorem countP_writes_none {pos : Nat} {p : Nat → Bool} (block : List α) (n : Nat)
    (h : ∀ i, pos ≤ i → i < pos + block.length → p i = false) :
    ((writes pos block).take n).countP (fun w => p w.1) = 0 := by
  rw [List.countP_eq_zero]
  intro w hw
  have hplace := mem_writes (List.mem_of_mem_take hw)
  rw [h w.1 hplace.1 hplace.2]
  exact Bool.false_ne_true

end Torn
