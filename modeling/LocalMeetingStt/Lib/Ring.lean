import Mathlib.Data.List.DropRight

/-!
# Circular buffers, read oldest first

A circular buffer is a list and the place the next element goes to. `view` is its contents
in the order they came; writing over the oldest elements, in one piece or around the end,
is appending to the view and dropping as many in front (`view_write`, `view_wrap`).

`copy` is the one way such code moves elements: a run of one list over a run of another,
or nothing where either would be overrun.

What a buffer is for are the last elements of everything that came, which is what
`List.rtake` takes; the lemmas on it here are those that follow a sequence through an
append.
-/

namespace Ring

variable {α : Type*}

/-- `count` elements of `src` from `start` on, over those of `dst` from `target` on. -/
def copy (dst : List α) (target : Nat) (src : List α) (start count : Nat) : Option (List α) :=
  if target + count ≤ dst.length ∧ start + count ≤ src.length then
    some (dst.take target ++ (src.drop start).take count ++ dst.drop (target + count))
  else none

theorem copy_eq {dst src : List α} {target start count : Nat}
    (hdst : target + count ≤ dst.length)
    (hsrc : start + count ≤ src.length) :
    copy dst target src start count =
      some (dst.take target ++ (src.drop start).take count ++ dst.drop (target + count)) :=
  if_pos ⟨hdst, hsrc⟩

/-- All of a list is written over. -/
theorem copy_whole {dst src : List α} {start : Nat} (hsrc : start + dst.length ≤ src.length) :
    copy dst 0 src start dst.length = some ((src.drop start).take dst.length) := by
  rw [copy_eq (Nat.le_of_eq (Nat.zero_add _)) hsrc, List.take_zero, List.nil_append,
    Nat.zero_add, List.drop_length, List.append_nil]

/-- Written over from the back of one list and the front of another. -/
theorem copy_halves {dst src src' : List α} {start : Nat} (hstart : start ≤ src.length)
    (hback : src.length - start ≤ dst.length)
    (hfront : dst.length - (src.length - start) ≤ src'.length) :
    ((copy dst 0 src start (src.length - start)).bind fun dst' =>
        copy dst' (src.length - start) src' 0 (dst.length - (src.length - start))) =
      some (src.drop start ++ src'.take (dst.length - (src.length - start))) := by
  have hlen : (src.drop start).length = src.length - start := List.length_drop
  have hfirst : copy dst 0 src start (src.length - start) =
      some (src.drop start ++ dst.drop (src.length - start)) := by
    rw [copy_eq (by omega) (by omega), List.take_zero, List.nil_append, Nat.zero_add,
      List.take_of_length_le (Nat.le_of_eq hlen)]
  have hlong : (src.drop start ++ dst.drop (src.length - start)).length = dst.length := by
    rw [List.length_append, List.length_drop, List.length_drop]
    omega
  have htail : (src.drop start ++ dst.drop (src.length - start)).drop
      (src.length - start + (dst.length - (src.length - start))) = [] :=
    List.drop_eq_nil_of_le (by omega)
  have hsecond : (src.drop start ++ dst.drop (src.length - start)).take (src.length - start) =
      src.drop start := by rw [← hlen, List.take_left]
  rw [hfirst, Option.bind_some, copy_eq (by omega) (by omega), htail, hsecond, List.drop_zero,
    List.append_nil]

/-- The contents, oldest first; the next element goes to `pos`. -/
def view (buffer : List α) (pos : Nat) : List α := buffer.drop pos ++ buffer.take pos

@[simp] theorem view_length (buffer : List α) (pos : Nat) :
    (view buffer pos).length = buffer.length := by
  simp only [view, List.length_append, List.length_drop, List.length_take]
  omega

/-! ## The last elements -/

theorem rtake_of_length_le {l : List α} {n : Nat} (h : l.length ≤ n) : l.rtake n = l := by
  rw [List.rtake, Nat.sub_eq_zero_of_le h, List.drop_zero]

theorem rtake_length (l : List α) (n : Nat) : (l.rtake n).length = min n l.length := by
  rw [List.rtake, List.length_drop]
  omega

theorem rtake_append_of_le {l m : List α} {n : Nat} (h : n ≤ m.length) :
    (l ++ m).rtake n = m.rtake n := by
  rw [List.rtake, List.rtake, List.length_append, List.drop_append,
    List.drop_eq_nil_of_le (by omega), List.nil_append]
  congr 1
  omega

theorem rtake_append_of_ge {l m : List α} {n : Nat} (h : m.length ≤ n) :
    (l ++ m).rtake n = l.rtake (n - m.length) ++ m := by
  rw [List.rtake, List.rtake, List.length_append, List.drop_append_of_le_length (by omega)]
  congr 2
  omega

theorem rtake_drop {l : List α} {n k : Nat} (h : n + k ≤ l.length) :
    (l.drop k).rtake n = l.rtake n := by
  rw [List.rtake, List.rtake, List.drop_drop, List.length_drop]
  congr 1
  omega

/-- Fewer of the last elements are the last of more of them. -/
theorem rtake_rtake {l : List α} {n k : Nat} (h : n ≤ k) : (l.rtake k).rtake n = l.rtake n := by
  rcases Nat.le_total l.length k with hlong | hshort
  · rw [rtake_of_length_le hlong]
  · rw [List.rtake]
    exact rtake_drop (by omega)

/-! ## Two writes -/

/-- Written in one piece. -/
theorem view_write {buffer new : List α} {pos : Nat} (hfits : pos + new.length ≤ buffer.length) :
    view (buffer.take pos ++ new ++ buffer.drop (pos + new.length))
        ((pos + new.length) % buffer.length) = (view buffer pos ++ new).drop new.length := by
  have hpos : (buffer.take pos).length = pos := List.length_take_of_le (by omega)
  have hfront : (buffer.take pos ++ new).length = pos + new.length := by
    rw [List.length_append, hpos]
  have hback : (view buffer pos ++ new).drop new.length =
      buffer.drop (pos + new.length) ++ (buffer.take pos ++ new) := by
    rw [view, List.append_assoc, List.drop_append_of_le_length (by rw [List.length_drop]; omega),
      List.drop_drop]
  rw [hback]
  rcases Nat.lt_or_eq_of_le hfits with hlt | heq
  · rw [Nat.mod_eq_of_lt hlt, view, ← hfront, List.drop_left, List.take_left]
  · -- the next element goes to the front again
    rw [heq, Nat.mod_self, List.drop_length]
    simp [view]

/-- Written to the end of the buffer and on from its front. -/
theorem view_wrap {buffer new : List α} {pos : Nat} (hpos : pos < buffer.length)
    (hover : buffer.length < pos + new.length) (hfits : new.length ≤ buffer.length) :
    view (new.drop (buffer.length - pos) ++
        (buffer.take pos ++ new.take (buffer.length - pos)).drop
          (new.length - (buffer.length - pos)))
        ((pos + new.length) % buffer.length) = (view buffer pos ++ new).drop new.length := by
  have hmod : (pos + new.length) % buffer.length = new.length - (buffer.length - pos) := by
    rw [Nat.mod_eq_sub_mod (by omega), Nat.mod_eq_of_lt (by omega)]
    omega
  have hfront : (new.drop (buffer.length - pos)).length = new.length - (buffer.length - pos) :=
    List.length_drop
  have htaken : (buffer.take pos).length = pos := List.length_take_of_le (Nat.le_of_lt hpos)
  have hsplit : (buffer.take pos ++ new.take (buffer.length - pos)).drop
      (new.length - (buffer.length - pos)) ++ new.drop (buffer.length - pos) =
      (buffer.take pos).drop (new.length - (buffer.length - pos)) ++ new := by
    rw [List.drop_append_of_le_length (by omega), List.append_assoc, List.take_append_drop]
  have hback : (view buffer pos ++ new).drop new.length =
      (buffer.take pos).drop (new.length - (buffer.length - pos)) ++ new := by
    rw [view, List.append_assoc, List.drop_append, List.length_drop,
      List.drop_eq_nil_of_le (by rw [List.length_drop]; omega), List.nil_append,
      List.drop_append_of_le_length (by omega)]
  rw [hback, hmod, view, ← hfront, List.drop_left, List.take_left, hfront, hsplit]

/-- A stretch that does not reach around the end. -/
theorem rtake_view_of_le {buffer : List α} {pos n : Nat} (hpos : pos ≤ buffer.length)
    (h : n ≤ pos) : (view buffer pos).rtake n = (buffer.drop (pos - n)).take n := by
  have htaken : (buffer.take pos).length = pos := List.length_take_of_le hpos
  rw [view, rtake_append_of_le (by omega), List.rtake, htaken, List.drop_take]
  congr 1
  omega

/-- One that does. -/
theorem rtake_view_of_lt {buffer : List α} {pos n : Nat} (hpos : pos ≤ buffer.length)
    (h : pos ≤ n) (hn : n ≤ buffer.length) :
    (view buffer pos).rtake n = buffer.drop (buffer.length + pos - n) ++ buffer.take pos := by
  have htaken : (buffer.take pos).length = pos := List.length_take_of_le hpos
  rw [view, rtake_append_of_ge (by omega), htaken, rtake_drop (by omega), List.rtake]
  congr 2
  omega

end Ring
