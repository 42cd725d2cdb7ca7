import Mathlib.Data.List.Infix
import Mathlib.Order.Bounds.Basic

/-!
# Substrings of separated pieces, and lists that overlap

A search for a substring in a rendered list of pieces is a search in one of them, as long
as what is searched for cannot hold the separator. Two lists of which one ends with what
the other begins with can be joined there, and the join holds both.
-/

namespace Windows

variable {α β : Type*}

/-- A window without the separator lies on one side of it. -/
theorem infix_append_sep {w a b : List α} {sep : α} (hsep : sep ∉ w) :
    w <:+: a ++ sep :: b ↔ w <:+: a ∨ w <:+: b := by
  constructor
  · intro h
    rcases List.infix_append_iff_ne_nil.mp h with ha | hb | ⟨l, v, -, hv, rfl, -, hprefix⟩
    · exact .inl ha
    · rcases List.infix_cons_iff.mp hb with hprefix | hb
      · rcases List.prefix_cons_iff.mp hprefix with rfl | ⟨v, rfl, -⟩
        · exact .inl List.nil_infix
        · exact absurd List.mem_cons_self hsep
      · exact .inr hb
    · -- What reaches across begins, behind `a`, with the separator.
      obtain ⟨x, v, rfl⟩ := List.exists_cons_of_ne_nil hv
      obtain rfl := (List.cons_prefix_cons.mp hprefix).1
      exact absurd (List.mem_append_right l List.mem_cons_self) hsep
  · rintro (ha | hb)
    · exact ha.trans (List.prefix_append a _).isInfix
    · exact hb.trans ((List.suffix_cons sep b).trans (List.suffix_append a _)).isInfix

/-- In pieces that each end with the separator. -/
theorem infix_terminated {f : β → List α} {w : List α} {sep : α} (hsep : sep ∉ w) (hne : w ≠ [])
    (pieces : List β) :
    w <:+: (pieces.flatMap fun piece => f piece ++ [sep]) ↔
      ∃ piece ∈ pieces, w <:+: f piece := by
  induction pieces with
  | nil => simp [hne]
  | cons piece pieces ih =>
    rw [List.flatMap_cons, List.append_assoc, List.singleton_append, infix_append_sep hsep, ih,
      List.exists_mem_cons_iff]

/-! ## Lists that have nothing to do with each other -/

/-- `a` ends with `n` or more elements that `b` begins with. -/
def Overlaps (n : Nat) (a b : List α) : Prop := ∃ s : List α, n ≤ s.length ∧ s <:+ a ∧ s <+: b

/-- Neither holds the other, and no end of `n` or more of one begins the other. -/
structure Apart (n : Nat) (a b : List α) : Prop where
  not_in : ¬a <:+: b
  not_holds : ¬b <:+: a
  not_before : ¬Overlaps n a b
  not_after : ¬Overlaps n b a

theorem Apart.left_ne_nil {n : Nat} {a b : List α} (h : Apart n a b) : a ≠ [] := by
  rintro rfl
  exact h.not_in List.nil_infix

theorem Apart.right_ne_nil {n : Nat} {a b : List α} (h : Apart n a b) : b ≠ [] := by
  rintro rfl
  exact h.not_holds List.nil_infix

theorem Overlaps.mono {m n : Nat} {a b : List α} (hle : m ≤ n) (h : Overlaps n a b) :
    Overlaps m a b := by
  obtain ⟨s, hlen, hsuffix, hprefix⟩ := h
  exact ⟨s, hle.trans hlen, hsuffix, hprefix⟩

/-- `a` ends with just `size` elements that `b` begins with. -/
def OverlapsBy (size : Nat) (a b : List α) : Prop :=
  ∃ s : List α, s.length = size ∧ s <:+ a ∧ s <+: b

theorem overlapsBy_iff {size : Nat} {a b : List α} :
    OverlapsBy size a b ↔
      size ≤ min a.length b.length ∧ a.drop (a.length - size) = b.take size := by
  constructor
  · intro h
    obtain ⟨s, rfl, hsuffix, hprefix⟩ := h
    refine ⟨le_min hsuffix.length_le hprefix.length_le, ?_⟩
    rw [← List.suffix_iff_eq_drop.mp hsuffix, ← List.prefix_iff_eq_take.mp hprefix]
  · intro h
    obtain ⟨hsize, heq⟩ := h
    refine ⟨b.take size, ?_, ⟨a.take (a.length - size), ?_⟩, List.take_prefix size b⟩
    · rw [List.length_take]
      omega
    · rw [← heq, List.take_append_drop]

/-- An overlap by its length. -/
theorem overlaps_iff {n : Nat} {a b : List α} :
    Overlaps n a b ↔
      ∃ size, n ≤ size ∧ size ≤ min a.length b.length ∧ a.drop (a.length - size) = b.take size := by
  simp only [← overlapsBy_iff]
  constructor
  · rintro ⟨s, hlen, hsuffix, hprefix⟩
    exact ⟨s.length, hlen, s, rfl, hsuffix, hprefix⟩
  · rintro ⟨size, hn, s, rfl, hsuffix, hprefix⟩
    exact ⟨s, hn, hsuffix, hprefix⟩

/-! ## Joining on the longest overlap -/

/-- `a` and `b` in one, what they share counted once. -/
def joined (size : Nat) (a b : List α) : List α := a ++ b.drop size

theorem prefix_joined (size : Nat) (a b : List α) : a <+: joined size a b :=
  List.prefix_append a (b.drop size)

theorem OverlapsBy.suffix_joined {size : Nat} {a b : List α} (h : OverlapsBy size a b) :
    b <:+ joined size a b := by
  obtain ⟨s, rfl, ⟨before, rfl⟩, ⟨after, rfl⟩⟩ := h
  refine ⟨before, ?_⟩
  rw [joined, List.drop_left, List.append_assoc]

/-- `size` is the most by which one of two lists ends with what the other begins with, of
    those from `n` on. -/
def LongestOverlap (n : Nat) (a b : List α) (size : Nat) : Prop :=
  IsGreatest {k | n ≤ k ∧ (OverlapsBy k a b ∨ OverlapsBy k b a)} size

end Windows
