import LocalMeetingStt.Captions.Loopback

/-!
# Two phrases in one (`captions.rs`, `merge_partial_text`)

A new hypothesis may repeat, extend or correct the one before it. Where one holds the other,
the longer stays. Where the end of one begins the other, by three characters or more, the
two are joined there. The loop tries both directions at each length, from the longest down,
so the join is on the longest overlap of all, and on a tie the older text comes first.

Nothing is lost by a merge (`Merge.Sound.keeps`), and where none is made the texts have nothing
to do with each other (`Merge.Sound.apart`). All of this is about the texts as they are
normalized, and holds of any two.
-/

namespace LocalMeetingStt

open Captions Windows

/-! ## The loop over the lengths -/

theorem downTo_pairwise (lo hi : Nat) : (downTo lo hi).Pairwise (· > ·) := by
  rw [downTo, List.pairwise_reverse]
  exact List.pairwise_lt_range'

/-- Trying one length after another from the longest down finds the longest. -/
theorem longest_of_findSome? {β : Type} {f : Nat → Option β} {lo hi : Nat} {x : β}
    (h : (downTo lo hi).findSome? f = some x) :
    ∃ k, lo ≤ k ∧ k ≤ hi ∧ f k = some x ∧ ∀ j, lo ≤ j → j ≤ hi → f j ≠ none → j ≤ k := by
  obtain ⟨longer, k, shorter, hsplit, hk, hnone⟩ := List.findSome?_eq_some_iff.mp h
  have hmem : k ∈ downTo lo hi := by
    rw [hsplit]
    exact List.mem_append_right longer List.mem_cons_self
  obtain ⟨hlo, hhi⟩ := mem_downTo_iff.mp hmem
  refine ⟨k, hlo, hhi, hk, ?_⟩
  intro j hjlo hjhi hj
  have hjmem : j ∈ downTo lo hi := mem_downTo_iff.mpr ⟨hjlo, hjhi⟩
  have hsorted := downTo_pairwise lo hi
  rw [hsplit] at hjmem hsorted
  have hshorter := (List.pairwise_cons.mp (List.pairwise_append.mp hsorted).2.1).1
  rcases List.mem_append.mp hjmem with hlonger | hrest
  · exact absurd (hnone j hlonger) hj
  · rcases List.mem_cons.mp hrest with heq | hshort
    · exact heq.le
    · exact (hshorter j hshort).le

theorem endsStartsOverlap_iff_overlapsBy {a b : Text} {size : Nat}
    (hsize : size ≤ min a.length b.length) :
    endsStartsOverlap a b size = true ↔ OverlapsBy size a b := by
  rw [endsStartsOverlap_iff, overlapsBy_iff, and_iff_right hsize]

/-- What one turn of the loop answers: the join at that length, the older text first if both
    ways are open. -/
theorem mergeAt_eq_some_iff {a b merged : Text} {size : Nat}
    (hsize : size ≤ min a.length b.length) :
    mergeAt a b size = some merged ↔
      (OverlapsBy size a b ∧ merged = joined size a b) ∨
        (¬OverlapsBy size a b ∧ OverlapsBy size b a ∧ merged = joined size b a) := by
  have hsize' : size ≤ min b.length a.length := Nat.min_comm a.length b.length ▸ hsize
  rw [← endsStartsOverlap_iff_overlapsBy hsize, ← endsStartsOverlap_iff_overlapsBy hsize',
    joined, joined]
  unfold mergeAt
  split_ifs with hab hba
  · rw [Option.some.injEq, eq_comm]
    simp [hab]
  · rw [Option.some.injEq, eq_comm]
    simp [hab, hba]
  · simp [hab, hba]

theorem mergeAt_ne_none {a b : Text} {size : Nat}
    (h : OverlapsBy size a b ∨ OverlapsBy size b a) : mergeAt a b size ≠ none := by
  rw [Ne, mergeAt_eq_none_iff, not_and_or, not_not, not_not]
  refine h.imp ?_ ?_
  · intro hab
    exact (endsStartsOverlap_iff_overlapsBy (overlapsBy_iff.mp hab).1).mpr hab
  · intro hba
    exact (endsStartsOverlap_iff_overlapsBy (overlapsBy_iff.mp hba).1).mpr hba

/-! ## What a merge is -/

/-- `merged` is `a` and `b` joined on their longest overlap of three or more, `a` first on a
    tie. -/
def JoinedOnLongest (a b merged : Text) : Prop :=
  ∃ size, LongestOverlap 3 a b size ∧
    ((OverlapsBy size a b ∧ merged = joined size a b) ∨
      (¬OverlapsBy size a b ∧ OverlapsBy size b a ∧ merged = joined size b a))

theorem JoinedOnLongest.holds {a b merged : Text} (h : JoinedOnLongest a b merged) :
    a <:+: merged ∧ b <:+: merged := by
  obtain ⟨size, -, ⟨hab, rfl⟩ | ⟨-, hba, rfl⟩⟩ := h
  · exact ⟨(prefix_joined size a b).isInfix, hab.suffix_joined.isInfix⟩
  · exact ⟨hba.suffix_joined.isInfix, (prefix_joined size b a).isInfix⟩

theorem joinedOnLongest_of_loop {a b merged : Text}
    (h : (downTo 3 (min a.length b.length)).findSome? (mergeAt a b) = some merged) :
    JoinedOnLongest a b merged := by
  obtain ⟨size, hlo, hhi, hat, hlongest⟩ := longest_of_findSome? h
  have hjoin := (mergeAt_eq_some_iff hhi).mp hat
  refine ⟨size, ⟨⟨hlo, hjoin.imp And.left fun hba => hba.2.1⟩, ?_⟩, hjoin⟩
  intro k hk
  obtain ⟨hlong, hoverlap⟩ := hk
  have hkle : k ≤ min a.length b.length := by
    rcases hoverlap with hab | hba
    · exact (overlapsBy_iff.mp hab).1
    · exact Nat.min_comm b.length a.length ▸ (overlapsBy_iff.mp hba).1
  exact hlongest k hlong hkle (mergeAt_ne_none hoverlap)

/-- What is to be expected of the merge of `a` and `b`. -/
structure Merge.Sound (a b : Text) (m : Merge) : Prop where
  keeps : m.samePhrase = true → a <:+: m.merged ∧ b <:+: m.merged
  longest : m.samePhrase = true → ¬a <:+: b → ¬b <:+: a → JoinedOnLongest a b m.merged
  apart : m.samePhrase = false → Apart 3 a b ∧ m.merged = b

theorem Merge.sound_of_infix {a b : Text} (h : a <:+: b) : Merge.Sound a b ⟨b, true⟩ where
  keeps _ := ⟨h, List.infix_refl b⟩
  longest _ hin _ := absurd h hin
  apart hfalse := Bool.noConfusion hfalse

theorem Merge.sound_of_holds {a b : Text} (h : b <:+: a) : Merge.Sound a b ⟨a, true⟩ where
  keeps _ := ⟨List.infix_refl a, h⟩
  longest _ _ hholds := absurd h hholds
  apart hfalse := Bool.noConfusion hfalse

theorem Merge.sound_of_joined {a b merged : Text} (h : JoinedOnLongest a b merged) :
    Merge.Sound a b ⟨merged, true⟩ where
  keeps _ := h.holds
  longest _ _ _ := h
  apart hfalse := Bool.noConfusion hfalse

theorem Merge.sound_of_apart {a b : Text} (h : Apart 3 a b) : Merge.Sound a b ⟨b, false⟩ where
  keeps htrue := Bool.noConfusion htrue
  longest htrue := Bool.noConfusion htrue
  apart _ := ⟨h, rfl⟩

/-- **A merge loses no text**, joins on the longest overlap, and where it is none the two texts
    have neither an overlap of three nor one inside the other. -/
theorem mergePartialText_sound (previous incoming : Text) :
    Merge.Sound (normalizeJapaneseSpacing previous) (normalizeJapaneseSpacing incoming)
      (mergePartialText previous incoming) := by
  have hout := mergePartialText_outcome previous incoming
  generalize mergePartialText previous incoming = m at hout ⊢
  cases hout with
  | held h => exact Merge.sound_of_infix h
  | holds h => exact Merge.sound_of_holds h
  | joined _ _ hfind => exact Merge.sound_of_joined (joinedOnLongest_of_loop hfind)
  | apart hin hholds hfind =>
    obtain ⟨hbefore, hafter⟩ := findSome?_mergeAt_eq_none_iff.mp hfind
    exact Merge.sound_of_apart ⟨hin, hholds, hbefore, hafter⟩

end LocalMeetingStt
