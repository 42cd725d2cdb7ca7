import LocalMeetingStt.Segmenter.Model

/-!
# Where a long utterance is cut (`SpeechSegmenter.short_pause_cut`)

The cut is looked for from the end: the pauses are walked through two reversed views of the
detector's spans, and the first whose middle leaves two seconds is taken. Read forwards, that
is the latest such gap between two neighbouring spans (`shortPauseCut_eq_some_iff`), and as
the spans do not overlap, its middle is in none of them.
-/

namespace LocalMeetingStt
namespace Segmenter

variable {α : Type*}

/-- The middle of a gap, from where the spans count. -/
def middle (gap : Span × Span) : Nat := (gap.1.stop + gap.2.start) / 2

theorem middle_mem {n : Nat} {spans : List Span} (h : WellPlaced n spans) {gap : Span × Span}
    (hgap : gap ∈ gaps spans) : gap.1.stop ≤ middle gap ∧ middle gap ≤ gap.2.start := by
  have hle := (mem_gaps h hgap).1
  unfold middle
  omega

/-- No span has the middle of a gap inside it. -/
theorem middle_outside {n : Nat} {spans : List Span} (h : WellPlaced n spans)
    {gap : Span × Span} (hgap : gap ∈ gaps spans) {span : Span} (hspan : span ∈ spans) :
    span.stop ≤ middle gap ∨ middle gap ≤ span.start := by
  obtain ⟨hlow, hhigh⟩ := middle_mem h hgap
  obtain ⟨before, after⟩ := gap
  obtain ⟨front, back, rfl⟩ := gaps_split hgap
  obtain ⟨hfront, hpair, hsorted⟩ := List.pairwise_append.mp h.2
  obtain ⟨hbefore, hback⟩ := List.pairwise_cons.mp hpair
  rcases List.mem_append.mp hspan with hspan | hspan
  · -- A span before the gap is over where the one at the gap starts.
    have hover := hsorted span hspan before List.mem_cons_self
    have := (h.1 before (by simp)).1
    dsimp only at hlow
    omega
  · rcases List.mem_cons.mp hspan with rfl | hspan
    · exact .inl hlow
    · rcases List.mem_cons.mp hspan with rfl | hspan
      · exact .inr hhigh
      · have hlater := (List.pairwise_cons.mp hback).1 span hspan
        have := (h.1 after (by simp)).1
        dsimp only at hhigh
        omega

/-- A search from the end finds the latest. -/
theorem findSome?_reverse_eq_some_iff {β γ : Type*} {f : β → Option γ} {l : List β} {c : γ} :
    l.reverse.findSome? f = some c ↔
      ∃ earlier b later, l = earlier ++ b :: later ∧ f b = some c ∧ ∀ b' ∈ later, f b' = none := by
  rw [List.findSome?_eq_some_iff]
  constructor
  · rintro ⟨later, b, earlier, heq, hb, hlater⟩
    refine ⟨earlier.reverse, b, later.reverse, ?_, hb, fun b' h => hlater b' (by simpa using h)⟩
    rw [← List.reverse_reverse l, heq]
    simp
  · rintro ⟨earlier, b, later, rfl, hb, hlater⟩
    refine ⟨later.reverse, b, earlier.reverse, by simp, hb, fun b' h => ?_⟩
    exact hlater b' (by simpa using h)

/-- The cut in a gap, if it leaves two seconds before it. -/
def cutIn (start : Nat) (gap : Span × Span) : Option Nat :=
  if minSplitSamples ≤ middle gap then some (start + middle gap) else none

section

variable {cfg : Config α} {vad : Vad α} (hvad : cfg.shortPauseVad = some vad)
  (pending : List α) (start : Nat)

include hvad

theorem shortPauseCut_eq :
    shortPauseCut cfg pending start =
      if (pending.length : Int) - start < cfg.splitAfterSamples then none
      else (gaps (vad.spans (pending.drop start))).reverse.findSome? (cutIn start) := by
  unfold shortPauseCut
  rw [hvad]
  simp only [zip_reversed]
  have hcut : (fun gap : Span × Span =>
      if start + (gap.1.stop + gap.2.start) / 2 - start ≥ minSplitSamples then
        some (start + (gap.1.stop + gap.2.start) / 2) else none) = cutIn start := by
    funext gap
    rw [Nat.add_sub_cancel_left]
    rfl
  rw [← hcut]

theorem shortPauseCut_eq_some_iff {cut : Nat} :
    shortPauseCut cfg pending start = some cut ↔
      cfg.splitAfterSamples ≤ (pending.length : Int) - start ∧
      ∃ earlier gap later, gaps (vad.spans (pending.drop start)) = earlier ++ gap :: later ∧
        cutIn start gap = some cut ∧ ∀ gap' ∈ later, cutIn start gap' = none := by
  rw [shortPauseCut_eq hvad pending start]
  split_ifs with hlen
  · simp [Int.not_le.mpr hlen]
  · rw [findSome?_reverse_eq_some_iff, and_iff_right (Int.not_lt.mp hlen)]

theorem shortPauseCut_eq_none_iff :
    shortPauseCut cfg pending start = none ↔
      (pending.length : Int) - start < cfg.splitAfterSamples ∨
      ∀ gap ∈ gaps (vad.spans (pending.drop start)), cutIn start gap = none := by
  rw [shortPauseCut_eq hvad pending start]
  split_ifs with hlen
  · simp [hlen]
  · simp [hlen, List.findSome?_eq_none_iff]

end

theorem cutIn_eq_none_iff {start : Nat} {gap : Span × Span} :
    cutIn start gap = none ↔ middle gap < minSplitSamples := by
  unfold cutIn
  split_ifs with h
  · simp [h]
  · simpa using h

/-- **Where a long utterance is cut.** There is no cut while the rest is short or no pause
    leaves two seconds. Otherwise the cut is in the latest of the gaps that do, in none of
    the detector's spans, and audio is left behind it. -/
theorem shortPauseCut_latest (cfg : Config α) (vad : Vad α) (pending : List α) (start : Nat) :
    let cfg := { cfg with shortPauseVad := some vad }
    let spans := vad.spans (pending.drop start)
    (shortPauseCut cfg pending start = none ↔
      (pending.length : Int) - start < cfg.splitAfterSamples ∨
        ∀ gap ∈ gaps spans, middle gap < minSplitSamples) ∧
    ∀ cut, shortPauseCut cfg pending start = some cut →
      (∃ earlier before after later, gaps spans = earlier ++ (before, after) :: later ∧
        cut = start + middle (before, after) ∧
        start + before.stop ≤ cut ∧ cut ≤ start + after.start ∧
        ∀ gap ∈ later, middle gap < minSplitSamples) ∧
      (∀ span ∈ spans, start + span.stop ≤ cut ∨ cut ≤ start + span.start) ∧
      start + minSplitSamples ≤ cut ∧ cut < pending.length := by
  intro cfg spans
  have hplaced := vad.wellPlaced (pending.drop start)
  refine ⟨?_, fun cut hcut => ?_⟩
  · have hvad : cfg.shortPauseVad = some vad := rfl
    have hnone := shortPauseCut_eq_none_iff hvad pending start
    simpa only [cutIn_eq_none_iff] using hnone
  · obtain ⟨-, earlier, ⟨before, after⟩, later, hgaps, hin, hlater⟩ :=
      (shortPauseCut_eq_some_iff rfl pending start).mp hcut
    have hgap : (before, after) ∈ gaps spans := by
      rw [hgaps]
      exact List.mem_append_right _ List.mem_cons_self
    obtain ⟨hlow, hhigh⟩ := middle_mem hplaced hgap
    obtain ⟨-, hcut'⟩ := Option.ite_none_right_eq_some.mp hin
    obtain rfl := Option.some.inj hcut'
    refine ⟨⟨earlier, before, after, later, hgaps, rfl, ?_, ?_, ?_⟩, fun span hspan => ?_,
      shortPauseCut_bounds hcut⟩
    · exact Nat.add_le_add_left hlow start
    · exact Nat.add_le_add_left hhigh start
    · exact fun gap hmem => cutIn_eq_none_iff.mp (hlater gap hmem)
    · have := middle_outside hplaced hgap hspan
      omega

end Segmenter
end LocalMeetingStt
