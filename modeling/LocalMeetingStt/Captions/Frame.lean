import LocalMeetingStt.Captions.Normal
import LocalMeetingStt.Captions.Page

/-!
# How far back one stdout line reaches (`captions.rs`)

The page is told from which line on the transcript changed, and takes those lines down.
So the transcript a reader scrolls through is stable as far as a stdout line cannot reach:
outside a loopback stream it cannot reach any line at all, and in one it reaches the four
lines of the lookback.

`ingestLine_edit` has already followed the lookback through its branches: whatever they
decide is one `Edit`. What is left is what an edit does to a list of lines, and that the
index it marks is where it touched it.
-/

namespace LocalMeetingStt

open Transition

/-- The old lines stand, and at most one is new. -/
structure Grows (old new : List Line) : Prop where
  keeps : old <+: new
  one_line : new.length ≤ old.length + 1

/-- All lines but the last four stand; at most one line more, at most three less. -/
structure LastFour (old new : List Line) : Prop where
  keeps : new.take (old.length - 4) = old.take (old.length - 4)
  one_line : new.length ≤ old.length + 1
  three_lines : old.length ≤ new.length + 3

namespace Captions

/-! ## One edit -/

theorem Append.grows {c c' : Captions} (h : Append c c') : Grows c.lines c'.lines := by
  cases h with
  | keep => exact ⟨List.prefix_refl _, Nat.le_succ _⟩
  | push line => exact ⟨List.prefix_append _ _, by simp⟩

theorem Edit.lastFour {c c' : Captions} (h : Edit c c') : LastFour c.lines c'.lines := by
  cases h with
  | keep => exact ⟨rfl, Nat.le_succ _, Nat.le_add_right _ _⟩
  | push line =>
    refine ⟨?_, by simp, by simp; omega⟩
    rw [push_lines, List.take_append_of_le_length (by omega)]
  | replace start line hlt hfour =>
    -- The new line stands at `start`, behind what the lookback leaves alone.
    have hlen : (c.lines.take start ++ [line]).length = start + 1 := by simp; omega
    rw [replaceTail_lines]
    refine ⟨?_, by rw [hlen]; omega, by rw [hlen]; omega⟩
    rw [List.take_append_of_le_length (by simp; omega), List.take_take,
      Nat.min_eq_left (by omega)]

theorem Edit.loopbackStream {c c' : Captions} (h : Edit c c') :
    c'.loopbackStream = c.loopbackStream := by
  cases h with
  | keep => rfl
  | push line => rfl
  | replace start line _ _ =>
    unfold replaceTail
    split_ifs <;> rfl

/-- The index an edit marks, in captions of which nothing is marked yet. -/
theorem Edit.dirtyFrom {c c' : Captions} (h : Edit c c') (hclean : c.dirtyFrom = none) :
    ∀ start ∈ c'.dirtyFrom, c.lines.length ≤ start + 4 := by
  intro start hstart
  cases h with
  | keep =>
    rw [hclean] at hstart
    cases hstart
  | push line =>
    obtain rfl : c.lines.length = start := by
      simpa [Captions.push, Captions.mark, hclean] using hstart
    exact Nat.le_add_right _ _
  | replace from_ line hlt hfour =>
    unfold replaceTail at hstart
    split_ifs at hstart
    · rw [hclean] at hstart
      cases hstart
    · obtain rfl : from_ = start := by simpa [Captions.mark, hclean] using hstart
      exact hfour

/-! ## One stdout line -/

variable [UnicodeTables]

/-- Outside a loopback stream one line sets the partial or leaves it, and appends. -/
theorem ingestLine_append {c : Captions} (hc : c.loopbackStream = false) (raw now : Text) :
    ∃ c₁, (c₁ = c ∨ ∃ line, c₁ = c.setPartial line) ∧ Append c₁ (c.ingestLine raw now).1 := by
  unfold ingestLine
  split
  · exact ⟨c, .inl rfl, .keep⟩
  · dsimp only
    split
    · next text _ =>
      exact ⟨c.setPartial (stamped (cleanTranscriptText text) now), .inr ⟨_, rfl⟩, .keep⟩
    · split
      · refine ⟨c.setPartial none, .inr ⟨none, rfl⟩, ?_⟩
        simp only [setPartial_loopbackStream, hc, Bool.false_eq_true, if_false]
        exact commitUtteranceLine_append _ _ _
      · refine ⟨c, .inl rfl, ?_⟩
        simp only [hc, Bool.false_eq_true, if_false]
        split_ifs <;> dsimp only
        · exact .keep
        · exact appendPreviewLine_append c _ _
        · exact .keep

theorem ingestLine_loopbackStream (c : Captions) (raw now : Text) :
    (c.ingestLine raw now).1.loopbackStream = c.loopbackStream := by
  obtain ⟨c₁, hpartial, hedit⟩ := c.ingestLine_edit raw now
  rw [hedit.loopbackStream]
  rcases hpartial with rfl | ⟨line, rfl⟩
  · rfl
  · exact setPartial_loopbackStream c line

/-- The dialect of a job never changes. -/
theorem system_loopbackStream {loopbackStream : Bool} {c : Captions}
    (h : (system loopbackStream).Reachable c) : c.loopbackStream = loopbackStream := by
  have hinductive :
      (system loopbackStream).Inductive fun c => c.loopbackStream = loopbackStream :=
    { start := by
        rintro c rfl
        rfl
      step := by
        intro c c' _ hc hnext
        rcases hnext with ⟨raw, now, rfl⟩ | rfl
        · exact (ingestLine_loopbackStream c raw now).trans hc
        · rcases c.takeUpdate_cases with ⟨-, -, htake⟩ | htake <;> rw [htake] <;> exact hc }
  exact hinductive.reachable h

/-- The update that brings what one line changed. -/
theorem takeUpdate_ingestLine_start {c : Captions} {raw now : Text} {u : Update}
    (hclean : c.dirtyFrom = none)
    (hu : (c.ingestLine raw now).1.takeUpdate.2 = some u) : c.lines.length ≤ u.start + 4 := by
  obtain ⟨c₁, hpartial, hedit⟩ := c.ingestLine_edit raw now
  have hframe : c₁.lines = c.lines ∧ c₁.dirtyFrom = none := by
    rcases hpartial with rfl | ⟨line, rfl⟩
    · exact ⟨rfl, hclean⟩
    · exact ⟨setPartial_lines c line, (setPartial_dirtyFrom c line).trans hclean⟩
  have hfour := hedit.lastFour.three_lines
  have hdirty := hedit.dirtyFrom hframe.2
  rw [hframe.1] at hfour hdirty
  rcases (c.ingestLine raw now).1.takeUpdate_cases with ⟨-, -, htake⟩ | htake
  · rw [htake] at hu
    cases hu
  · rw [htake] at hu
    obtain rfl := Option.some.inj hu
    simp only [changes]
    cases hfrom : (c.ingestLine raw now).1.dirtyFrom with
    | none =>
      rw [Option.getD_none, Nat.min_self]
      omega
    | some start =>
      have := hdirty start hfrom
      rw [Option.getD_some]
      omega

/-- **One stdout line reaches the last four lines at most.** Outside a loopback stream it
    reaches none: the old transcript stands and one line may be new. And the update taken
    after it starts no earlier than that, if one was taken before it. -/
theorem ingestLine_reach {loopbackStream : Bool} {c : Captions}
    (h : (system loopbackStream).Reachable c) (raw now : Text) :
    (loopbackStream = false → Grows c.lines (c.ingestLine raw now).1.lines) ∧
    (loopbackStream = true → LastFour c.lines (c.ingestLine raw now).1.lines) ∧
    ∀ u, (c.takeUpdate.1.ingestLine raw now).1.takeUpdate.2 = some u →
      c.lines.length ≤ u.start + 4 := by
  have hdialect := system_loopbackStream h
  refine ⟨fun hutterances => ?_, fun _ => ?_, fun u hu => ?_⟩
  · obtain ⟨c₁, hpartial, happend⟩ := ingestLine_append (hdialect.trans hutterances) raw now
    rcases hpartial with rfl | ⟨line, rfl⟩
    · exact happend.grows
    · simpa using happend.grows
  · obtain ⟨c₁, hpartial, hedit⟩ := c.ingestLine_edit raw now
    rcases hpartial with rfl | ⟨line, rfl⟩
    · exact hedit.lastFour
    · simpa using hedit.lastFour
  · have hfresh : c.takeUpdate.1.lines = c.lines ∧ c.takeUpdate.1.dirtyFrom = none := by
      rcases c.takeUpdate_cases with ⟨hclean, -, htake⟩ | htake
      · rw [htake]
        exact ⟨rfl, hclean⟩
      · rw [htake]
        exact ⟨rfl, rfl⟩
    rw [← hfresh.1]
    exact takeUpdate_ingestLine_start hfresh.2 hu

omit [UnicodeTables] in
/-- A hypothesis of the stream that replaces the one line shown. -/
theorem ingestLine_reach_longer :
    let _ := asciiTables
    let c := ((Captions.new true).ingestLine "we start".toList "09:00:00".toList).1
    LastFour c.lines (c.ingestLine "we start now".toList "09:00:01".toList).1.lines := by
  intro _ c
  exact (ingestLine_reach (.next (.start rfl) (.inl ⟨"we start".toList, "09:00:00".toList, rfl⟩))
    "we start now".toList "09:00:01".toList).2.1 rfl

end Captions

end LocalMeetingStt
