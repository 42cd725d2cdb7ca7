import LocalMeetingStt.Captions.Frame
import LocalMeetingStt.Captions.Lookback
import LocalMeetingStt.Lib.Windows

/-!
# An unrelated hypothesis (`captions.rs`, the loopback stream)

Every line of the loopback stream is a hypothesis that may repeat, extend or correct what is
shown, and a line that has nothing to do with it is a new caption. What the lookback takes
for "nothing to do" is more than that the compact keys do not overlap
(`commitLoopbackLine_appends_iff`): the overlap that makes two keys one phrase is 45 percent
of the shorter, rounded down, so that no overlap at all is enough between keys of which one
has one or two characters, and the texts are compared as well, punctuation included.
-/

namespace LocalMeetingStt

open Captions Windows Transition

/-! ## The comparisons, spelled out -/

theorem endsStartsOverlap_iff {a b : Text} {size : Nat} :
    endsStartsOverlap a b size = true ↔ a.drop (a.length - size) = b.take size := by
  rw [endsStartsOverlap, beq_iff_eq]

/-- Trying every length from the longest down to `n` finds an overlap if there is one. -/
theorem exists_overlap_iff {n : Nat} {a b : Text} :
    (∃ size ∈ downTo n (min a.length b.length), endsStartsOverlap a b size = true) ↔
      Overlaps n a b := by
  simp only [mem_downTo_iff, endsStartsOverlap_iff, overlaps_iff, and_assoc]

theorem compactOverlapLength_eq_zero {a b : Text} (h : ¬Overlaps 4 a b) :
    compactOverlapLength a b = 0 := by
  simp only [compactOverlapLength]
  rw [List.find?_eq_none.mpr, Option.getD_none]
  intro size hsize hoverlap
  exact h (exists_overlap_iff.mp ⟨size, hsize, hoverlap⟩)

/-- A text without its whitespace. -/
def stripped (t : Text) : Text := t.filter fun c => !isWhitespace c

theorem mergeAt_eq_none_iff {a b : Text} {size : Nat} :
    mergeAt a b size = none ↔
      ¬endsStartsOverlap a b size = true ∧ ¬endsStartsOverlap b a size = true := by
  unfold mergeAt
  split_ifs with hab hba <;> simp [*]

theorem findSome?_mergeAt_eq_none_iff {a b : Text} :
    (downTo 3 (min a.length b.length)).findSome? (mergeAt a b) = none ↔
      ¬Overlaps 3 a b ∧ ¬Overlaps 3 b a := by
  rw [List.findSome?_eq_none_iff, ← exists_overlap_iff, ← exists_overlap_iff,
    Nat.min_comm b.length]
  simp only [mergeAt_eq_none_iff, not_exists, not_and]
  exact ⟨fun h => ⟨fun size hsize => (h size hsize).1, fun size hsize => (h size hsize).2⟩,
    fun h size hsize => ⟨h.1 size hsize, h.2 size hsize⟩⟩

/-- Two texts are no one phrase exactly when they are apart, overlaps of three counted. -/
theorem samePhrase_eq_false_iff {a b : Text} (ha : SpaceNormal a) (hb : SpaceNormal b) :
    (mergePartialText a b).samePhrase = false ↔ Apart 3 a b := by
  have hout := ha.mergeOutcome hb
  generalize mergePartialText a b = m at hout
  cases hout with
  | held h => exact ⟨Bool.noConfusion, fun hapart => absurd h hapart.not_in⟩
  | holds h => exact ⟨Bool.noConfusion, fun hapart => absurd h hapart.not_holds⟩
  | joined _ _ hfind =>
    refine ⟨Bool.noConfusion, fun hapart => ?_⟩
    rw [findSome?_mergeAt_eq_none_iff.mpr ⟨hapart.not_before, hapart.not_after⟩] at hfind
    cases hfind
  | apart hin hholds hfind =>
    obtain ⟨hbefore, hafter⟩ := findSome?_mergeAt_eq_none_iff.mp hfind
    exact ⟨fun _ => ⟨hin, hholds, hbefore, hafter⟩, fun _ => rfl⟩

/-- They do not look related exactly when they are apart without their whitespace as well,
    overlaps of four counted. -/
theorem partialLooksRelated_eq_false_iff {a b : Text} (ha : SpaceNormal a) (hb : SpaceNormal b)
    (hane : a ≠ []) (hbne : b ≠ []) :
    partialLooksRelated a b = false ↔
      ¬a <:+: b ∧ ¬b <:+: a ∧ Apart 4 (stripped a) (stripped b) := by
  have hany : ∀ x y : Text, ((downTo 4 (min x.length y.length)).any fun size =>
      endsStartsOverlap x y size || endsStartsOverlap y x size) = false ↔
      ¬Overlaps 4 x y ∧ ¬Overlaps 4 y x := by
    intro x y
    rw [← exists_overlap_iff, ← exists_overlap_iff, Nat.min_comm y.length]
    simp only [List.any_eq_false, Bool.or_eq_true, not_or, not_exists, not_and]
    exact ⟨fun h => ⟨fun size hsize => (h size hsize).1, fun size hsize => (h size hsize).2⟩,
      fun h size hsize => ⟨h.1 size hsize, h.2 size hsize⟩⟩
  have heq : partialLooksRelated a b =
      if a.isEmpty || b.isEmpty || contains a b || contains b a then true
      else if contains (stripped a) (stripped b) || contains (stripped b) (stripped a) then true
      else (downTo 4 (min (stripped a).length (stripped b).length)).any fun size =>
        endsStartsOverlap (stripped a) (stripped b) size ||
          endsStartsOverlap (stripped b) (stripped a) size := by
    unfold partialLooksRelated
    rw [ha.normalize, hb.normalize]
    rfl
  rw [heq]
  split_ifs with hwhole hstripped
  · simp only [Bool.or_eq_true, List.isEmpty_iff, hane, hbne, false_or, contains,
      decide_eq_true_eq] at hwhole
    refine iff_of_false (by simp) fun h => ?_
    exact hwhole.elim h.2.1 h.1
  · simp only [Bool.or_eq_true, contains, decide_eq_true_eq] at hstripped
    refine iff_of_false (by simp) fun h => ?_
    exact hstripped.elim h.2.2.not_holds h.2.2.not_in
  · simp only [Bool.or_eq_true, not_or, contains, decide_eq_true_eq] at hwhole hstripped
    rw [hany]
    exact ⟨fun h => ⟨hwhole.2, hwhole.1.2, hstripped.2, hstripped.1, h.1, h.2⟩,
      fun h => ⟨h.2.2.not_before, h.2.2.not_after⟩⟩

section

variable [UnicodeTables]

/-! ## When the lookback lets a line through -/

omit [UnicodeTables] in
theorem textVerdict_eq_none_iff {start : Nat} {tail value : Text} (htail : SpaceNormal tail)
    (hvalue : SpaceNormal value) (htne : tail ≠ []) (hvne : value ≠ []) :
    textVerdict start tail value = none ↔
      Apart 3 tail value ∧ Apart 4 (stripped tail) (stripped value) := by
  have hnone : textVerdict start tail value = none ↔
      (mergePartialText tail value).samePhrase = false ∧
        partialLooksRelated tail value = false := by
    simp only [textVerdict]
    split_ifs with h
    · simp only [Bool.or_eq_true] at h
      rcases h with h | h <;> simp [h]
    · simp only [Bool.or_eq_true, not_or, Bool.not_eq_true] at h
      simp [h]
  rw [hnone, samePhrase_eq_false_iff htail hvalue,
    partialLooksRelated_eq_false_iff htail hvalue htne hvne]
  exact ⟨fun h => ⟨h.1, h.2.2.2⟩, fun h => ⟨h.1, h.1.not_in, h.1.not_holds, h.2⟩⟩

omit [UnicodeTables] in
/-- Unrelated keys settle nothing, unless one of them is very short. -/
theorem keyVerdict_eq_none_iff {start : Nat} {tailKey valueKey : Text}
    (h : Apart 1 tailKey valueKey) :
    keyVerdict start tailKey valueKey = none ↔ 3 ≤ tailKey.length ∧ 3 ≤ valueKey.length := by
  have hoverlap := compactOverlapLength_eq_zero (a := tailKey) (b := valueKey)
    fun hlong => h.not_before (hlong.mono (by omega))
  have htail : tailKey.isEmpty = false := by simpa using h.left_ne_nil
  have hvalue : valueKey.isEmpty = false := by simpa using h.right_ne_nil
  have hholds : contains tailKey valueKey = false := by simpa [contains] using h.not_holds
  have hin : contains valueKey tailKey = false := by simpa [contains] using h.not_in
  simp only [keyVerdict, htail, hvalue, hholds, hin, hoverlap, Bool.not_false, Bool.and_self,
    if_true, Bool.false_eq_true, if_false]
  split_ifs with hshort
  · refine iff_of_false (by simp) ?_
    omega
  · refine iff_of_true rfl ?_
    omega

/-- What is compared with the new text: the last `count` lines, joined. -/
def lastJoined (lines : List Line) (count : Nat) : Text :=
  (lines.drop (lines.length - count)).flatMap (·.text)

/-- How a new text must differ from the shown lines for the lookback to let it through: longer
    keys than two characters, and texts that are apart, punctuation and all. -/
structure PlainlyNew (joined value : Text) : Prop where
  joined_key : 3 ≤ (compactTranscriptKey joined).length
  value_key : 3 ≤ (compactTranscriptKey value).length
  texts : Apart 3 joined value
  words : Apart 4 (stripped joined) (stripped value)

theorem stepVerdict_eq_none_iff {start : Nat} {tail value : Text} (htail : SpaceNormal tail)
    (hvalue : SpaceNormal value) (htne : tail ≠ []) (hvne : value ≠ [])
    (h : Apart 1 (compactTranscriptKey tail) (compactTranscriptKey value)) :
    stepVerdict start tail value = none ↔ PlainlyNew tail value := by
  unfold stepVerdict
  have hempty : tail.isEmpty = false := by simpa using htne
  simp only [hempty, Bool.false_eq_true, if_false]
  split_ifs with hshown hlonger
  · refine iff_of_false (by simp) fun hnew => hnew.texts.not_holds ?_
    simp only [Bool.or_eq_true, beq_iff_eq, contains, decide_eq_true_eq] at hshown
    rcases hshown with rfl | hshown
    · exact List.infix_refl _
    · exact hshown
  · refine iff_of_false (by simp) fun hnew => hnew.texts.not_in ?_
    simpa [contains] using hlonger
  · rw [Option.or_eq_none_iff, keyVerdict_eq_none_iff h,
      textVerdict_eq_none_iff htail hvalue htne hvne]
    exact ⟨fun h => ⟨h.1.1, h.1.2, h.2.1, h.2.2⟩,
      fun h => ⟨⟨h.joined_key, h.value_key⟩, h.texts, h.words⟩⟩

theorem spaceNormal_lastJoined {c : Captions} {loopbackStream : Bool}
    (h : (system loopbackStream).Reachable c) (count : Nat) :
    SpaceNormal (lastJoined c.lines count) := by
  refine spaceNormal_flatMap fun line hline => ?_
  exact (captions_spaceNormal h line
    (List.mem_append_left _ (List.mem_of_mem_drop hline))).1

/-- **An unrelated line becomes a new last line, and all others stand, exactly when it is
    plainly new** beside each of the joined lines the lookback compares it with. -/
theorem commitLoopbackLine_appends_iff (hnil : UnicodeTables.toLowercase [] = [])
    {c : Captions} (h : (system true).Reachable c) {text now : Text} {line : Line}
    (hline : stamped (cleanTranscriptText text) now = some line)
    (hsurvives : Survives text line.text)
    (hunrelated : ∀ count, 1 ≤ count → count ≤ min c.lines.length 4 →
      Apart 1 (compactTranscriptKey (lastJoined c.lines count))
        (compactTranscriptKey line.text)) :
    (c.commitLoopbackLine text now).lines = c.lines ++ [line] ↔
      ∀ count, 1 ≤ count → count ≤ min c.lines.length 4 →
        PlainlyNew (lastJoined c.lines count) line.text := by
  rw [commitLoopbackLine_lines hline hsurvives, apply_eq_append_iff, verdict_eq_append_iff]
  refine forall_congr' fun count => forall_congr' fun hlo => forall_congr' fun hhi => ?_
  have hnormal := spaceNormal_lastJoined h count
  have htail : tailText c.lines (c.lines.length - count) = lastJoined c.lines count :=
    hnormal.normalize
  have hne : lastJoined c.lines count ≠ [] := by
    intro hempty
    have hkey : compactTranscriptKey [] = [] := hnil
    have := (hunrelated count hlo hhi).left_ne_nil
    rw [hempty, hkey] at this
    exact this rfl
  rw [htail]
  exact stepVerdict_eq_none_iff hnormal (spaceNormal_of_stamped_clean hline) hne hsurvives.said
    (hunrelated count hlo hhi)

end

/-- To decide by trying the lengths. -/
theorem apart_of_decide {n : Nat} {a b : Text} (hin : ¬a <:+: b) (hholds : ¬b <:+: a)
    (hbefore : ¬∃ size ∈ downTo n (min a.length b.length), endsStartsOverlap a b size = true)
    (hafter : ¬∃ size ∈ downTo n (min b.length a.length), endsStartsOverlap b a size = true) :
    Apart n a b :=
  ⟨hin, hholds, fun h => hbefore (exists_overlap_iff.mpr h),
    fun h => hafter (exists_overlap_iff.mpr h)⟩

theorem commitLoopbackLine_appends_iff_budget :
    let _ := asciiTables
    let c := ((Captions.new true).ingestLine "good morning".toList "10:00:00".toList).1
    (c.commitLoopbackLine "budget report".toList "10:00:01".toList).lines =
      c.lines ++ [⟨"10:00:01".toList, "budget report".toList⟩] := by
  intro _ c
  have hlen : c.lines.length = 1 := by decide
  refine (@commitLoopbackLine_appends_iff asciiTables rfl c (.next (.start rfl)
    (.inl ⟨_, _, rfl⟩)) _ _ _ (by decide) ⟨by decide, by decide, by decide, by decide, by decide⟩
    ?_).mpr ?_
  · intro count hlo hhi
    obtain rfl : count = 1 := by omega
    exact apart_of_decide (by decide) (by decide) (by decide) (by decide)
  · intro count hlo hhi
    obtain rfl : count = 1 := by omega
    exact ⟨by decide, by decide, apart_of_decide (by decide) (by decide) (by decide) (by decide),
      apart_of_decide (by decide) (by decide) (by decide) (by decide)⟩

/-- **A short caption is replaced by whatever comes next**: "あい" by "う", which shares no
    character with it. -/
theorem short_caption_replaced :
    let _ := asciiTables
    let c := ((Captions.new true).ingestLine "あい".toList "10:00:00".toList).1
    (system true).Reachable c ∧ Survives "う".toList "う".toList ∧
      (∀ count, 1 ≤ count → count ≤ min c.lines.length 4 →
        Apart 1 (compactTranscriptKey (lastJoined c.lines count))
          (compactTranscriptKey "う".toList)) ∧
      (c.commitLoopbackLine "う".toList "10:00:01".toList).lines ≠
        c.lines ++ [⟨"10:00:01".toList, "う".toList⟩] := by
  intro _ c
  have hlen : c.lines.length = 1 := by decide
  refine ⟨.next (.start rfl) (.inl ⟨_, _, rfl⟩),
    ⟨by decide, by decide, by decide, by decide, by decide⟩, ?_, by decide⟩
  intro count hlo hhi
  obtain rfl : count = 1 := by omega
  exact apart_of_decide (by decide) (by decide) (by decide) (by decide)

end LocalMeetingStt
