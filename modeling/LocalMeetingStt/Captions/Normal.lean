import LocalMeetingStt.Captions.Cleaning
import LocalMeetingStt.Captions.State
import LocalMeetingStt.Lib.Transition

/-!
# Every caption is space-normal (`captions.rs`)

One pass of `normalize_japanese_spacing` may leave a gap behind, and the three dialects
normalize a text once, twice or three times, with the repetition collapser and the merge
of two phrases in between. What reaches a line has always gone through `stamped`, and
`stamped` is given a text that an earlier pass has already spaced, or one that was normal.

`Makes` lists what a line can be made of; `makes_normal` goes through the list, and the
merge is the only entry that needs the lines to be normal already. So the invariant is
about all lines at once.
-/

namespace LocalMeetingStt

open Transition

/-! ## Texts put together from normal ones

Every rule of spacing looks at three characters at most. -/

/-- A text is normal when its ends are, and each short window of it stands in a normal
    text. -/
theorem SpaceNormal.of_windows {t : Text} (hhead : Flush t) (hlast : Closed t)
    (h : ∀ w : Text, w.length ≤ 3 → w <:+: t → ∃ s, SpaceNormal s ∧ w <:+: s) :
    SpaceNormal t where
  head := hhead
  last := hlast
  plain c hc := by
    obtain ⟨s, hs, hw⟩ := h [c] (by simp) ((List.singleton_infix_iff c t).mpr hc)
    exact hs.plain c ((List.singleton_infix_iff c s).mp hw)
  single s c hw := by
    obtain ⟨s, hs, hw⟩ := h [s, c] (by simp) hw
    exact hs.single _ c hw
  before_mark s p hw := by
    obtain ⟨s, hs, hw⟩ := h [s, p] (by simp) hw
    exact hs.before_mark _ p hw
  after_opener o s hw := by
    obtain ⟨t, ht, hw⟩ := h [o, s] (by simp) hw
    exact ht.after_opener o s hw
  kana a s b hw := by
    obtain ⟨t, ht, hw⟩ := h [a, s, b] (by simp) hw
    exact ht.kana a s b hw

theorem spaceNormal_nil : SpaceNormal [] := ⟨spaced_nil, fun _ _ _ h => by simp at h⟩

theorem Flush.append {a : Text} (h : Flush a) (hne : a ≠ []) (b : Text) : Flush (a ++ b) := by
  obtain ⟨x, xs, rfl⟩ := List.exists_cons_of_ne_nil hne
  intro c r hcr
  obtain ⟨rfl, -⟩ := List.cons_eq_cons.mp hcr
  exact h x xs rfl

theorem Closed.append {b : Text} (h : Closed b) (hne : b ≠ []) (a : Text) : Closed (a ++ b) := by
  intro c hc
  rw [List.getLast?_append_of_ne_nil _ hne] at hc
  exact h c hc

theorem Closed.of_suffix {t s : Text} (h : Closed t) (hs : s <:+ t) : Closed s := by
  intro c hc
  obtain ⟨before, rfl⟩ := hs
  apply h c
  rw [List.getLast?_append, hc]
  rfl

theorem SpaceNormal.of_suffix {t s : Text} (h : SpaceNormal t) (hs : s <:+ t)
    (hflush : Flush s) : SpaceNormal s :=
  .of_windows hflush (h.last.of_suffix hs) fun _ _ hw => ⟨t, h, hw.trans hs.isInfix⟩

theorem not_closed_of_suffix {a l : Text} {s : Char} (ha : Closed a) (h : l ++ [s] <:+ a) :
    isWhitespace s = false := by
  obtain ⟨before, rfl⟩ := h
  apply ha s
  rw [← List.append_assoc, List.getLast?_concat]

/-- Whitespace stands in one of the two texts with its neighbours. -/
theorem window_of_append {a b l r : Text} {s : Char} (ha : Closed a) (hb : Flush b)
    (hl : l.length ≤ 1) (hr : r.length ≤ 1) (hs : isWhitespace s = true)
    (h : l ++ s :: r <:+: a ++ b) : l ++ s :: r <:+: a ∨ l ++ s :: r <:+: b := by
  rcases List.infix_append_iff_ne_nil.mp h with h | h | ⟨u, v, hu, hv, heq, hua, hvb⟩
  · exact Or.inl h
  · exact Or.inr h
  · exfalso
    have hspace : isWhitespace s = false := by
      rcases List.append_eq_append_iff.mp heq with ⟨before, rfl, hrest⟩ | ⟨after, rfl, hrest⟩
      · cases before with
        | nil =>
          -- The whitespace begins the second text.
          obtain ⟨rest, rfl⟩ := hvb
          rw [List.nil_append] at hrest
          subst hrest
          exact hb s (r ++ rest) rfl
        | cons c before =>
          -- It ends the first.
          obtain ⟨rfl, rfl⟩ := List.cons_eq_cons.mp hrest
          have hnil : before = [] := by
            have := List.length_pos_iff.mpr hv
            have hr : (before ++ v).length ≤ 1 := hr
            rw [List.length_append] at hr
            exact List.eq_nil_of_length_eq_zero (by omega)
          subst hnil
          exact not_closed_of_suffix ha hua
      · have hnil : after = [] := by
          have := List.length_pos_iff.mpr hu
          simp only [List.length_append] at hl
          exact List.eq_nil_of_length_eq_zero (by omega)
        subst hnil
        obtain ⟨rest, rfl⟩ := hvb
        rw [List.nil_append] at hrest
        subst hrest
        exact hb s (r ++ rest) rfl
    rw [hs] at hspace
    cases hspace

/-- No gap arises where two normal texts meet, since neither has whitespace there. -/
theorem SpaceNormal.append {a b : Text} (ha : SpaceNormal a) (hb : SpaceNormal b) :
    SpaceNormal (a ++ b) := by
  by_cases hane : a = []
  · subst hane
    exact hb
  by_cases hbne : b = []
  · subst hbne
    rw [List.append_nil]
    exact ha
  have hwindow : ∀ {l r : Text} {s : Char}, l.length ≤ 1 → r.length ≤ 1 →
      isWhitespace s = true → l ++ s :: r <:+: a ++ b →
      ∃ t, SpaceNormal t ∧ l ++ s :: r <:+: t := by
    intro l r s hl hr hs h
    rcases window_of_append ha.last hb.head hl hr hs h with h | h
    · exact ⟨a, ha, h⟩
    · exact ⟨b, hb, h⟩
  refine ⟨⟨ha.head.append hane b, hb.last.append hbne a, ?_, ?_, ?_, ?_⟩, ?_⟩
  · intro c hc hs
    rcases List.mem_append.mp hc with hc | hc
    · exact ha.plain c hc hs
    · exact hb.plain c hc hs
  · intro s c hw hs
    obtain ⟨t, ht, hw⟩ := hwindow (l := []) (r := [c]) (Nat.zero_le 1) (Nat.le_refl 1) hs hw
    exact ht.single s c hw hs
  · intro s p hw hs
    obtain ⟨t, ht, hw⟩ := hwindow (l := []) (r := [p]) (Nat.zero_le 1) (Nat.le_refl 1) hs hw
    exact ht.before_mark s p hw hs
  · intro o s hw ho
    by_contra hs
    rw [Bool.not_eq_false] at hs
    obtain ⟨t, ht, hw⟩ := hwindow (l := [o]) (r := []) (Nat.le_refl 1) (Nat.zero_le 1) hs hw
    exact absurd hs (by rw [ht.after_opener o s hw ho]; exact Bool.false_ne_true)
  · intro x s y hw hx hs
    obtain ⟨t, ht, hw⟩ := hwindow (l := [x]) (r := [y]) (Nat.le_refl 1) (Nat.le_refl 1) hs hw
    exact ht.kana x s y hw hx hs

theorem spaceNormal_flatMap {lines : List Line} (h : ∀ line ∈ lines, SpaceNormal line.text) :
    SpaceNormal (lines.flatMap (·.text)) := by
  induction lines with
  | nil => exact spaceNormal_nil
  | cons line lines ih =>
    rw [List.flatMap_cons]
    apply (h line List.mem_cons_self).append
    exact ih fun next hnext => h next (List.mem_cons_of_mem _ hnext)

/-! ## Merging two phrases -/

/-- How the merge of two phrases ends: one holds the other, the loop finds a length at which
    they overlap, or it finds none. -/
inductive MergeOutcome (a b : Text) : Merge → Prop
  | held (h : a <:+: b) : MergeOutcome a b ⟨b, true⟩
  | holds (h : b <:+: a) : MergeOutcome a b ⟨a, true⟩
  | joined {merged : Text} (hin : ¬a <:+: b) (hholds : ¬b <:+: a)
      (hfind : (downTo 3 (min a.length b.length)).findSome? (mergeAt a b) =
        some merged) : MergeOutcome a b ⟨merged, true⟩
  | apart (hin : ¬a <:+: b) (hholds : ¬b <:+: a)
      (hfind : (downTo 3 (min a.length b.length)).findSome? (mergeAt a b) = none) :
      MergeOutcome a b ⟨b, false⟩

theorem mergePartialText_outcome (previous incoming : Text) :
    MergeOutcome (normalizeJapaneseSpacing previous) (normalizeJapaneseSpacing incoming)
      (mergePartialText previous incoming) := by
  unfold mergePartialText
  generalize normalizeJapaneseSpacing previous = a
  generalize normalizeJapaneseSpacing incoming = b
  simp only [contains, List.isEmpty_iff, decide_eq_true_eq]
  by_cases hanil : a = []
  · rw [if_pos hanil, hanil]
    exact .held List.nil_infix
  rw [if_neg hanil]
  by_cases hbnil : b = []
  · rw [if_pos hbnil, hbnil]
    exact .holds List.nil_infix
  rw [if_neg hbnil]
  by_cases hin : a <:+: b
  · rw [if_pos hin]
    exact .held hin
  rw [if_neg hin]
  by_cases hholds : b <:+: a
  · rw [if_pos hholds]
    exact .holds hholds
  rw [if_neg hholds]
  cases hfind : (downTo 3 (min a.length b.length)).findSome? (mergeAt a b) with
  | some merged => exact .joined hin hholds hfind
  | none => exact .apart hin hholds hfind

/-- Normal phrases are merged as they are. -/
theorem SpaceNormal.mergeOutcome {a b : Text} (ha : SpaceNormal a) (hb : SpaceNormal b) :
    MergeOutcome a b (mergePartialText a b) := by
  have hout := mergePartialText_outcome a b
  rwa [ha.normalize, hb.normalize] at hout

/-- A window no longer than the overlap stands in one of the two phrases. -/
theorem window_of_overlap {a b w : Text} {size : Nat} (hoverlap : endsStartsOverlap a b size = true)
    (hlen : w.length ≤ size) (h : w <:+: a ++ b.drop size) : w <:+: a ∨ w <:+: b := by
  rcases List.infix_append_iff_ne_nil.mp h with h | h | ⟨u, v, -, hv, rfl, hu, hv'⟩
  · exact Or.inl h
  · exact Or.inr (h.trans (List.drop_suffix size b).isInfix)
  · right
    have hend : a.drop (a.length - size) = b.take size := beq_iff_eq.mp hoverlap
    have hu : u <:+ b.take size := by
      rw [← hend]
      refine List.suffix_of_suffix_length_le hu (List.drop_suffix _ a) ?_
      have := hu.length_le
      simp only [List.length_append] at hlen
      rw [List.length_drop]
      omega
    obtain ⟨before, hbefore⟩ := hu
    obtain ⟨after, hafter⟩ := hv'
    refine ⟨before, after, ?_⟩
    calc before ++ (u ++ v) ++ after = (before ++ u) ++ (v ++ after) := by
          simp only [List.append_assoc]
      _ = b := by rw [hbefore, hafter, List.take_append_drop]

/-- Two normal phrases that share at least three characters make a normal one. -/
theorem SpaceNormal.overlap {a b : Text} {size : Nat} (ha : SpaceNormal a) (hb : SpaceNormal b)
    (hsize : 3 ≤ size) (hle : size ≤ a.length) (hoverlap : endsStartsOverlap a b size = true) :
    SpaceNormal (a ++ b.drop size) := by
  have hane : a ≠ [] := by
    rintro rfl
    simp only [List.length_nil] at hle
    omega
  apply SpaceNormal.of_windows
  · exact ha.head.append hane _
  · by_cases hrest : b.drop size = []
    · rw [hrest, List.append_nil]
      exact ha.last
    · exact (hb.last.of_suffix (List.drop_suffix size b)).append hrest a
  · intro w hw hwindow
    rcases window_of_overlap hoverlap (Nat.le_trans hw hsize) hwindow with h | h
    · exact ⟨a, ha, h⟩
    · exact ⟨b, hb, h⟩

theorem spaceNormal_mergeAt {a b merged : Text} {size : Nat} (ha : SpaceNormal a)
    (hb : SpaceNormal b) (hsize : 3 ≤ size) (hle : size ≤ min a.length b.length)
    (h : mergeAt a b size = some merged) : SpaceNormal merged := by
  unfold mergeAt at h
  split_ifs at h with hab hba
  · rw [← Option.some.inj h]
    exact ha.overlap hb hsize (Nat.le_trans hle (Nat.min_le_left _ _)) hab
  · rw [← Option.some.inj h]
    exact hb.overlap ha hsize (Nat.le_trans hle (Nat.min_le_right _ _)) hba

theorem spaceNormal_mergePartialText {a b : Text} (ha : SpaceNormal a) (hb : SpaceNormal b) :
    SpaceNormal (mergePartialText a b).merged := by
  have hout := ha.mergeOutcome hb
  generalize mergePartialText a b = m at hout
  cases hout with
  | held => exact hb
  | holds => exact ha
  | joined _ _ hfind =>
    obtain ⟨size, hmem, hmerge⟩ := List.exists_of_findSome?_eq_some hfind
    obtain ⟨hlo, hhi⟩ := Captions.mem_downTo_iff.mp hmem
    exact spaceNormal_mergeAt ha hb hlo hhi hmerge
  | apart => exact hb

/-! ## Stamped lines -/

section

variable [UnicodeTables]

theorem stampPrefix_suffix {t time rest : Text} (h : stampPrefix t = some (time, rest)) :
    rest <:+ t := by
  unfold stampPrefix at h
  split at h
  · next h₁ h₂ m₁ m₂ s₁ s₂ after =>
    split_ifs at h
    obtain ⟨-, rfl⟩ := Prod.mk.inj (Option.some.inj h)
    exact ⟨['[', h₁, h₂, ':', m₁, m₂, ':', s₁, s₂, ']'], rfl⟩
  · cases h

/-- A stamped line keeps the end of the spaced text. -/
theorem spaceNormal_stamped {t now : Text} {line : Line}
    (ht : SpaceNormal (normalizeJapaneseSpacing t)) (h : stamped t now = some line) :
    SpaceNormal line.text := by
  simp only [stamped] at h
  split_ifs at h
  split at h
  · next time rest hstamp =>
    rw [← Option.some.inj h]
    have hsuffix := (List.dropWhile_suffix isWhitespace).trans (stampPrefix_suffix hstamp)
    exact ht.of_suffix hsuffix (flush_dropWhile rest)
  · rw [← Option.some.inj h]
    exact ht

namespace Captions

/-- What lines can be made of is normal, if they are. -/
theorem makes_normal {lines : List Line} (h : ∀ line ∈ lines, SpaceNormal line.text)
    (now : Text) : Makes (fun line => SpaceNormal line.text) lines now where
  cleaned text _ := spaceNormal_stamped (spaceNormal_normalize_clean text)
  spaced text _ :=
    spaceNormal_stamped (spaceNormal_normalize (spaced_normalize text) (noDoubleGap_normalize text))
  merged start line line' hline := by
    have hjoined : SpaceNormal ((lines.drop start).flatMap (·.text)) :=
      spaceNormal_flatMap fun next hnext => h next (List.mem_of_mem_drop hnext)
    have htail : SpaceNormal (tailText lines start) := by
      unfold tailText
      rw [hjoined.normalize]
      exact hjoined
    have hvalue : SpaceNormal (normalizeJapaneseSpacing line.text) := by
      rw [hline.normalize]
      exact hline
    have hmerged := spaceNormal_mergePartialText htail hvalue
    apply spaceNormal_stamped
    rw [hmerged.normalize]
    exact hmerged

/-- Every text the captions hold is normal. -/
structure Normal (c : Captions) : Prop where
  lines : ∀ line ∈ c.lines, SpaceNormal line.text
  partialLine : ∀ line ∈ c.partialLine, SpaceNormal line.text

omit [UnicodeTables] in
theorem Normal.editBy {c c' : Captions} (h : c.Normal)
    (hedit : EditBy (fun line => SpaceNormal line.text) c c') : c'.Normal := by
  cases hedit with
  | keep => exact h
  | push line hline =>
    refine ⟨?_, h.partialLine⟩
    intro next hnext
    rcases List.mem_append.mp hnext with hnext | hnext
    · exact h.lines next hnext
    · rw [List.mem_singleton.mp hnext]
      exact hline
  | replace start line hline _ _ =>
    unfold replaceTail
    split_ifs
    · exact h
    · refine ⟨?_, h.partialLine⟩
      intro next hnext
      rcases List.mem_append.mp hnext with hnext | hnext
      · exact h.lines next (List.mem_of_mem_take hnext)
      · rw [List.mem_singleton.mp hnext]
        exact hline

theorem Normal.ingestLine {c : Captions} (h : c.Normal) (raw now : Text) :
    (c.ingestLine raw now).1.Normal := by
  obtain ⟨c₁, hpartial, hedit⟩ := ingestLine_editBy (makes_normal h.lines now) raw
  refine Normal.editBy ?_ hedit
  rcases hpartial with rfl | ⟨line, rfl, hline⟩
  · exact h
  · refine ⟨?_, ?_⟩
    · rw [setPartial_lines]
      exact h.lines
    · rw [setPartial_partialLine]
      exact hline

omit [UnicodeTables] in
theorem Normal.takeUpdate {c : Captions} (h : c.Normal) : c.takeUpdate.1.Normal := by
  unfold Captions.takeUpdate
  split_ifs
  · exact h
  · exact ⟨h.lines, h.partialLine⟩

/-- The captions of a job: lines of its output and updates taken, in any order. -/
def system (loopbackStream : Bool) : System Captions where
  init c := c = .new loopbackStream
  next c c' := (∃ raw now, c' = (c.ingestLine raw now).1) ∨ c' = c.takeUpdate.1

/-- **Every caption is space-normal**, in whatever dialect and order its lines came: the text
    of each line and of the partial, and each is a fixed point of the spacing. -/
theorem captions_spaceNormal {loopbackStream : Bool} {c : Captions}
    (h : (system loopbackStream).Reachable c) :
    ∀ line ∈ c.lines ++ c.partialLine.toList,
      SpaceNormal line.text ∧ normalizeJapaneseSpacing line.text = line.text := by
  have hinductive : (system loopbackStream).Inductive Normal :=
    { start := by
        rintro s rfl
        exact ⟨fun line hline => absurd hline List.not_mem_nil, fun line hline => by cases hline⟩
      step := by
        intro s s' _ hs hnext
        rcases hnext with ⟨raw, now, rfl⟩ | rfl
        · exact hs.ingestLine raw now
        · exact hs.takeUpdate }
  have hnormal := hinductive.reachable h
  intro line hline
  have hline : SpaceNormal line.text := by
    rcases List.mem_append.mp hline with hline | hline
    · exact hnormal.lines line hline
    · exact hnormal.partialLine line (Option.mem_toList.mp hline)
  exact ⟨hline, hline.normalize⟩

omit [UnicodeTables] in
/-- A final with three gaps in a row, of which one pass leaves the middle one. -/
theorem captions_spaceNormal_gaps :
    let c := (@ingestLine asciiTables (.new false) "@@FINAL\tあ い う え".toList "09:00:00".toList).1
    ∀ line ∈ c.lines ++ c.partialLine.toList,
      SpaceNormal line.text ∧ normalizeJapaneseSpacing line.text = line.text :=
  @captions_spaceNormal asciiTables false _
    (.next (.start rfl) (Or.inl ⟨"@@FINAL\tあ い う え".toList, "09:00:00".toList, rfl⟩))

end Captions

end

end LocalMeetingStt
