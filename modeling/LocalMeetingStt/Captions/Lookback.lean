import LocalMeetingStt.Captions.Normal

/-!
# The lookback as a decision (`captions.rs`, `append_or_merge_final_line`)

The lookback loop compares the new line with the last four lines joined, the last three, and
so on, until one of the comparisons settles it. What it compares are texts; the clock, the
marks and the edit itself do not enter. `verdict` is that decision alone, a function of the
shown lines and the new text, and `Verdict.apply` is what each decision does to the lines.

`commitLoopbackLine_lines` says that the two together are the code. What is said about the
loopback stream afterwards is said about verdicts.
-/

namespace LocalMeetingStt

open Captions

/-- What a final line does to the lines that are shown. -/
inductive Verdict where
  /-- What is shown says it already. -/
  | shown
  /-- The new line takes the place of the lines from `start` on. -/
  | replace (start : Nat)
  /-- So does what the shown text and the new one merge into. -/
  | merge (start : Nat) (merged : Text)
  /-- The shown lines do not say: one line more. -/
  | append
deriving DecidableEq, Repr

/-- The line from which on a verdict replaces what is shown. -/
def Verdict.start? : Verdict → Option Nat
  | .replace start | .merge start _ => some start
  | .shown | .append => none

/-- A search that answers alike with and without the rest of the state. -/
theorem map_findSome?_getD {α β γ δ : Type*} {f : α → Option β} {g : α → Option γ} {p : β → δ}
    {q : γ → δ} (h : ∀ a, (f a).map p = (g a).map q) {b : β} {d : γ} (hd : p b = q d)
    (l : List α) : p ((l.findSome? f).getD b) = q ((l.findSome? g).getD d) := by
  induction l with
  | nil => exact hd
  | cons a l ih =>
    have ha := h a
    rw [List.findSome?_cons, List.findSome?_cons]
    cases hf : f a with
    | none =>
      rw [hf, Option.map_none] at ha
      rw [Option.map_eq_none_iff.mp ha.symm]
      exact ih
    | some x =>
      rw [hf, Option.map_some] at ha
      obtain ⟨y, hy, heq⟩ := Option.map_eq_some_iff.mp ha.symm
      rw [hy]
      exact heq.symm

section

variable [UnicodeTables]

/-! ## The decision -/

/-- The test by the letters alone, where both lines have any. -/
def keyVerdict (start : Nat) (tailKey valueKey : Text) : Option Verdict :=
  if !tailKey.isEmpty && !valueKey.isEmpty then
    if contains tailKey valueKey then some .shown
    else if contains valueKey tailKey then some (.replace start)
    else
      let overlap := compactOverlapLength tailKey valueKey
      let shorter := min tailKey.length valueKey.length
      if overlap ≥ 8 ∨ overlap ≥ shorter * 9 / 20 then some (.replace start) else none
  else none

omit [UnicodeTables] in
/-- The test by the texts as they stand. -/
def textVerdict (start : Nat) (tail value : Text) : Option Verdict :=
  let merge := mergePartialText tail value
  if merge.samePhrase || partialLooksRelated tail value then some (.merge start merge.merged)
  else none

/-- One pass of the loop, over the lines from `start` on. -/
def stepVerdict (start : Nat) (tail value : Text) : Option Verdict :=
  if tail.isEmpty then none
  else if tail == value || contains tail value then some .shown
  else if contains value tail then some (.replace start)
  else
    (keyVerdict start (compactTranscriptKey tail) (compactTranscriptKey value)).or
      (textVerdict start tail value)

/-- The first of up to four tails, the longest first, that decides. -/
def verdict (lines : List Line) (value : Text) : Verdict :=
  ((downTo 1 (min lines.length 4)).findSome? fun count =>
    stepVerdict (lines.length - count) (tailText lines (lines.length - count)) value).getD .append

/-- What a verdict makes of the lines. -/
def Verdict.apply (lines : List Line) (line : Line) (now : Text) : Verdict → List Line
  | .shown => lines
  | .replace start => lines.take start ++ [line]
  | .merge start merged =>
    match stamped merged now with
    | some line => lines.take start ++ [line]
    | none => lines
  | .append => lines ++ [line]

/-! ## The code decides so -/

theorem mergeByKey_lines (c : Captions) (start : Nat) (line : Line) (tailKey valueKey now : Text) :
    (c.mergeByKey start line tailKey valueKey).map Captions.lines =
      (keyVerdict start tailKey valueKey).map (Verdict.apply c.lines line now) := by
  unfold mergeByKey keyVerdict
  dsimp only
  split_ifs <;> simp [Verdict.apply]

theorem mergeByText_lines (c : Captions) (start : Nat) (line : Line) (tail value now : Text) :
    (c.mergeByText start tail value now).map Captions.lines =
      (textVerdict start tail value).map (Verdict.apply c.lines line now) := by
  simp only [mergeByText, textVerdict]
  split_ifs
  · cases hstamped : stamped (mergePartialText tail value).merged now <;>
      simp [Verdict.apply, hstamped]
  · rfl

theorem mergeStep_lines (c : Captions) (line : Line) (value now : Text) (count : Nat) :
    (c.mergeStep line value (compactTranscriptKey value) now count).map Captions.lines =
      (stepVerdict (c.lines.length - count) (tailText c.lines (c.lines.length - count))
        value).map (Verdict.apply c.lines line now) := by
  have htail : normalizeJapaneseSpacing ((c.lines.drop (c.lines.length - count)).flatMap
      (·.text)) = tailText c.lines (c.lines.length - count) := rfl
  simp only [mergeStep, stepVerdict, htail]
  generalize tailText c.lines (c.lines.length - count) = tail
  split_ifs
  · rfl
  · simp [Verdict.apply]
  · simp [Verdict.apply]
  · rw [Option.map_or, Option.map_or, mergeByKey_lines c _ line _ _ now,
      mergeByText_lines c _ line]

/-- **The lookback is its verdict.** -/
theorem appendOrMergeFinalLine_lines {c : Captions} {text now : Text} {line : Line}
    (hline : stamped text now = some line) :
    (c.appendOrMergeFinalLine text now).lines =
      let value := normalizeJapaneseSpacing line.text
      if value.isEmpty || isHallucinationLine value || onlyPunctuation value then c.lines
      else (verdict c.lines value).apply c.lines line now := by
  unfold appendOrMergeFinalLine
  simp only [hline]
  split_ifs with hfilter hempty
  · rfl
  · -- The first line: the loop has nothing to look back at.
    have hnil : c.lines = [] := by simpa using hempty
    simp [verdict, hnil, downTo, Verdict.apply]
  · exact map_findSome?_getD (fun count => mergeStep_lines c line _ now count) rfl _

/-- What the filters let through, of a line and of the caption's text made of it. -/
structure Survives (text value : Text) : Prop where
  cleaned : cleanTranscriptText text ≠ []
  cleaned_said : isHallucinationLine (cleanTranscriptText text) = false
  said : value ≠ []
  let_through : isHallucinationLine value = false
  words : onlyPunctuation value = false

/-- The caption of a cleaned line is normal already. -/
theorem spaceNormal_of_stamped_clean {text now : Text} {line : Line}
    (hline : stamped (cleanTranscriptText text) now = some line) : SpaceNormal line.text :=
  spaceNormal_stamped (spaceNormal_normalize_clean text) hline

theorem commitLoopbackLine_lines {c : Captions} {text now : Text} {line : Line}
    (hline : stamped (cleanTranscriptText text) now = some line) (h : Survives text line.text) :
    (c.commitLoopbackLine text now).lines = (verdict c.lines line.text).apply c.lines line now := by
  have hvalue := (spaceNormal_of_stamped_clean hline).normalize
  have hlines := appendOrMergeFinalLine_lines (c := c) hline
  simp only [hvalue] at hlines
  unfold commitLoopbackLine
  dsimp only
  rw [if_neg (by simp [h.cleaned, h.cleaned_said]), hlines,
    if_neg (by simp [h.said, h.let_through, h.words])]

/-- What one pass of the loop can say. It merges two texts only if neither holds the other. -/
theorem stepVerdict_cases {start : Nat} {tail value : Text} {v : Verdict}
    (h : stepVerdict start tail value = some v) :
    v = .shown ∨ v = .replace start ∨
      (v = .merge start (mergePartialText tail value).merged ∧ tail ≠ [] ∧ ¬value <:+: tail ∧
        ¬tail <:+: value) := by
  unfold stepVerdict at h
  split_ifs at h with hempty hshown hlonger
  · exact .inl (Option.some.inj h).symm
  · exact .inr (.inl (Option.some.inj h).symm)
  · rcases Option.or_eq_some_iff.mp h with hkey | ⟨-, htext⟩
    · simp only [keyVerdict] at hkey
      split_ifs at hkey
      · exact .inl (Option.some.inj hkey).symm
      · exact .inr (.inl (Option.some.inj hkey).symm)
      · exact .inr (.inl (Option.some.inj hkey).symm)
    · simp only [textVerdict] at htext
      split_ifs at htext
      simp only [Bool.or_eq_true, not_or, contains, decide_eq_true_eq] at hshown hlonger
      exact .inr (.inr ⟨(Option.some.inj htext).symm, by simpa using hempty, hshown.2, hlonger⟩)

theorem verdict_cases (lines : List Line) (value : Text) :
    (verdict lines value = .append ∧ ∀ count, 1 ≤ count → count ≤ min lines.length 4 →
      stepVerdict (lines.length - count) (tailText lines (lines.length - count)) value = none) ∨
    ∃ count, 1 ≤ count ∧ count ≤ min lines.length 4 ∧
      stepVerdict (lines.length - count) (tailText lines (lines.length - count)) value =
        some (verdict lines value) := by
  unfold verdict
  cases hfind : (downTo 1 (min lines.length 4)).findSome? fun count =>
      stepVerdict (lines.length - count) (tailText lines (lines.length - count)) value with
  | none =>
    refine .inl ⟨rfl, fun count hlo hhi => ?_⟩
    exact List.findSome?_eq_none_iff.mp hfind count (mem_downTo_iff.mpr ⟨hlo, hhi⟩)
  | some v =>
    obtain ⟨count, hmem, hstep⟩ := List.exists_of_findSome?_eq_some hfind
    obtain ⟨hlo, hhi⟩ := mem_downTo_iff.mp hmem
    exact .inr ⟨count, hlo, hhi, hstep⟩

theorem verdict_eq_append_iff {lines : List Line} {value : Text} :
    verdict lines value = .append ↔ ∀ count, 1 ≤ count → count ≤ min lines.length 4 →
      stepVerdict (lines.length - count) (tailText lines (lines.length - count)) value = none := by
  rcases verdict_cases lines value with ⟨happend, hnone⟩ | ⟨count, hlo, hhi, hstep⟩
  · exact iff_of_true happend hnone
  · refine iff_of_false (fun happend => ?_) fun hnone => ?_
    · rw [happend] at hstep
      rcases stepVerdict_cases hstep with heq | heq | ⟨heq, -⟩ <;> cases heq
    · rw [hnone count hlo hhi] at hstep
      cases hstep

/-- A verdict that names a start names a shown line. -/
theorem verdict_start {lines : List Line} {value : Text} {start : Nat}
    (h : (verdict lines value).start? = some start) : start < lines.length := by
  rcases verdict_cases lines value with ⟨happend, -⟩ | ⟨count, hlo, hhi, hstep⟩
  · rw [happend] at h
    cases h
  · rcases stepVerdict_cases hstep with heq | heq | ⟨heq, -⟩
    · rw [heq] at h
      cases h
    · rw [heq] at h
      obtain rfl := Option.some.inj h
      omega
    · rw [heq] at h
      obtain rfl := Option.some.inj h
      omega

/-- One line more, for this verdict alone. -/
theorem apply_eq_append_iff {lines : List Line} {value now : Text} {line : Line} :
    (verdict lines value).apply lines line now = lines ++ [line] ↔
      verdict lines value = .append := by
  refine ⟨fun h => ?_, fun h => by rw [h, Verdict.apply]⟩
  have hstart : ∀ start, (verdict lines value).start? = some start → start < lines.length :=
    fun _ => verdict_start
  cases hverdict : verdict lines value with
  | shown => simp [hverdict, Verdict.apply] at h
  | replace start =>
    have hlt := hstart start (by rw [hverdict]; rfl)
    have hlen := congrArg List.length h
    simp [hverdict, Verdict.apply] at hlen
    omega
  | merge start merged =>
    have hlt := hstart start (by rw [hverdict]; rfl)
    have hlen := congrArg List.length h
    simp only [hverdict, Verdict.apply] at hlen
    split at hlen <;> simp at hlen
    omega
  | append => rfl

end

end LocalMeetingStt
