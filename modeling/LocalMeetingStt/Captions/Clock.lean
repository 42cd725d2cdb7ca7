import LocalMeetingStt.Captions.Stamped

/-!
# What the clock has to do with the captions

`ingest_line` is given the time of day for the lines that bring none. Nothing a session
decides looks at it: lines are merged by their texts. So two sessions that are given the
same lines at different times stay `Alike`, in everything but the times shown.

One branch looks back at them: `append_preview_line` searches the whole rendering, stamps
included. It tells two clocks apart only in a session that shows both kinds of line, which
no backend prints (`OneDialect`).
-/

namespace LocalMeetingStt

open Scan

/-- Both answers are none, or both are some and related. -/
theorem rel_cases {α : Type} {R : α → α → Prop} {o o' : Option α} (h : Option.Rel R o o') :
    (o = none ∧ o' = none) ∨ ∃ a a', o = some a ∧ o' = some a' ∧ R a a' := by
  cases h with
  | some hrel => exact .inr ⟨_, _, rfl, rfl, hrel⟩
  | none => exact .inl ⟨rfl, rfl⟩

namespace Captions

/-- The same captions but for their times. -/
structure Alike (c c' : Captions) : Prop where
  texts : c.lines.map (·.text) = c'.lines.map (·.text)
  partialText : c.partialLine.map (·.text) = c'.partialLine.map (·.text)
  loopbackStream : c.loopbackStream = c'.loopbackStream

namespace Alike

variable {c c' : Captions}

theorem refl (c : Captions) : Alike c c := ⟨rfl, rfl, rfl⟩

theorem length_eq (h : Alike c c') : c.lines.length = c'.lines.length := by
  have := congrArg List.length h.texts
  simpa only [List.length_map] using this

theorem isEmpty_eq (h : Alike c c') : c.lines.isEmpty = c'.lines.isEmpty := by
  rw [Bool.eq_iff_iff, List.isEmpty_iff_length_eq_zero, List.isEmpty_iff_length_eq_zero,
    h.length_eq]

/-- The lines a new one is compared with say the same. -/
theorem tail_eq (h : Alike c c') (start : Nat) :
    (c.lines.drop start).flatMap (·.text) = (c'.lines.drop start).flatMap (·.text) := by
  rw [List.flatMap_def, List.flatMap_def, List.map_drop, List.map_drop, h.texts]

theorem setPartial (h : Alike c c') {line line' : Option Line}
    (hline : line.map (·.text) = line'.map (·.text)) :
    Alike (c.setPartial line) (c'.setPartial line') := by
  refine ⟨?_, ?_, ?_⟩
  · rw [setPartial_lines, setPartial_lines, h.texts]
  · rw [setPartial_partialLine, setPartial_partialLine, hline]
  · rw [setPartial_loopbackStream, setPartial_loopbackStream, h.loopbackStream]

theorem push (h : Alike c c') {line line' : Line} (hline : line.text = line'.text) :
    Alike (c.push line) (c'.push line') := by
  refine ⟨?_, h.partialText, h.loopbackStream⟩
  simp [h.texts, hline]

theorem replaceTail_frame (c : Captions) (start : Nat) (line : Line) :
    (c.replaceTail start line).partialLine = c.partialLine ∧
      (c.replaceTail start line).loopbackStream = c.loopbackStream := by
  unfold Captions.replaceTail
  split_ifs
  · exact ⟨rfl, rfl⟩
  · exact ⟨rfl, rfl⟩

/-- Whether the tail is left as it is depends on the times; what it says afterwards does
    not. -/
theorem replaceTail (h : Alike c c') (start : Nat) {line line' : Line}
    (hline : line.text = line'.text) :
    Alike (c.replaceTail start line) (c'.replaceTail start line') := by
  obtain ⟨halfway, hloopback⟩ := replaceTail_frame c start line
  obtain ⟨halfway', hloopback'⟩ := replaceTail_frame c' start line'
  refine ⟨?_, ?_, ?_⟩
  · simp [List.map_take, h.texts, hline]
  · rw [halfway, halfway', h.partialText]
  · rw [hloopback, hloopback', h.loopbackStream]

end Alike

/-! ## Committing a line -/

section

variable [UnicodeTables]

/-- A stamped line has the same text whenever it comes. -/
theorem stamped_alike (line now now' : Text) :
    Option.Rel (fun l l' => l.text = l'.text) (stamped line now) (stamped line now') := by
  unfold stamped
  dsimp only
  split
  · exact .none
  · split
    · exact .some rfl
    · exact .some rfl

theorem stamped_map_text (line now now' : Text) :
    (stamped line now).map (·.text) = (stamped line now').map (·.text) := by
  rcases rel_cases (stamped_alike line now now') with ⟨h, h'⟩ | ⟨l, l', h, h', htext⟩ <;> rw [h, h']
  exact congrArg some htext

namespace Alike

variable {c c' : Captions}

omit [UnicodeTables] in
theorem mergeByKey (h : Alike c c') (start : Nat) {line line' : Line}
    (hline : line.text = line'.text) (tailKey valueKey : Text) :
    Option.Rel Alike (c.mergeByKey start line tailKey valueKey)
      (c'.mergeByKey start line' tailKey valueKey) := by
  unfold Captions.mergeByKey
  dsimp only
  split_ifs
  · exact .some h
  · exact .some (h.replaceTail start hline)
  · exact .some (h.replaceTail start hline)
  · exact .none
  · exact .none

theorem mergeByText (h : Alike c c') (start : Nat) (tail value now now' : Text) :
    Option.Rel Alike (c.mergeByText start tail value now)
      (c'.mergeByText start tail value now') := by
  unfold Captions.mergeByText
  dsimp only
  split_ifs
  · rcases rel_cases (stamped_alike (mergePartialText tail value).merged now now') with
      ⟨hnone, hnone'⟩ | ⟨l, l', hsome, hsome', htext⟩
    · rw [hnone, hnone']
      exact .some h
    · rw [hsome, hsome']
      exact .some (h.replaceTail start htext)
  · exact .none

theorem mergeStep (h : Alike c c') {line line' : Line} (hline : line.text = line'.text)
    (value valueKey now now' : Text) (count : Nat) :
    Option.Rel Alike (c.mergeStep line value valueKey now count)
      (c'.mergeStep line' value valueKey now' count) := by
  unfold Captions.mergeStep
  dsimp only
  rw [h.length_eq, h.tail_eq]
  split_ifs
  · exact .none
  · exact .some h
  · exact .some (h.replaceTail _ hline)
  · rcases rel_cases (h.mergeByKey (c'.lines.length - count) hline (compactTranscriptKey
      (normalizeJapaneseSpacing ((c'.lines.drop (c'.lines.length - count)).flatMap (·.text))))
      valueKey) with ⟨hnone, hnone'⟩ | ⟨d, d', hsome, hsome', hkey⟩
    · rw [hnone, hnone', Option.none_or, Option.none_or]
      exact h.mergeByText _ _ value now now'
    · rw [hsome, hsome', Option.some_or, Option.some_or]
      exact .some hkey

omit [UnicodeTables] in
/-- The first success of two searches that go alike. -/
theorem findSome? {ι : Type} {f g : ι → Option Captions} (indices : List ι)
    (h : ∀ i, Option.Rel Alike (f i) (g i)) :
    Option.Rel Alike (indices.findSome? f) (indices.findSome? g) := by
  induction indices with
  | nil => exact .none
  | cons i rest ih =>
    rw [List.findSome?_cons, List.findSome?_cons]
    rcases rel_cases (h i) with ⟨hf, hg⟩ | ⟨d, d', hf, hg, hrel⟩
    · rw [hf, hg]
      exact ih
    · rw [hf, hg]
      exact .some hrel

theorem appendOrMergeFinalLine (h : Alike c c') (line now now' : Text) :
    Alike (c.appendOrMergeFinalLine line now) (c'.appendOrMergeFinalLine line now') := by
  unfold Captions.appendOrMergeFinalLine
  rcases rel_cases (stamped_alike line now now') with
    ⟨hnone, hnone'⟩ | ⟨stampedValue, stampedValue', hsome, hsome', htext⟩
  · rw [hnone, hnone']
    exact h
  · rw [hsome, hsome']
    dsimp only
    rw [htext, h.isEmpty_eq, h.length_eq]
    split_ifs
    · exact h
    · exact h.push htext
    · rcases rel_cases (findSome? (downTo 1 (min c'.lines.length 4)) fun count =>
        h.mergeStep htext (normalizeJapaneseSpacing stampedValue'.text)
          (compactTranscriptKey (normalizeJapaneseSpacing stampedValue'.text)) now now' count) with
        ⟨hfound, hfound'⟩ | ⟨d, d', hfound, hfound', hmerged⟩
      · rw [hfound, hfound']
        exact h.push htext
      · rw [hfound, hfound']
        exact hmerged

theorem commitLoopbackLine (h : Alike c c') (line now now' : Text) :
    Alike (c.commitLoopbackLine line now) (c'.commitLoopbackLine line now') := by
  unfold Captions.commitLoopbackLine
  dsimp only
  split_ifs
  · exact h
  · exact h.appendOrMergeFinalLine _ now now'

theorem commitUtteranceLine (h : Alike c c') (line now now' : Text) :
    Alike (c.commitUtteranceLine line now) (c'.commitUtteranceLine line now') := by
  unfold Captions.commitUtteranceLine
  dsimp only
  split_ifs
  · exact h
  · rcases rel_cases (stamped_alike (cleanTranscriptText line) now now') with
      ⟨hnone, hnone'⟩ | ⟨l, l', hsome, hsome', htext⟩
    · rw [hnone, hnone']
      exact h
    · rw [hsome, hsome']
      exact h.push htext

end Alike

/-! ## One line, at two times -/

/-- A line of the newer scripts, or of the loopback program. -/
def Unstamped (raw : Text) : Prop := isStampedLine (trim raw) = false

/-- A line of the older scripts, which print no `@@FINAL`. -/
def NoFinal (raw : Text) : Prop := stripPrefix "@@FINAL\t".toList (trimStart raw) = none

variable {c c' : Captions}

/-- The reader takes the line for the same at any time; where the session has no stamped
    line the captions stay alike. -/
theorem Alike.ingestLine (h : Alike c c') {raw : Text}
    (hraw : c.loopbackStream = true ∨ Unstamped raw) (now now' : Text) :
    Alike (c.ingestLine raw now).1 (c'.ingestLine raw now').1 := by
  unfold Captions.ingestLine
  cases transcriptCapture raw with
  | some found => exact h
  | none =>
    dsimp only
    cases stripPrefix "@@PARTIAL\t".toList (trimStart raw) with
    | some text => exact h.setPartial (stamped_map_text _ now now')
    | none =>
      dsimp only
      cases stripPrefix "@@FINAL\t".toList (trimStart raw) with
      | some text =>
        have hnone := h.setPartial (rfl : (none : Option Line).map (·.text) = none)
        dsimp only
        rw [hnone.loopbackStream]
        split_ifs <;> dsimp only
        · exact hnone.commitLoopbackLine (cleanTranscriptText text) now now'
        · exact hnone.commitUtteranceLine (cleanTranscriptText text) now now'
      | none =>
        dsimp only
        rw [← h.loopbackStream]
        split_ifs with hempty hloopback hstamped <;> dsimp only
        · exact h
        · exact h.commitLoopbackLine (trim raw) now now'
        · rcases hraw with hraw | hraw
          · exact absurd hraw hloopback
          · rw [Unstamped, hstamped] at hraw
            cases hraw
        · exact h

/-- What the reader makes of a line is decided by the line and the kind of session. -/
theorem ingestLine_handled (hloopback : c.loopbackStream = c'.loopbackStream)
    (raw now now' : Text) : (c.ingestLine raw now).2 = (c'.ingestLine raw now').2 := by
  unfold Captions.ingestLine
  cases transcriptCapture raw with
  | some found => rfl
  | none =>
    dsimp only
    cases stripPrefix "@@PARTIAL\t".toList (trimStart raw) with
    | some text =>
      dsimp only
      rw [setPartial_loopbackStream, setPartial_loopbackStream, hloopback]
    | none =>
      dsimp only
      cases stripPrefix "@@FINAL\t".toList (trimStart raw) with
      | some text =>
        dsimp only
        rw [setPartial_loopbackStream, setPartial_loopbackStream, hloopback]
        split_ifs <;> rfl
      | none =>
        dsimp only
        rw [hloopback]
        split_ifs <;> rfl

/-- Outside a loopback stream a line that is neither stamped nor final appends nothing. -/
theorem ingestLine_lines (hc : c.loopbackStream = false) {raw : Text} (hfinal : NoFinal raw)
    (hraw : Unstamped raw) (now : Text) : (c.ingestLine raw now).1.lines = c.lines := by
  unfold Captions.ingestLine
  cases transcriptCapture raw with
  | some found => rfl
  | none =>
    dsimp only
    cases stripPrefix "@@PARTIAL\t".toList (trimStart raw) with
    | some text =>
      dsimp only
      exact setPartial_lines c _
    | none =>
      rw [NoFinal] at hfinal
      rw [Unstamped] at hraw
      simp only [hfinal, hc, hraw, Bool.false_eq_true, if_false]
      split_ifs <;> rfl

/-- A stamped line brings its time and is compared with times that were brought. -/
theorem Alike.ingestLine_noFinal (hd : DecimalsApart) (h : Alike c c')
    (hlines : c.lines = c'.lines) (hc : c.loopbackStream = false) {raw : Text}
    (hfinal : NoFinal raw) (now now' : Text) :
    Alike (c.ingestLine raw now).1 (c'.ingestLine raw now').1 ∧
      (c.ingestLine raw now).1.lines = (c'.ingestLine raw now').1.lines := by
  have hc' : c'.loopbackStream = false := by rw [← h.loopbackStream, hc]
  cases hstamped : isStampedLine (trim raw) with
  | false =>
    refine ⟨h.ingestLine (.inr hstamped) now now', ?_⟩
    rw [ingestLine_lines hc hfinal hstamped, ingestLine_lines hc' hfinal hstamped, hlines]
  | true =>
    obtain ⟨time, s, rest, hstamp, hs⟩ : ∃ time s rest,
        stampPrefix (trim raw) = some (time, s :: rest) ∧ isWhitespace s = true := by
      unfold isStampedLine at hstamped
      split at hstamped
      · next time s rest heq => exact ⟨time, s, rest, heq, hstamped⟩
      · cases hstamped
    rw [ingestLine_stampedLine hc hstamp hs, ingestLine_stampedLine hc' hstamp hs]
    have heq : (c.appendPreviewLine (trim raw) now).lines =
        (c'.appendPreviewLine (trim raw) now').lines := by
      rw [appendPreviewLine_eq hd c hstamp, appendPreviewLine_eq hd c' hstamp, hlines]
    obtain ⟨halfway, hloopback⟩ := (appendPreviewLine_append c (trim raw) now).frame
    obtain ⟨halfway', hloopback'⟩ := (appendPreviewLine_append c' (trim raw) now').frame
    split_ifs
    · refine ⟨⟨by rw [heq], ?_, ?_⟩, heq⟩
      · rw [halfway, halfway', h.partialText]
      · rw [hloopback, hloopback', h.loopbackStream]
    · exact ⟨h, hlines⟩

/-! ## A whole session -/

/-- What a job prints on its stdout: no script and no program prints both stamped lines
    and finals, and the loopback captions do not mind. -/
def OneDialect (loopbackStream : Bool) (lines : List Text) : Prop :=
  loopbackStream = true ∨ (∀ raw ∈ lines, Unstamped raw) ∨ ∀ raw ∈ lines, NoFinal raw

/-- The captions of two sessions in the same lines: alike, and where a rendering may be
    searched for a stamp, with the same times, too. -/
structure SameSession (lines : List Text) (c c' : Captions) : Prop where
  alike : Alike c c'
  exact : ¬(c.loopbackStream = true ∨ ∀ raw ∈ lines, Unstamped raw) → c.lines = c'.lines

theorem SameSession.refl (lines : List Text) (c : Captions) : SameSession lines c c :=
  ⟨.refl c, fun _ => rfl⟩

theorem SameSession.ingestLine (hd : DecimalsApart) {lines : List Text}
    (h : SameSession lines c c') (hdialect : OneDialect c.loopbackStream lines) {raw : Text}
    (hraw : raw ∈ lines) (now now' : Text) :
    SameSession lines (c.ingestLine raw now).1 (c'.ingestLine raw now').1 := by
  have hloopback := ingestLine_loopbackStream c raw now
  by_cases hloose : c.loopbackStream = true ∨ ∀ raw ∈ lines, Unstamped raw
  · -- no stamped line, or none that matters
    refine ⟨h.alike.ingestLine ?_ now now', ?_⟩
    · exact hloose.imp_right fun hall => hall raw hraw
    · rw [hloopback]
      exact absurd hloose
  · obtain ⟨hc, hstamped⟩ := not_or.mp hloose
    have hfinals := (hdialect.resolve_left hc).resolve_left hstamped
    obtain ⟨halike, hlines⟩ := h.alike.ingestLine_noFinal hd (h.exact hloose)
      (by simpa using hc) (hfinals raw hraw) now now'
    exact ⟨halike, fun _ => hlines⟩

omit [UnicodeTables] in
/-- Taking an update touches the marks only. -/
theorem takeUpdate_frame (c : Captions) :
    c.takeUpdate.1.lines = c.lines ∧ c.takeUpdate.1.partialLine = c.partialLine ∧
      c.takeUpdate.1.loopbackStream = c.loopbackStream := by
  unfold takeUpdate
  split_ifs
  · exact ⟨rfl, rfl, rfl⟩
  · exact ⟨rfl, rfl, rfl⟩

theorem SameSession.takeUpdate {lines : List Text} (h : SameSession lines c c') :
    SameSession lines c.takeUpdate.1 c' := by
  obtain ⟨hlines, halfway, hloopback⟩ := takeUpdate_frame c
  refine ⟨⟨?_, ?_, ?_⟩, ?_⟩
  · rw [hlines, h.alike.texts]
  · rw [halfway, h.alike.partialText]
  · rw [hloopback, h.alike.loopbackStream]
  · rw [hlines, hloopback]
    exact h.exact

/-- The lines of a session, all read at one time. -/
def ingestLines (c : Captions) (now : Text) (lines : List Text) : Captions :=
  lines.foldl (fun c line => (c.ingestLine line now).1) c

theorem ingestLines_append (c : Captions) (now : Text) (lines lines' : List Text) :
    c.ingestLines now (lines ++ lines') = (c.ingestLines now lines).ingestLines now lines' :=
  List.foldl_append

theorem ingestLines_loopbackStream (c : Captions) (now : Text) (lines : List Text) :
    (c.ingestLines now lines).loopbackStream = c.loopbackStream := by
  induction lines generalizing c with
  | nil => rfl
  | cons line lines ih => exact (ih _).trans (ingestLine_loopbackStream c line now)

/-- The same lines at another time. -/
theorem SameSession.ingestLines (hd : DecimalsApart) {all lines : List Text}
    (h : SameSession all c c') (hdialect : OneDialect c.loopbackStream all)
    (hlines : ∀ raw ∈ lines, raw ∈ all) (now now' : Text) :
    SameSession all (c.ingestLines now lines) (c'.ingestLines now' lines) := by
  induction lines generalizing c c' with
  | nil => exact h
  | cons line lines ih =>
    have hnext := h.ingestLine hd hdialect (hlines line List.mem_cons_self) now now'
    rw [← ingestLine_loopbackStream c line now] at hdialect
    exact ih hnext hdialect fun raw hraw => hlines raw (.tail line hraw)

end

end Captions
end LocalMeetingStt
