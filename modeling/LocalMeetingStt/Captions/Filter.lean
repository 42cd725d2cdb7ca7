import LocalMeetingStt.Captions.Frame
import LocalMeetingStt.Captions.Utterances

/-!
# What the filter lets through (`captions.rs`, `commit_utterance_line`)

A final is filtered by its cleaned text, and committed by what `stamped` makes of it: a
stamp at its start is taken for the time, and only what stands behind it becomes the
caption. The two differ exactly when the recognizer's text itself begins with a stamp, and
then nothing has looked at what is shown. `append_or_merge_final_line`, the loopback path,
filters what stands behind the stamp as well.

`feeds_genuine_iff` says this of a whole session: every line of it is a caption the filter
lets through if and only if every final of it is `Harmless`.
-/

namespace LocalMeetingStt

open Captions

section

variable [UnicodeTables]

/-- A caption as the filter wants it. -/
structure Genuine (text : Text) : Prop where
  said : text ≠ []
  let_through : isHallucinationLine text = false

/-- The text of a control line that is read as a final: one that announces no file. -/
def finalText (raw : Text) : Option Text :=
  if transcriptCapture raw = none then stripPrefix "@@FINAL\t".toList (trimStart raw) else none

/-- Nothing is committed behind a stamp that the filter has not seen. -/
def Harmless (text : Text) : Prop :=
  Dropped text ∨ ∀ time rest, stampPrefix (cleanedFinal text) = some (time, rest) →
    Genuine (rest.dropWhile isWhitespace)

omit [UnicodeTables] in
theorem stripPrefix_eq_some {pre t rest : Text} (h : stripPrefix pre t = some rest) :
    t = pre ++ rest := by
  unfold stripPrefix at h
  split_ifs at h with hprefix
  obtain ⟨after, rfl⟩ := hprefix
  rw [List.drop_left] at h
  rw [Option.some.inj h]

omit [UnicodeTables] in
/-- A preview is no final. -/
theorem stripPrefix_final_previewLine (text : Text) :
    stripPrefix "@@FINAL\t".toList (previewLine text) = none := by
  have hprefix : "@@FINAL\t".toList = ['@', '@', 'F', 'I', 'N', 'A', 'L', '\t'] := rfl
  rw [previewLine_eq, stripPrefix, hprefix, if_neg]
  simp

/-- The two kinds of line a streaming backend prints. -/
def ControlLine (raw : Text) : Prop :=
  (stripPrefix "@@PARTIAL\t".toList (trimStart raw)).isSome = true ∨
    (stripPrefix "@@FINAL\t".toList (trimStart raw)).isSome = true

/-! ## One line -/

/-- What is committed of a final's text. -/
def committed (text now : Text) : List Line :=
  if (cleanedFinal text).isEmpty || isHallucinationLine (cleanedFinal text) then []
  else (stamped (cleanedFinal text) now).toList

/-- What one control line does to the lines: only a final commits. -/
theorem ingestLine_control {c : Captions} {raw : Text} (now : Text)
    (hc : c.loopbackStream = false) (hraw : ControlLine raw) :
    (c.ingestLine raw now).1.lines =
      c.lines ++ (finalText raw).elim [] fun text => committed text now := by
  unfold ingestLine finalText
  cases transcriptCapture raw with
  | some found => simp
  | none =>
    cases hpart : stripPrefix "@@PARTIAL\t".toList (trimStart raw) with
    | some text =>
      have hfinal : stripPrefix "@@FINAL\t".toList (trimStart raw) = none := by
        rw [stripPrefix_eq_some hpart]
        exact stripPrefix_final_previewLine text
      simp only [hpart, hfinal, if_true, Option.elim_none, setPartial_lines, List.append_nil]
    | none =>
      have hfinal := hraw.resolve_left (by rw [hpart]; exact Bool.false_ne_true)
      obtain ⟨text, htext⟩ := Option.isSome_iff_exists.mp hfinal
      simp only [hpart, htext, setPartial_loopbackStream, hc, Bool.false_eq_true, if_false,
        if_true, Option.elim_some, commitUtteranceLine_eq, committed]
      split_ifs
      · simp
      · cases stamped (cleanedFinal text) now <;> simp

theorem committed_eq (text now : Text) :
    (Dropped text ∧ committed text now = []) ∨
    (¬Dropped text ∧ ∃ time rest, stampPrefix (cleanedFinal text) = some (time, rest) ∧
      committed text now = [⟨time, rest.dropWhile isWhitespace⟩]) ∨
    (¬Dropped text ∧ stampPrefix (cleanedFinal text) = none ∧
      committed text now = [⟨now, cleanedFinal text⟩]) := by
  by_cases hdropped : Dropped text
  · refine .inl ⟨hdropped, if_pos ?_⟩
    rcases hdropped with h | h <;> simp [h]
  · obtain ⟨hne, hsaid⟩ := not_or.mp hdropped
    have hline := stamped_of_spaceNormal now (spaceNormal_clean_clean text) hne
    have hcommitted : committed text now = (stamped (cleanedFinal text) now).toList :=
      if_neg (by simp [hne, hsaid])
    rw [cleanedFinal] at *
    rw [hline] at hcommitted
    cases hstamp : stampPrefix (cleanTranscriptText (cleanTranscriptText text)) with
    | none => exact .inr (.inr ⟨hdropped, rfl, by rw [hcommitted, hstamp]; rfl⟩)
    | some found =>
      exact .inr (.inl ⟨hdropped, found.1, found.2, rfl, by rw [hcommitted, hstamp]; rfl⟩)

/-- **One final**: what it commits is genuine exactly when its text is harmless. -/
theorem committed_genuine_iff (text now : Text) :
    (∀ line ∈ committed text now, Genuine line.text) ↔ Harmless text := by
  rcases committed_eq text now with ⟨hdropped, heq⟩ | ⟨hkept, time, rest, hstamp, heq⟩ |
    ⟨hkept, hstamp, heq⟩
  · simp [heq, Harmless, hdropped]
  · simp [heq, Harmless, hkept, hstamp]
  · obtain ⟨hne, hsaid⟩ := not_or.mp hkept
    have hgenuine : Genuine (cleanedFinal text) := ⟨hne, by simpa using hsaid⟩
    simp [heq, Harmless, hstamp, hgenuine]

/-! ## A whole session -/

/-- What reaches a session whose backend prints control lines only. -/
inductive Feed where
  | control (raw now : Text) (is_control : ControlLine raw)
  | takeUpdate

namespace Captions

def feed (c : Captions) : Feed → Captions
  | .control raw now _ => (c.ingestLine raw now).1
  | .takeUpdate => c.takeUpdate.1

def feeds (c : Captions) (fs : List Feed) : Captions := fs.foldl feed c

end Captions

/-- The finals of a session, with the clock at which each is read. -/
def Feed.finals : Feed → List (Text × Text)
  | .control raw now _ => ((finalText raw).map fun text => (text, now)).toList
  | .takeUpdate => []

theorem feed_lines {c : Captions} (hc : c.loopbackStream = false) (f : Feed) :
    (c.feed f).lines = c.lines ++ f.finals.flatMap fun final => committed final.1 final.2 := by
  cases f with
  | control raw now is_control =>
    have hline := ingestLine_control now hc is_control
    simp only [feed, hline, Feed.finals]
    cases finalText raw <;> simp
  | takeUpdate =>
    rcases c.takeUpdate_cases with ⟨-, -, htake⟩ | htake <;> simp [feed, Feed.finals, htake]

theorem feed_loopbackStream (c : Captions) (f : Feed) :
    (c.feed f).loopbackStream = c.loopbackStream := by
  cases f with
  | control raw now is_control => exact ingestLine_loopbackStream c raw now
  | takeUpdate =>
    rcases c.takeUpdate_cases with ⟨-, -, htake⟩ | htake <;> simp [feed, htake]

/-- The transcript of a session is what its finals committed, in order. -/
theorem feeds_lines {c : Captions} (hc : c.loopbackStream = false) (fs : List Feed) :
    (c.feeds fs).lines =
      c.lines ++ (fs.flatMap Feed.finals).flatMap fun final => committed final.1 final.2 := by
  induction fs generalizing c with
  | nil => simp [feeds]
  | cons f fs ih =>
    have hrest := ih ((feed_loopbackStream c f).trans hc)
    rw [feeds, List.foldl_cons, ← feeds, hrest, feed_lines hc, List.flatMap_cons,
      List.flatMap_append, List.append_assoc]

/-- **Every line of a session is a caption the filter lets through, exactly when every final
    of it is harmless.** -/
theorem feeds_genuine_iff (fs : List Feed) :
    (∀ line ∈ ((Captions.new false).feeds fs).lines, Genuine line.text) ↔
      ∀ final ∈ fs.flatMap Feed.finals, Harmless final.1 := by
  have hlines : ((Captions.new false).feeds fs).lines =
      (fs.flatMap Feed.finals).flatMap fun final => committed final.1 final.2 :=
    (feeds_lines rfl fs).trans (List.nil_append _)
  simp only [hlines, List.mem_flatMap (l := fs.flatMap Feed.finals)]
  constructor
  · intro h final hfinal
    rw [← committed_genuine_iff final.1 final.2]
    exact fun line hline => h line ⟨final, hfinal, hline⟩
  · rintro h line ⟨final, hfinal, hline⟩
    exact (committed_genuine_iff final.1 final.2).mpr (h final hfinal) line hline

end

/-- **A stamp hides a sign-off from the filter**: the recognizer's text begins with one, and
    what is committed is what stands behind it. -/
theorem sign_off_committed :
    let _ := asciiTables
    ¬∀ line ∈ ((Captions.new false).feeds [.control
        "@@FINAL\t[10:00:00] Thanks for watching!".toList "10:00:01".toList (.inr rfl)]).lines,
      Genuine line.text := by
  intro _ h
  have hline : (⟨"10:00:00".toList, "Thanks for watching!".toList⟩ : Line) ∈
      ((Captions.new false).feeds [.control
        "@@FINAL\t[10:00:00] Thanks for watching!".toList "10:00:01".toList (.inr rfl)]).lines :=
    List.mem_of_getElem? (i := 0) rfl
  exact absurd (h _ hline).let_through (by decide)

end LocalMeetingStt
