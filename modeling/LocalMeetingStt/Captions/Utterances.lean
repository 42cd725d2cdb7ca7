import LocalMeetingStt.Captions.Cleaning
import LocalMeetingStt.Captions.State
import LocalMeetingStt.Segmenter.Model

/-!
# From `run_streaming`'s print to the caption on screen

`run_streaming` prints a control line for each utterance result, and the stdout reader
of `jobs.rs` hands every line of that pipe to `ingest_line`: control lines, path
announcements and logs alike. Nothing marks a line as one or the other but its text.

The pattern that recognizes a path announcement is not anchored and is tried first, so a
spoken text that has `Transcript:` in it is taken for one; and a caption that itself
starts with a stamp loses it, the stamp being read as the older dialect's.
`utterances_taken_iff` says that these are the only two ways a final can go wrong, and
that without the first one the partial is gone after every final of every session.
-/

namespace LocalMeetingStt

open Captions

/-! ## The printer (`live_streaming.py`) -/

/-- `_HAN_OR_KANA` -/
def isHanOrKana (c : Char) : Bool :=
  inRange 0x3040 0x30ff c || inRange 0x3400 0x4dbf c || inRange 0x4e00 0x9fff c ||
    inRange 0xf900 0xfaff c

/-- `_LATIN` -/
def isLatin (c : Char) : Bool := inRange 0x41 0x5a c || inRange 0x61 0x7a c

/-- Whether a preview is in the script of the language the user chose. -/
def plausiblePreview (text : Text) (language : Option Text) : Bool :=
  if language ∈ ["zh", "yue", "ja"].map fun code => some code.toList then text.any isHanOrKana
  else if language = some "en".toList then text.any isLatin
  else true

def previewLine (text : Text) : Text := "@@PARTIAL\t".toList ++ text

def finalLine (text : Text) : Text := "@@FINAL\t".toList ++ text

theorem previewLine_eq (text : Text) :
    previewLine text =
      ['@', '@', 'P', 'A', 'R', 'T', 'I', 'A', 'L', '\t'] ++ text := rfl

theorem finalLine_eq (text : Text) :
    finalLine text = ['@', '@', 'F', 'I', 'N', 'A', 'L', '\t'] ++ text := rfl

/-- What one call of `process` leaves: the new `last_partial`, the line printed and the
    line written to the transcript file. -/
structure Processed where
  lastPartial : Text
  printed : Option Text
  written : Option Text
deriving DecidableEq, Repr

/-- `run_streaming.process`, for a request of which `text` was recognized. -/
def process (language : Option Text) (lastPartial : Text) (kind : Segmenter.Kind)
    (text timestamp : Text) : Processed :=
  match kind with
  | .preview =>
    if text ≠ [] ∧ text ≠ lastPartial ∧ plausiblePreview text language then
      { lastPartial := text, printed := some (previewLine text), written := none }
    else { lastPartial, printed := none, written := none }
  | .final =>
    if text ≠ [] then
      { lastPartial := [], printed := some (finalLine text),
        written := some ('[' :: timestamp ++ "] ".toList ++ text ++ ['\n']) }
    else if lastPartial ≠ [] then
      { lastPartial := [], printed := some (previewLine []), written := none }
    else { lastPartial := [], printed := none, written := none }

/-! ## Printer and reader together -/

/-- A line of the pipe that `run_streaming` did not print. -/
def OtherLine (raw : Text) : Prop :=
  stripPrefix "@@PARTIAL\t".toList (trimStart raw) = none ∧
    stripPrefix "@@FINAL\t".toList (trimStart raw) = none

inductive Event where
  /-- `process` is called for a request of which `text` was recognized. -/
  | result (kind : Segmenter.Kind) (text timestamp now : Text)
  /-- Something else reaches the reader through the pipe. -/
  | other (raw now : Text) (is_other : OtherLine raw)
  /-- The reader sends what changed to the page. -/
  | takeUpdate

/-- `last_partial` on one end of the pipe, the captions on the other, after everything
    printed so far was read. -/
structure Session where
  lastPartial : Text
  captions : Captions
deriving DecidableEq, Repr

namespace Session

def start : Session := ⟨[], Captions.new false⟩

variable [UnicodeTables]

def step (language : Option Text) (s : Session) : Event → Session
  | .result kind text timestamp now =>
    let out := process language s.lastPartial kind text timestamp
    { lastPartial := out.lastPartial
      captions := out.printed.elim s.captions fun line => (s.captions.ingestLine line now).1 }
  | .other raw now _ => { s with captions := (s.captions.ingestLine raw now).1 }
  | .takeUpdate => { s with captions := s.captions.takeUpdate.1 }

def run (language : Option Text) (s : Session) (events : List Event) : Session :=
  events.foldl (step language) s

end Session

/-! ## What the contract says, and when it holds -/

section

variable [UnicodeTables]

/-- What of a final's text is committed: the reader cleans it, and so does the commit. -/
def cleanedFinal (text : Text) : Text := cleanTranscriptText (cleanTranscriptText text)

/-- A final that leaves no line. -/
def Dropped (text : Text) : Prop :=
  cleanedFinal text = [] ∨ isHallucinationLine (cleanedFinal text) = true

/-- The contract of one printed final: a caption, no partial any more, and one line with
    the cleaned text unless it is dropped. -/
structure TakenAsCaption (c : Captions) (text now : Text) : Prop where
  handled : (c.ingestLine (finalLine text) now).2 = .caption
  no_partial : (c.ingestLine (finalLine text) now).1.partialLine = none
  dropped : Dropped text → (c.ingestLine (finalLine text) now).1.lines = c.lines
  appended : ¬Dropped text → ∃ time,
    (c.ingestLine (finalLine text) now).1.lines = c.lines ++ [⟨time, cleanedFinal text⟩]

/-- Nothing in the text announces a transcript file. -/
def NoAnnouncement (text : Text) : Prop := transcriptCapture text = none

/-- No stamp stands at the start of what would be committed. -/
def NoStamp (text : Text) : Prop := Dropped text ∨ stampPrefix (cleanedFinal text) = none

/-! ## One control line -/

omit [UnicodeTables] in
/-- `Transcript:` starts with these two letters. -/
theorem transcriptAt_eq_none {t : Text} (h : ¬"Tr".toList <+: t) : transcriptAt t = none := by
  have hpre : ¬"Transcript:".toList <+: t := fun hp => h (.trans ⟨"anscript:".toList, rfl⟩ hp)
  simp only [transcriptAt, stripPrefix, if_neg hpre]

omit [UnicodeTables] in
theorem transcriptCapture_append {pre : Text} (text : Text)
    (h : ∀ s, s <:+ pre → s ≠ [] → ¬"Tr".toList <+: s ++ text) :
    transcriptCapture (pre ++ text) = transcriptCapture text := by
  induction pre with
  | nil => rfl
  | cons c pre ih =>
    have hc : transcriptAt (c :: (pre ++ text)) = none :=
      transcriptAt_eq_none (h _ (List.suffix_refl _) (by simp))
    rw [← ih fun s hs => h s (hs.trans (List.suffix_cons c pre))]
    simp only [transcriptCapture, List.cons_append, List.tails_cons, List.findSome?_cons, hc]

omit [UnicodeTables] in
/-- Only the text of a control line can announce anything. -/
theorem transcriptCapture_finalLine (text : Text) :
    transcriptCapture (finalLine text) = transcriptCapture text := by
  rw [finalLine_eq]
  refine transcriptCapture_append text fun s hs hne => ?_
  rw [← List.mem_tails] at hs
  simp at hs
  rcases hs with rfl | rfl | rfl | rfl | rfl | rfl | rfl | rfl | rfl <;> simp at hne ⊢

omit [UnicodeTables] in
theorem transcriptCapture_previewLine (text : Text) :
    transcriptCapture (previewLine text) = transcriptCapture text := by
  rw [previewLine_eq]
  refine transcriptCapture_append text fun s hs hne => ?_
  rw [← List.mem_tails] at hs
  simp at hs
  rcases hs with rfl | rfl | rfl | rfl | rfl | rfl | rfl | rfl | rfl | rfl | rfl <;>
    simp at hne ⊢

omit [UnicodeTables] in
theorem trimStart_finalLine (text : Text) : trimStart (finalLine text) = finalLine text := by
  rw [finalLine_eq]
  exact List.dropWhile_cons_of_neg (by decide)

omit [UnicodeTables] in
theorem trimStart_previewLine (text : Text) :
    trimStart (previewLine text) = previewLine text := by
  rw [previewLine_eq]
  exact List.dropWhile_cons_of_neg (by decide)

omit [UnicodeTables] in
theorem stripPrefix_preview_finalLine (text : Text) :
    stripPrefix "@@PARTIAL\t".toList (finalLine text) = none := by
  have hprefix : "@@PARTIAL\t".toList = ['@', '@', 'P', 'A', 'R', 'T', 'I', 'A', 'L', '\t'] := rfl
  rw [finalLine_eq, stripPrefix, hprefix, if_neg]
  simp

/-- A preview changes only the partial; one that announces a file changes nothing. -/
theorem ingestLine_previewLine (c : Captions) (text now : Text) :
    (c.ingestLine (previewLine text) now).1 =
      if transcriptCapture text = none then c.setPartial (stamped (cleanTranscriptText text) now)
      else c := by
  unfold ingestLine
  rw [transcriptCapture_previewLine]
  cases hfound : transcriptCapture text with
  | some found => rfl
  | none =>
    have hstrip : stripPrefix "@@PARTIAL\t".toList (previewLine text) = some text :=
      stripPrefix_append _ text
    simp only [trimStart_previewLine, hstrip, if_true]

theorem ingestLine_finalLine {c : Captions} {text : Text} (now : Text)
    (hc : c.loopbackStream = false) (h : NoAnnouncement text) :
    c.ingestLine (finalLine text) now =
      ((c.setPartial none).commitUtteranceLine (cleanTranscriptText text) now, .caption) := by
  have hfound : transcriptCapture text = none := h
  have hstrip : stripPrefix "@@FINAL\t".toList (finalLine text) = some text :=
    stripPrefix_append _ text
  unfold ingestLine
  simp only [transcriptCapture_finalLine, hfound, trimStart_finalLine,
    stripPrefix_preview_finalLine, hstrip, setPartial_loopbackStream, hc, Bool.false_eq_true,
    if_false]

/-- A line that announces a file is handled as that, whatever stands before. -/
theorem ingestLine_finalLine_announced {c : Captions} {text : Text} (now : Text)
    (h : ¬NoAnnouncement text) :
    ∃ path, c.ingestLine (finalLine text) now = (c, .transcriptPath path) := by
  obtain ⟨found, hfound⟩ := Option.ne_none_iff_exists'.mp h
  refine ⟨trim found, ?_⟩
  unfold ingestLine
  rw [transcriptCapture_finalLine, hfound]

/-- A line that is no control line leaves the partial as it is. -/
theorem ingestLine_other_partialLine {c : Captions} {raw : Text} (now : Text)
    (hc : c.loopbackStream = false) (h : OtherLine raw) :
    (c.ingestLine raw now).1.partialLine = c.partialLine ∧
      (c.ingestLine raw now).1.loopbackStream = c.loopbackStream := by
  unfold ingestLine
  cases transcriptCapture raw with
  | some found => exact ⟨rfl, rfl⟩
  | none =>
    simp only [h.1, h.2, hc, Bool.false_eq_true, if_false]
    split_ifs
    · exact ⟨rfl, hc⟩
    · have hframe := (appendPreviewLine_append c (trim raw) now).frame
      exact ⟨hframe.1, hframe.2.trans hc⟩
    · exact ⟨rfl, hc⟩

/-! ## One final -/

theorem stampPrefix_length {t time rest : Text} (h : stampPrefix t = some (time, rest)) :
    rest.length < t.length := by
  unfold stampPrefix at h
  split at h
  · split_ifs at h
    obtain ⟨-, rfl⟩ := Prod.mk.inj (Option.some.inj h)
    simp only [List.length_cons]
    omega
  · cases h

theorem stamped_of_spaceNormal {t : Text} (now : Text) (h : SpaceNormal t) (hne : t ≠ []) :
    stamped t now =
      match stampPrefix t with
      | some (time, rest) => some ⟨time, rest.dropWhile isWhitespace⟩
      | none => some ⟨now, t⟩ := by
  have hempty : ¬t.isEmpty = true := by simpa using hne
  simp only [stamped, h.normalize]
  exact if_neg hempty

theorem commitUtteranceLine_eq (c : Captions) (text now : Text) :
    c.commitUtteranceLine (cleanTranscriptText text) now =
      if (cleanedFinal text).isEmpty || isHallucinationLine (cleanedFinal text) then c
      else (stamped (cleanedFinal text) now).elim c c.push := by
  unfold commitUtteranceLine cleanedFinal
  dsimp only
  cases stamped (cleanTranscriptText (cleanTranscriptText text)) now <;> rfl

theorem commitUtteranceLine_dropped {c : Captions} {text : Text} (now : Text)
    (h : Dropped text) : c.commitUtteranceLine (cleanTranscriptText text) now = c := by
  rw [commitUtteranceLine_eq, if_pos]
  rcases h with h | h <;> simp [h]

theorem commitUtteranceLine_kept {c : Captions} {text : Text} (now : Text)
    (h : ¬Dropped text) :
    c.commitUtteranceLine (cleanTranscriptText text) now =
      match stampPrefix (cleanedFinal text) with
      | some (time, rest) => c.push ⟨time, rest.dropWhile isWhitespace⟩
      | none => c.push ⟨now, cleanedFinal text⟩ := by
  obtain ⟨hne, hsaid⟩ := not_or.mp h
  have hnormal : SpaceNormal (cleanedFinal text) := spaceNormal_clean_clean text
  rw [commitUtteranceLine_eq, if_neg (by simp [hne, hsaid]),
    stamped_of_spaceNormal now hnormal hne]
  cases stampPrefix (cleanedFinal text) <;> rfl

/-- **A final is taken as spoken exactly when its text announces no file and brings no
    stamp.** -/
theorem takenAsCaption_iff {c : Captions} (text now : Text) (hc : c.loopbackStream = false) :
    TakenAsCaption c text now ↔ NoAnnouncement text ∧ NoStamp text := by
  constructor
  · intro h
    have hnone : NoAnnouncement text := by
      by_contra hfound
      obtain ⟨path, hpath⟩ := ingestLine_finalLine_announced (c := c) now hfound
      have := h.handled
      rw [hpath] at this
      cases this
    refine ⟨hnone, ?_⟩
    by_cases hdropped : Dropped text
    · exact .inl hdropped
    · obtain ⟨time, hlines⟩ := h.appended hdropped
      rw [ingestLine_finalLine now hc hnone, commitUtteranceLine_kept now hdropped] at hlines
      cases hstamp : stampPrefix (cleanedFinal text) with
      | none => exact .inr hstamp
      | some found =>
        obtain ⟨stamp, rest⟩ := found
        -- the stamp is missing from the committed text
        simp only [hstamp, push_lines, setPartial_lines, List.append_cancel_left_eq,
          List.cons.injEq, Line.mk.injEq, and_true] at hlines
        have htext := hlines.2
        have hlen := stampPrefix_length hstamp
        have hle := (List.dropWhile_suffix isWhitespace (l := rest)).length_le
        rw [htext] at hle
        omega
  · rintro ⟨hnone, hstamp⟩
    have heq := ingestLine_finalLine now hc hnone
    have hpartial := (commitUtteranceLine_append (c.setPartial none)
      (cleanTranscriptText text) now).frame.1
    rw [setPartial_partialLine] at hpartial
    refine ⟨by rw [heq], by rw [heq, hpartial], fun hdropped => ?_, fun hkept => ⟨now, ?_⟩⟩
    · rw [heq, commitUtteranceLine_dropped now hdropped, setPartial_lines]
    · rw [heq, commitUtteranceLine_kept now hkept, hstamp.resolve_left hkept, push_lines,
        setPartial_lines]

/-! ## A whole session -/

/-- The condition on a session's finals. -/
def Event.Spoken : Event → Prop
  | .result .final text _ _ => NoAnnouncement text
  | .result .preview _ _ _ | .other _ _ _ | .takeUpdate => True

namespace Session

/-- With nothing in `last_partial` nothing is on screen: the printer forgets its preview
    only when it prints the line that takes it down. -/
structure InStep (s : Session) : Prop where
  utterances : s.captions.loopbackStream = false
  shown : s.lastPartial = [] → s.captions.partialLine = none

omit [UnicodeTables] in
theorem inStep_start : start.InStep := ⟨rfl, fun _ => rfl⟩

omit [UnicodeTables] in
theorem takeUpdate_frame (c : Captions) :
    c.takeUpdate.1.partialLine = c.partialLine ∧
      c.takeUpdate.1.loopbackStream = c.loopbackStream := by
  unfold takeUpdate
  split_ifs <;> exact ⟨rfl, rfl⟩

theorem previewLine_frame (c : Captions) (text now : Text) :
    (c.ingestLine (previewLine text) now).1.lines = c.lines ∧
      (c.ingestLine (previewLine text) now).1.dirtyFrom = c.dirtyFrom ∧
      (c.ingestLine (previewLine text) now).1.loopbackStream = c.loopbackStream := by
  rw [ingestLine_previewLine]
  split_ifs
  · exact ⟨setPartial_lines c _, setPartial_dirtyFrom c _, setPartial_loopbackStream c _⟩
  · exact ⟨rfl, rfl, rfl⟩

/-- The empty preview takes the partial down. -/
theorem previewLine_nil (c : Captions) (now : Text) :
    (c.ingestLine (previewLine []) now).1.partialLine = none := by
  have hnone : transcriptCapture [] = none := by
    simp [transcriptCapture, List.tails, transcriptAt_eq_none (t := []) (by simp)]
  have hblank : stamped (cleanTranscriptText []) now = none := rfl
  rw [ingestLine_previewLine, if_pos hnone, setPartial_partialLine, hblank]

theorem InStep.step {s : Session} (h : s.InStep) (language : Option Text) {e : Event}
    (he : e.Spoken) : (s.step language e).InStep := by
  cases e with
  | result kind text timestamp now =>
    cases kind with
    | preview =>
      simp only [Session.step, process]
      split_ifs with hprint
      · exact ⟨(previewLine_frame s.captions text now).2.2.trans h.utterances,
          fun hnil => absurd hnil hprint.1⟩
      · exact h
    | final =>
      simp only [Session.step, process]
      -- A final with a text takes the partial down, and so does the empty preview.
      split_ifs with htext hlast
      · have hline := ingestLine_finalLine now h.utterances he
        have hframe := (commitUtteranceLine_append (s.captions.setPartial none)
          (cleanTranscriptText text) now).frame
        refine ⟨?_, fun _ => ?_⟩
        · simpa [hline, h.utterances] using hframe.2
        · simpa [hline] using hframe.1
      · exact ⟨(previewLine_frame s.captions [] now).2.2.trans h.utterances,
          fun _ => previewLine_nil s.captions now⟩
      · exact ⟨h.utterances, fun _ => h.shown (not_not.mp hlast)⟩
  | other raw now is_other =>
    have hframe := ingestLine_other_partialLine now h.utterances is_other
    exact ⟨hframe.2.trans h.utterances, fun hnil => hframe.1.trans (h.shown hnil)⟩
  | takeUpdate =>
    have hframe := takeUpdate_frame s.captions
    exact ⟨hframe.2.trans h.utterances, fun hnil => hframe.1.trans (h.shown hnil)⟩

theorem inStep_run (language : Option Text) {events : List Event} (h : ∀ e ∈ events, e.Spoken) :
    (start.run language events).InStep := by
  unfold run
  refine List.foldlRecOn events _ inStep_start fun s hs e he => ?_
  exact hs.step language (h e he)

/-- A final forgets the preview, whatever it prints. -/
theorem step_final_lastPartial (language : Option Text) (s : Session)
    (text timestamp now : Text) :
    (s.step language (.result .final text timestamp now)).lastPartial = [] := by
  simp only [step, process]
  split_ifs <;> rfl

theorem run_final_partialLine (language : Option Text) {events : List Event}
    {text timestamp now : Text}
    (h : ∀ e ∈ events ++ [Event.result .final text timestamp now], e.Spoken) :
    (start.run language (events ++ [.result .final text timestamp now])).captions.partialLine =
      none := by
  refine (inStep_run language h).shown ?_
  rw [run, List.foldl_append]
  exact step_final_lastPartial language _ text timestamp now

end Session

/-- **Every final is taken as it was spoken, exactly when its text announces no file and
    brings no stamp; a preview changes only the partial; and in a session whose finals
    announce no file the partial is gone after every one of them.** -/
theorem utterances_taken_iff :
    (∀ (c : Captions) (text now : Text), c.loopbackStream = false →
      (TakenAsCaption c text now ↔ NoAnnouncement text ∧ NoStamp text)) ∧
    (∀ (c : Captions) (text now : Text),
      (c.ingestLine (previewLine text) now).1.lines = c.lines ∧
      (c.ingestLine (previewLine text) now).1.dirtyFrom = c.dirtyFrom ∧
      (c.ingestLine (previewLine text) now).1.loopbackStream = c.loopbackStream) ∧
    (∀ (language : Option Text) (events : List Event) (text timestamp now : Text),
      (∀ e ∈ events ++ [Event.result .final text timestamp now], e.Spoken) →
      (Session.start.run language
        (events ++ [.result .final text timestamp now])).captions.partialLine = none) :=
  ⟨fun _ text now hc => takenAsCaption_iff text now hc, Session.previewLine_frame,
    fun language _ _ _ _ h => Session.run_final_partialLine language h⟩

end

theorem utterances_taken_iff_hello :
    let _ := asciiTables
    TakenAsCaption (Captions.new false) "Hello".toList "10:00:01".toList ∧
      (Session.start.run none [.result .preview "Hell".toList [] "10:00:00".toList,
        .result .final "Hello".toList [] "10:00:01".toList]).captions.partialLine = none := by
  intro _
  have hspoken : NoAnnouncement "Hello".toList := by
    unfold NoAnnouncement
    rfl
  refine ⟨(utterances_taken_iff.1 _ _ _ rfl).mpr ⟨hspoken, .inr rfl⟩,
    utterances_taken_iff.2.2 none [.result .preview "Hell".toList [] "10:00:00".toList] _ _ _ ?_⟩
  intro e he
  simp only [List.cons_append, List.nil_append, List.mem_cons, List.not_mem_nil, or_false] at he
  rcases he with rfl | rfl
  · trivial
  · exact hspoken

/-- **A sentence with `Transcript:` in it is lost**: it is taken for the announcement of a
    file, no line is committed, and the preview stays on screen. -/
theorem spoken_announcement_lost :
    let _ := asciiTables
    ¬TakenAsCaption (Captions.new false) "Transcript: x".toList "10:00:01".toList ∧
      (Session.start.run none [.result .preview "Trans".toList [] "10:00:00".toList,
        .result .final "Transcript: x".toList [] "10:00:01".toList]).captions.partialLine =
          some ⟨"10:00:00".toList, "Trans".toList⟩ := by
  intro _
  refine ⟨fun h => ?_, rfl⟩
  have hpath : ((Captions.new false).ingestLine (finalLine "Transcript: x".toList)
      "10:00:01".toList).2 = .transcriptPath ['x'] := rfl
  exact absurd (hpath.symm.trans h.handled) (by simp)

end LocalMeetingStt
