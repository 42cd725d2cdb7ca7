import LocalMeetingStt.Captions.Clock
import LocalMeetingStt.Captions.Page
import LocalMeetingStt.Jobs.Reading

/-!
# From the pipe of a job to the page

Between the bytes a job prints and what the page shows stand the reads of the pipe, the
callback of `for_each_read` with the time of day, an update a call and the animation frames.
All four fall where they fall. `page_of_bytes` says that none of it can be seen in the end:
texts, recordings and paths are those of the stream's lines, taken one after the other.
-/

namespace LocalMeetingStt
namespace Jobs

open Captions

section

variable [UnicodeTables]

/-! ## The stdout reader over a whole stream -/

/-- The stdout reader: its calls, each with the time it comes at and its lines. -/
def readOut (paths : AppPaths) (live : Bool) (processId : Nat) :
    List (Text × List Text) → Reading → Reading × List Event
  | [], r => (r, [])
  | (now, lines) :: calls, r =>
    let (r, events) := onStdout paths live processId now lines r
    let (r, events') := readOut paths live processId calls r
    (r, events ++ events')

omit [UnicodeTables] in
/-- The updates among the events, as the page queues them. -/
def captionUpdates (events : List Event) : List Update :=
  events.filterMap fun
    | .captions _ update => some update
    | _ => none

omit [UnicodeTables] in
/-- The announcements among the events. -/
def pathEvents (events : List Event) : List Event :=
  events.filter fun
    | .audioPath _ _ | .transcriptPath _ _ => true
    | _ => false

/-- The paths one line announces. -/
def announced (paths : AppPaths) (live : Bool) (processId : Nat) (line : Text) : List Event :=
  ((savedAudioPath paths (trim line)).map (Event.audioPath processId)).toList ++
    (if live then
      (((transcriptCapture line).map trim).map (Event.transcriptPath processId)).toList
    else [])

variable (paths : AppPaths) (live : Bool) (processId : Nat)

/-- Which lines the reader takes for an announcement of the transcript. -/
theorem ingestLine_transcriptPath (c : Captions) (raw now : Text) :
    (transcriptCapture raw).map trim =
      match (c.ingestLine raw now).2 with
      | .transcriptPath path => some path
      | _ => none := by
  unfold ingestLine
  cases transcriptCapture raw with
  | some found => rfl
  | none =>
    dsimp only
    cases stripPrefix "@@PARTIAL\t".toList (trimStart raw) with
    | some text =>
      dsimp only
      split_ifs <;> rfl
    | none =>
      dsimp only
      cases stripPrefix "@@FINAL\t".toList (trimStart raw) with
      | some text =>
        dsimp only
        split_ifs <;> rfl
      | none =>
        dsimp only
        split_ifs <;> rfl

/-- One line: what becomes of the captions and of the recordings, and what is announced. -/
theorem onStdoutLine_eq (now line : Text) (r : Reading) :
    (onStdoutLine paths live processId now line r).1.captions =
        (if live then (r.captions.ingestLine line now).1 else r.captions) ∧
      (onStdoutLine paths live processId now line r).1.recordings =
        r.recordings ++ (recordingPath paths (trim line)).toList ∧
      captionUpdates (onStdoutLine paths live processId now line r).2.1 = [] ∧
      pathEvents (onStdoutLine paths live processId now line r).2.1 =
        announced paths live processId line := by
  unfold onStdoutLine announced
  cases live with
  | false =>
    cases recordingPath paths (trim line) <;> cases savedAudioPath paths (trim line) <;>
      simp [captionUpdates, pathEvents]
  | true =>
    have hpath := ingestLine_transcriptPath r.captions line now
    rw [hpath]
    cases recordingPath paths (trim line) <;> cases savedAudioPath paths (trim line) <;>
      cases hhandled : (r.captions.ingestLine line now).2 <;>
      simp [captionUpdates, pathEvents, hhandled]

/-! ## Calls -/

omit [UnicodeTables] in
theorem captionUpdates_append (a b : List Event) :
    captionUpdates (a ++ b) = captionUpdates a ++ captionUpdates b := List.filterMap_append

omit [UnicodeTables] in
theorem pathEvents_append (a b : List Event) :
    pathEvents (a ++ b) = pathEvents a ++ pathEvents b := List.filter_append a b

/-- The captions after some lines, of a job whose lines are captions at all. -/
def readLines (live : Bool) (c : Captions) (now : Text) (lines : List Text) : Captions :=
  if live then c.ingestLines now lines else c

theorem onStdoutLines_eq (now : Text) (lines : List Text) (r : Reading) :
    (onStdoutLines paths live processId now lines r).1.captions =
        readLines live r.captions now lines ∧
      (onStdoutLines paths live processId now lines r).1.recordings =
        r.recordings ++ lines.filterMap (fun line => recordingPath paths (trim line)) ∧
      captionUpdates (onStdoutLines paths live processId now lines r).2.1 = [] ∧
      pathEvents (onStdoutLines paths live processId now lines r).2.1 =
        lines.flatMap (announced paths live processId) := by
  induction lines generalizing r with
  | nil => cases live <;> simp [onStdoutLines, readLines, ingestLines, captionUpdates, pathEvents]
  | cons line lines ih =>
    obtain ⟨hcaptions, hrecordings, hupdates, hpaths⟩ :=
      onStdoutLine_eq paths live processId now line r
    obtain ⟨ihcaptions, ihrecordings, ihupdates, ihpaths⟩ :=
      ih (onStdoutLine paths live processId now line r).1
    rw [onStdoutLines]
    dsimp only
    rw [captionUpdates_append, pathEvents_append, hupdates, hpaths, ihcaptions, ihrecordings,
      ihupdates, ihpaths, hrecordings, hcaptions]
    refine ⟨?_, ?_, rfl, List.flatMap_cons.symm⟩
    · cases live <;> rfl
    · rw [List.append_assoc]
      congr 1
      cases hpath : recordingPath paths (trim line) <;> simp [hpath]

/-- One call: the lines, and the update they add up to. -/
theorem onStdout_eq (now : Text) (lines : List Text) (r : Reading) :
    (onStdout paths live processId now lines r).1.captions =
        (readLines live r.captions now lines).takeUpdate.1 ∧
      (onStdout paths live processId now lines r).1.recordings =
        r.recordings ++ lines.filterMap (fun line => recordingPath paths (trim line)) ∧
      captionUpdates (onStdout paths live processId now lines r).2 =
        (readLines live r.captions now lines).takeUpdate.2.toList ∧
      pathEvents (onStdout paths live processId now lines r).2 =
        lines.flatMap (announced paths live processId) := by
  obtain ⟨hcaptions, hrecordings, hupdates, hpaths⟩ :=
    onStdoutLines_eq paths live processId now lines r
  unfold onStdout
  dsimp only
  rw [captionUpdates_append, captionUpdates_append, pathEvents_append, pathEvents_append,
    hupdates, hpaths, hcaptions, hrecordings]
  refine ⟨rfl, rfl, ?_, ?_⟩
  · cases (readLines live r.captions now lines).takeUpdate.2 <;> split_ifs <;>
      simp [captionUpdates, logEvent]
  · cases (readLines live r.captions now lines).takeUpdate.2 <;> split_ifs <;>
      simp [pathEvents, logEvent]

/-- What no split of the stream into calls changes. -/
theorem readOut_paths (calls : List (Text × List Text)) (r : Reading) :
    (readOut paths live processId calls r).1.recordings =
        r.recordings ++
          (calls.map (·.2)).flatten.filterMap (fun line => recordingPath paths (trim line)) ∧
      pathEvents (readOut paths live processId calls r).2 =
        (calls.map (·.2)).flatten.flatMap (announced paths live processId) := by
  induction calls generalizing r with
  | nil => simp [readOut, pathEvents]
  | cons call calls ih =>
    obtain ⟨now, lines⟩ := call
    obtain ⟨-, hrecordings, -, hpaths⟩ :=
      onStdout_eq paths live processId now lines r
    obtain ⟨ihrecordings, ihpaths⟩ := ih (onStdout paths live processId now lines r).1
    rw [readOut]
    dsimp only
    rw [pathEvents_append, ihrecordings, ihpaths, hrecordings, hpaths, List.map_cons,
      List.flatten_cons, List.filterMap_append, List.flatMap_append, List.append_assoc]
    exact ⟨rfl, rfl⟩

/-- Nor the captions, but for their times. -/
theorem readOut_captions (hd : DecimalsApart) {all : List Text} {calls : List (Text × List Text)}
    {r : Reading} {c : Captions} (h : SameSession all r.captions c)
    (hdialect : OneDialect r.captions.loopbackStream all)
    (hcalls : ∀ raw ∈ (calls.map (·.2)).flatten, raw ∈ all) (now : Text) :
    SameSession all (readOut paths live processId calls r).1.captions
      (readLines live c now (calls.map (·.2)).flatten) := by
  induction calls generalizing r c with
  | nil => cases live <;> exact h
  | cons call calls ih =>
    obtain ⟨time, lines⟩ := call
    rw [List.map_cons, List.flatten_cons] at hcalls ⊢
    obtain ⟨hcaptions, -⟩ :=
      onStdout_eq paths live processId time lines r
    have hlines : SameSession all (readLines live r.captions time lines)
        (readLines live c now lines) := by
      cases live with
      | false => exact h
      | true =>
        exact h.ingestLines hd hdialect (fun raw hraw => hcalls raw (List.mem_append_left _ hraw))
          time now
    have hloopback : (readLines live r.captions time lines).takeUpdate.1.loopbackStream =
        r.captions.loopbackStream := by
      rw [(takeUpdate_frame _).2.2]
      cases live with
      | false => rfl
      | true => exact ingestLines_loopbackStream _ _ _
    rw [readOut]
    dsimp only
    have hnext := ih (r := (onStdout paths live processId time lines r).1)
      (c := readLines live c now lines) (by rw [hcaptions]; exact hlines.takeUpdate)
      (by rw [hcaptions, hloopback]; exact hdialect)
      (fun raw hraw => hcalls raw (List.mem_append_right _ hraw))
    cases live with
    | false => exact hnext
    | true =>
      show SameSession all _ (c.ingestLines now (lines ++ (calls.map (·.2)).flatten))
      rw [ingestLines_append]
      exact hnext

/-! ## The page -/

/-- One call as the page's replay knows it. -/
def callOps (live : Bool) (call : Text × List Text) : List ScreenOp :=
  (if live then call.2.map fun line => .ingest line call.1 else []) ++ [.take]

theorem run_append (s : Screen) (ops ops' : List ScreenOp) :
    s.run (ops ++ ops') = (s.run ops).run ops' := List.foldl_append

theorem run_ingest (s : Screen) (now : Text) (lines : List Text) :
    s.run (lines.map fun line => .ingest line now) =
      { s with captions := s.captions.ingestLines now lines } := by
  induction lines generalizing s with
  | nil => rfl
  | cons line lines ih => exact ih _

omit [UnicodeTables] in
theorem map_update_toList (update : Option Update) (asOf : Page) :
    ((update.map fun u => Taken.mk u asOf).toList).map (·.update) = update.toList := by
  cases update <;> rfl

/-- Nothing but the updates goes to the page, in their order. -/
structure InStep (s : Screen) (r : Reading) (updates : List Update) : Prop where
  captions : s.captions = r.captions
  queue : s.captionQueue.map (·.update) = updates
  page : s.page = .empty
  asOf : s.asOf = s.captions.shown

theorem InStep.call {s : Screen} {r : Reading} {updates : List Update} (h : InStep s r updates)
    (now : Text) (lines : List Text) :
    InStep (s.run (callOps live (now, lines))) (onStdout paths live processId now lines r).1
      (updates ++ captionUpdates (onStdout paths live processId now lines r).2) := by
  obtain ⟨hcaptions, -, hupdates, -⟩ :=
    onStdout_eq paths live processId now lines r
  have hlines : s.run (if live then lines.map fun line => .ingest line now else []) =
      { s with captions := readLines live r.captions now lines } := by
    cases live with
    | false =>
      show s = { s with captions := r.captions }
      rw [← h.captions]
    | true =>
      rw [← h.captions]
      exact run_ingest s now lines
  rw [callOps, run_append, hlines, hupdates]
  obtain ⟨htaken, hshown, -⟩ := takeUpdate_frame (readLines live r.captions now lines)
  refine ⟨hcaptions.symm, ?_, h.page, ?_⟩
  · show (s.captionQueue ++ _).map (·.update) = _
    rw [List.map_append, h.queue]
    exact congrArg (updates ++ ·) (map_update_toList _ _)
  · refine Page.ext ?_ ?_
    · exact htaken.symm
    · exact hshown.symm

theorem InStep.readOut {s : Screen} {r : Reading} {updates : List Update}
    (h : InStep s r updates) (calls : List (Text × List Text)) :
    InStep (s.run (calls.flatMap (callOps live))) (readOut paths live processId calls r).1
      (updates ++ captionUpdates (readOut paths live processId calls r).2) := by
  induction calls generalizing s r updates with
  | nil =>
    rw [show captionUpdates (Jobs.readOut paths live processId [] r).2 = [] from rfl,
      List.append_nil]
    exact h
  | cons call calls ih =>
    obtain ⟨now, lines⟩ := call
    rw [List.flatMap_cons, run_append, Jobs.readOut]
    dsimp only
    rw [captionUpdates_append, ← List.append_assoc]
    exact ih (h.call paths live processId now lines)

omit [UnicodeTables] in
theorem flushStreams_frames (p : Page) (frames : List (List Update)) :
    frames.foldl Page.flushStreams p = p.flushStreams frames.flatten := by
  induction frames generalizing p with
  | nil => rfl
  | cons queue frames ih =>
    rw [List.foldl_cons, ih, List.flatten_cons]
    exact List.foldl_append.symm

/-- Once the last update is applied, the page shows the captions of the reader. -/
theorem page_shown (loopback : Bool) (calls : List (Text × List Text))
    {frames : List (List Update)}
    (hframes : frames.flatten =
      captionUpdates (readOut paths live processId calls (.new loopback)).2) :
    frames.foldl Page.flushStreams .empty =
      (readOut paths live processId calls (.new loopback)).1.captions.shown := by
  have hstart : InStep (Screen.start loopback) (.new loopback) [] := ⟨rfl, rfl, rfl, rfl⟩
  have hstep := hstart.readOut paths live processId calls
  have hreplay := (page_replays_captions loopback (calls.flatMap (callOps live))).2
  rw [List.nil_append] at hstep
  rw [hstep.asOf, hstep.captions] at hreplay
  rw [← hreplay]
  show _ = ((Screen.start loopback).run _).page.flushStreams _
  rw [hstep.page, hstep.queue, ← hframes]
  exact flushStreams_frames _ _

/-- **What a job prints is what the page shows.** Whatever the reads its output is
    delivered in, the times they come at and the frames its updates fall into: once the
    last update is applied, the page shows the texts that the lines of the stream give, read
    one after the other at any one time; and the recordings to repair and the paths announced
    are those of the lines, in order. -/
theorem page_of_bytes (hd : DecimalsApart) (paths : AppPaths) (live loopback : Bool)
    (processId : Nat) {reads : List Bytes} {calls : List (Text × List Text)}
    (hcalls : calls.map (·.2) = forEachRead [] reads)
    (hdialect : OneDialect loopback (streamLines reads.flatten)) {frames : List (List Update)}
    (hframes : frames.flatten =
      captionUpdates (readOut paths live processId calls (.new loopback)).2) (now : Text) :
    let page := frames.foldl Page.flushStreams .empty
    let c := readLines live (.new loopback) now (streamLines reads.flatten)
    let out := readOut paths live processId calls (.new loopback)
    page.lines.map (·.text) = c.lines.map (·.text) ∧
      page.partialLine.map (·.text) = c.partialLine.map (·.text) ∧
      out.1.recordings =
        (streamLines reads.flatten).filterMap (fun line => recordingPath paths (trim line)) ∧
      pathEvents out.2 = (streamLines reads.flatten).flatMap (announced paths live processId) := by
  intro page c out
  have hlines : (calls.map (·.2)).flatten = streamLines reads.flatten := by
    rw [hcalls, forEachRead_start]
  have hpage : page = out.1.captions.shown :=
    page_shown paths live processId loopback calls hframes
  have hsame := readOut_captions paths live processId hd
    (SameSession.refl _ (Reading.new loopback).captions) hdialect
    (fun raw hraw => hlines ▸ hraw) now
  rw [hlines] at hsame
  obtain ⟨hrecordings, hannounced⟩ := readOut_paths paths live processId calls
    (.new loopback)
  rw [hlines] at hrecordings hannounced
  rw [hpage]
  exact ⟨hsame.alike.texts, hsame.alike.partialText, hrecordings, hannounced⟩

omit [UnicodeTables] in
/-- A final cut in two, inside its control word, and a preview before it. -/
theorem page_of_bytes_cut :
    let _ := asciiTables
    let reads : List Bytes := ["@@PARTIAL\thello\n@@FI".toUTF8.data.toList,
      "NAL\thello there\n".toUTF8.data.toList]
    let calls := (forEachRead [] reads).map fun lines => ("09:00:00".toList, lines)
    let out := readOut ⟨id, id, 0⟩ true 1 calls (.new false)
    let page := [captionUpdates out.2].foldl Page.flushStreams .empty
    page.lines.map (·.text) = ["hello there".toList] ∧ page.partialLine.map (·.text) = none := by
  intro tables reads calls out page
  have hcalls : calls.map (·.2) = forEachRead [] reads := by
    simp only [calls, List.map_map]
    exact List.map_id _
  have hdialect : OneDialect false (streamLines reads.flatten) := by
    refine .inr (.inl ?_)
    show ∀ raw ∈ streamLines reads.flatten, isStampedLine (trim raw) = false
    decide
  obtain ⟨hlines, hshown, -, -⟩ := page_of_bytes decimalsApart_ascii ⟨id, id, 0⟩ true false 1
    hcalls hdialect (show [captionUpdates out.2].flatten = _ from List.append_nil _)
    "09:00:00".toList
  refine ⟨hlines.trans ?_, hshown.trans ?_⟩
  · decide
  · decide

end

end Jobs
end LocalMeetingStt
