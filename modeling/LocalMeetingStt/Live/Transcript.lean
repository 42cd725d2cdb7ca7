import LocalMeetingStt.Captions.Filter
import LocalMeetingStt.Captions.Loops
import LocalMeetingStt.Jobs.Pipeline
import LocalMeetingStt.Jobs.Printed
import LocalMeetingStt.Segmenter.Previews

/-!
# The transcript file and the window (`run_streaming`, from the queue to the page)

What a final of the segmenter is recognized as goes two ways. `process` appends it to the
transcript file with the time of day, and prints it on a pipe, from which it reaches the
page: as bytes, cut into reads, as a line among others, cleaned, as an update, in some
frame. A preview goes the second way only, and may be left out when the audio has moved on.

`window_shows_transcript` says what both end with. There is one list of finals: those the
segmenter makes of the audio, each recognized once, in order. The file is this list,
rendered; and the page has, in the same order, the caption of each (`captionOf`), which is
the text cleaned, or nothing for a text the filter drops or that announces a file.
-/

namespace LocalMeetingStt
namespace Live

open Captions
open Devices (LineEnd printed)
open Jobs (Bytes Printable forEachRead streamLines readOut captionUpdates)
open Segmenter (CaptionRequest finalAudio feedAll)
open SelfSync (utf8)

/-! ## `run_streaming` -/

/-- `str.isspace`, of one character. -/
def isSpace (c : Char) : Bool := isWhitespace c || inRange 0x1c 0x1f c

/-- `str.strip` -/
def strip (text : Text) : Text := (text.dropWhile isSpace).rdropWhile isSpace

/-- The recognizer and the clock, at each call of `process`. -/
structure Recognizer (α : Type*) where
  transcribe : Nat → List α → Text
  now : Nat → Text

/-- `run_streaming` between two steps. -/
structure Consumer (α : Type*) where
  segmenter : Segmenter.State α
  lastPartial : Text
  /-- The calls of `process` so far. -/
  calls : Nat
  /-- The lines on stdout. -/
  printed : List Text
  /-- What was appended to `output_path`. -/
  transcript : Text

def Consumer.start {α : Type*} : Consumer α := ⟨.new, [], 0, [], []⟩

section

variable {α : Type*} (cfg : Segmenter.Config α) (r : Recognizer α) (language : Option Text)

/-- The text of one call, as `process` has it. -/
def Recognizer.text (call : Nat × List α) : Text := strip (r.transcribe call.1 call.2)

/-- `process` -/
def Consumer.process (s : Consumer α) (request : CaptionRequest α) : Consumer α :=
  let out := LocalMeetingStt.process language s.lastPartial request.kind
    (r.text (s.calls, request.audio)) (r.now s.calls)
  { s with
    lastPartial := out.lastPartial
    calls := s.calls + 1
    printed := s.printed ++ out.printed.toList
    transcript := s.transcript ++ out.written.getD [] }

/-- The requests of one `feed`, with the preview that waits for them to be through: a final is
    processed at once, and makes the preview stale. -/
def Consumer.handle (stopped : Bool) : Option (CaptionRequest α) → List (CaptionRequest α) →
    Consumer α → Consumer α
  | latestPartial, [], s =>
    if stopped then s else latestPartial.elim s (s.process r language)
  | _, request :: requests, s =>
    match request.kind with
    | .final => Consumer.handle stopped none requests (s.process r language request)
    | .preview => Consumer.handle stopped (some request) requests s

/-- One turn of the loop: the blocks it has taken, and whether the stop event is set when the
    finals are through. `run_live` hands over one rate twice, so no block is resampled. -/
def Consumer.turn (s : Consumer α) (blocks : List (List α)) (stopped : Bool) : Consumer α :=
  let (segmenter, requests) := Segmenter.feed cfg s.segmenter blocks.flatten
  Consumer.handle r language stopped none requests { s with segmenter }

/-- After the loop. -/
def Consumer.finish (s : Consumer α) : Consumer α :=
  let (segmenter, requests) := Segmenter.finish cfg s.segmenter
  requests.foldl (Consumer.process r language) { s with segmenter }

def Consumer.turns (s : Consumer α) (turns : List (List (List α) × Bool)) : Consumer α :=
  turns.foldl (fun s turn => Consumer.turn cfg r language s turn.1 turn.2) s

/-- What a final adds to the transcript file. -/
def Recognizer.written (call : Nat × List α) : Text :=
  if r.text call = [] then []
  else '[' :: r.now call.1 ++ "] ".toList ++ r.text call ++ ['\n']

variable [UnicodeTables]

/-- The caption a line of stdout leaves in the window. -/
def captionOfLine (raw : Text) : Option Text :=
  (finalText raw).bind fun text =>
    if (cleanedFinal text).isEmpty || isHallucinationLine (cleanedFinal text) then none
    else some (shownText (cleanedFinal text))

/-- The caption of a final. -/
def Recognizer.caption (call : Nat × List α) : Option Text :=
  captionOfLine (finalLine (r.text call))

omit [UnicodeTables] in
theorem stripPrefix_finalLine (text : Text) :
    stripPrefix "@@FINAL\t".toList (trimStart (finalLine text)) = some text := by
  rw [trimStart_finalLine]
  exact stripPrefix_append _ text

theorem captionOfLine_previewLine (text : Text) : captionOfLine (previewLine text) = none := by
  rw [captionOfLine, finalText, trimStart_previewLine, stripPrefix_final_previewLine, ite_self]
  rfl

/-- A final without a text leaves no caption. -/
theorem captionOfLine_finalLine_nil : captionOfLine (finalLine []) = none := by
  unfold captionOfLine finalText
  rw [stripPrefix_finalLine]
  split_ifs <;> rfl

variable {r} {s : Consumer α} {request : CaptionRequest α}

omit [UnicodeTables] in
theorem process_preview (hkind : request.kind = .preview) :
    ∃ told, (s.process r language request).printed = s.printed ++ told ∧
      (told = [] ∨ told = [previewLine (r.text (s.calls, request.audio))]) ∧
      (s.process r language request).transcript = s.transcript := by
  unfold Consumer.process LocalMeetingStt.process
  rw [hkind]
  dsimp only
  split_ifs
  · exact ⟨_, rfl, .inr rfl, List.append_nil _⟩
  · exact ⟨_, rfl, .inl rfl, List.append_nil _⟩

omit [UnicodeTables] in
theorem process_final (hkind : request.kind = .final) :
    ∃ told, (s.process r language request).printed = s.printed ++ told ∧
      (told = [finalLine (r.text (s.calls, request.audio))] ∨
        r.text (s.calls, request.audio) = [] ∧ (told = [] ∨ told = [previewLine []])) ∧
      (s.process r language request).transcript =
        s.transcript ++ r.written (s.calls, request.audio) := by
  unfold Consumer.process LocalMeetingStt.process Recognizer.written
  rw [hkind]
  dsimp only
  by_cases htext : r.text (s.calls, request.audio) = []
  · rw [if_pos htext, if_neg (not_not.mpr htext)]
    split_ifs
    · exact ⟨_, rfl, .inr ⟨htext, .inr rfl⟩, rfl⟩
    · exact ⟨_, rfl, .inr ⟨htext, .inl rfl⟩, rfl⟩
  · rw [if_neg htext, if_pos htext]
    exact ⟨_, rfl, .inl rfl, rfl⟩

/-! ## What was told so far -/

/-- The finals that were recognized so far, each with the number of its call, and where they
    have gone. -/
structure Told (r : Recognizer α) (s : Consumer α) (spoken : List (Nat × List α)) : Prop where
  before : ∀ call ∈ spoken, call.1 < s.calls
  once : spoken.Pairwise fun call later => call.1 < later.1
  written : s.transcript = spoken.flatMap r.written
  captions : s.printed.filterMap captionOfLine = spoken.filterMap r.caption
  lines : ∀ line ∈ s.printed, line = previewLine [] ∨
    ∃ call, line = previewLine (r.text call) ∨ line = finalLine (r.text call)

variable {spoken : List (Nat × List α)}

theorem Told.preview (h : Told r s spoken) (hkind : request.kind = .preview) :
    Told r (s.process r language request) spoken := by
  obtain ⟨told, hprinted, htold, htranscript⟩ := process_preview (r := r) (s := s) language hkind
  refine ⟨fun call hcall => Nat.lt_succ_of_lt (h.before call hcall), h.once,
    htranscript.trans h.written, ?_, fun line hline => ?_⟩
  · have hnone : told.filterMap captionOfLine = [] := by
      rcases htold with rfl | rfl
      · rfl
      · rw [List.filterMap_cons_none (captionOfLine_previewLine _)]
        rfl
    rw [hprinted, List.filterMap_append, hnone, List.append_nil, h.captions]
  · rw [hprinted] at hline
    rcases List.mem_append.mp hline with hline | hline
    · exact h.lines line hline
    · rcases htold with rfl | rfl
      · cases hline
      · exact .inr ⟨_, .inl (List.mem_singleton.mp hline)⟩

theorem Told.final (h : Told r s spoken) (hkind : request.kind = .final) :
    Told r (s.process r language request) (spoken ++ [(s.calls, request.audio)]) := by
  obtain ⟨told, hprinted, htold, htranscript⟩ := process_final (r := r) (s := s) language hkind
  refine ⟨fun call hcall => ?_, ?_, ?_, ?_, fun line hline => ?_⟩
  · rcases List.mem_append.mp hcall with hcall | hcall
    · exact Nat.lt_succ_of_lt (h.before call hcall)
    · rw [List.mem_singleton.mp hcall]
      exact Nat.lt_succ_self _
  · rw [List.pairwise_append]
    refine ⟨h.once, List.pairwise_singleton _ _, fun call hcall later hlater => ?_⟩
    rw [List.mem_singleton.mp hlater]
    exact h.before call hcall
  · rw [htranscript, h.written, List.flatMap_append, List.flatMap_singleton]
  · have hcaption : told.filterMap captionOfLine =
        (r.caption (s.calls, request.audio)).toList := by
      rw [Recognizer.caption]
      rcases htold with rfl | ⟨hnil, htold⟩
      · cases hline : captionOfLine (finalLine (r.text (s.calls, request.audio))) <;> simp [hline]
      · rw [hnil, captionOfLine_finalLine_nil]
        rcases htold with rfl | rfl
        · rfl
        · simp [captionOfLine_previewLine]
    rw [hprinted, List.filterMap_append, List.filterMap_append, h.captions, hcaption]
    cases hc : r.caption (s.calls, request.audio) <;> simp [hc]
  · rw [hprinted] at hline
    rcases List.mem_append.mp hline with hline | hline
    · exact h.lines line hline
    · rcases htold with rfl | ⟨-, rfl | rfl⟩
      · exact .inr ⟨_, .inr (List.mem_singleton.mp hline)⟩
      · cases hline
      · exact .inl (List.mem_singleton.mp hline)

/-- One `feed`: its finals are told, whatever becomes of the previews. -/
theorem Told.handle (stopped : Bool) (requests : List (CaptionRequest α)) :
    ∀ (latestPartial : Option (CaptionRequest α)) {s : Consumer α}
      {spoken : List (Nat × List α)}, (∀ p, latestPartial = some p → p.kind = .preview) →
      Told r s spoken →
      ∃ more, Told r (s.handle r language stopped latestPartial requests) (spoken ++ more) ∧
        more.map (·.2) = finalAudio requests := by
  induction requests with
  | nil =>
    intro latestPartial s spoken hlatest h
    refine ⟨[], ?_, rfl⟩
    rw [List.append_nil]
    cases latestPartial with
    | none =>
      rw [Consumer.handle]
      split_ifs <;> exact h
    | some p =>
      rw [Consumer.handle]
      split_ifs
      · exact h
      · exact h.preview language (hlatest p rfl)
  | cons request requests ih =>
    intro latestPartial s spoken _ h
    cases hkind : request.kind with
    | preview =>
      have hrequest : ∀ p, some request = some p → p.kind = .preview := by
        intro p hp
        rw [← Option.some.inj hp, hkind]
      obtain ⟨more, htold, haudio⟩ := ih (some request) hrequest h
      refine ⟨more, ?_, ?_⟩
      · rw [Consumer.handle, hkind]
        exact htold
      · rw [haudio]
        simp [finalAudio, hkind]
    | final =>
      have hnone : ∀ p : CaptionRequest α, none = some p → p.kind = .preview := by
        intro p hp
        exact absurd hp (Option.some_ne_none p).symm
      obtain ⟨more, htold, haudio⟩ := ih none hnone (h.final language hkind)
      refine ⟨(s.calls, request.audio) :: more, ?_, ?_⟩
      · rw [Consumer.handle, hkind]
        rwa [List.append_assoc] at htold
      · rw [List.map_cons, haudio]
        simp [finalAudio, hkind]

theorem Told.turn (h : Told r s spoken) (cfg : Segmenter.Config α) (blocks : List (List α))
    (stopped : Bool) :
    ∃ more, Told r (s.turn cfg r language blocks stopped) (spoken ++ more) ∧
      more.map (·.2) = finalAudio (Segmenter.feed cfg s.segmenter blocks.flatten).2 :=
  Told.handle language stopped _ none nofun
    ⟨h.before, h.once, h.written, h.captions, h.lines⟩

omit [UnicodeTables] in
theorem handle_segmenter (stopped : Bool) (requests : List (CaptionRequest α)) :
    ∀ (latestPartial : Option (CaptionRequest α)) (s : Consumer α),
      (s.handle r language stopped latestPartial requests).segmenter = s.segmenter := by
  induction requests with
  | nil =>
    intro latestPartial s
    rw [Consumer.handle]
    cases latestPartial with
    | none => split_ifs <;> rfl
    | some p => split_ifs <;> rfl
  | cons request requests ih =>
    intro latestPartial s
    rw [Consumer.handle]
    cases request.kind with
    | preview => exact ih _ s
    | final => exact ih none _

/-- The turns of the loop. -/
theorem Told.turns (cfg : Segmenter.Config α) (turns : List (List (List α) × Bool)) :
    ∀ {s : Consumer α} {spoken : List (Nat × List α)}, Told r s spoken →
      ∃ more, Told r (s.turns cfg r language turns) (spoken ++ more) ∧
        (s.turns cfg r language turns).segmenter =
          (feedAll cfg s.segmenter (turns.map fun turn => turn.1.flatten)).1 ∧
        more.map (·.2) =
          finalAudio (feedAll cfg s.segmenter (turns.map fun turn => turn.1.flatten)).2 := by
  induction turns with
  | nil =>
    intro s spoken h
    exact ⟨[], by rwa [List.append_nil], rfl, rfl⟩
  | cons turn turns ih =>
    intro s spoken h
    obtain ⟨blocks, stopped⟩ := turn
    obtain ⟨first, hfirst, haudio⟩ := h.turn language cfg blocks stopped
    obtain ⟨more, hmore, hsegmenter, haudio'⟩ := ih hfirst
    have hnext : (s.turn cfg r language blocks stopped).segmenter =
        (Segmenter.feed cfg s.segmenter blocks.flatten).1 := handle_segmenter language _ _ _ _
    rw [hnext] at hsegmenter haudio'
    refine ⟨first ++ more, ?_, hsegmenter, ?_⟩
    · rwa [List.append_assoc] at hmore
    · rw [List.map_append, haudio, haudio']
      exact (Segmenter.finalAudio_append _ _).symm

/-- The finals of `finish`, one after the other. -/
theorem Told.finals (requests : List (CaptionRequest α)) :
    ∀ {s : Consumer α} {spoken : List (Nat × List α)},
      (∀ request ∈ requests, request.kind = .final) → Told r s spoken →
      ∃ more, Told r (requests.foldl (Consumer.process r language) s) (spoken ++ more) ∧
        more.map (·.2) = finalAudio requests := by
  induction requests with
  | nil =>
    intro s spoken _ h
    exact ⟨[], by rwa [List.append_nil], rfl⟩
  | cons request requests ih =>
    intro s spoken hkinds h
    have hkind := hkinds request List.mem_cons_self
    obtain ⟨more, htold, haudio⟩ :=
      ih (fun q hq => hkinds q (.tail request hq)) (h.final language hkind)
    refine ⟨(s.calls, request.audio) :: more, ?_, ?_⟩
    · rwa [List.append_assoc] at htold
    · rw [List.map_cons, haudio]
      simp [finalAudio, hkind]

omit [UnicodeTables] in
instance (raw : Text) : Decidable (ControlLine raw) := inferInstanceAs (Decidable (_ ∨ _))

omit [UnicodeTables] in
/-- No line of a text starts or ends inside it, and no escape sequence. -/
def Plain (text : Text) : Prop := ∀ c ∈ text, (c ≠ '\n' ∧ c ≠ '\r') ∧ c ≠ '\u001b'

instance : DecidablePred Plain := fun text => List.decidableBAll _ text

omit [UnicodeTables] in
theorem Plain.printable {line : Text} (h : Plain line) (hshown : (trim line).isEmpty = false) :
    Printable line where
  one_line := fun c hc => (h c hc).1
  no_escape := fun hc => (h _ hc).2 rfl
  shown := hshown

omit [UnicodeTables] in
theorem trim_at (text : Text) : ∃ rest, trim ('@' :: text) = '@' :: rest := by
  have hstart : trim ('@' :: text) = List.rdropWhile isWhitespace ('@' :: text) := by
    rw [trim, trimStart, List.dropWhile_cons_of_neg (by decide)]
  rw [hstart]
  obtain ⟨behind, hsplit⟩ := List.rdropWhile_prefix isWhitespace ('@' :: text)
  cases hcut : List.rdropWhile isWhitespace ('@' :: text) with
  | nil =>
    have hall := List.rdropWhile_eq_nil_iff.mp hcut '@' List.mem_cons_self
    exact absurd hall (by decide)
  | cons c rest =>
    rw [hcut, List.cons_append, List.cons.injEq] at hsplit
    exact ⟨rest, by rw [hsplit.1]⟩

/-- A line with a tag is read as it was printed, and has no stamp. -/
theorem read_tagged {tag : Text} (text : Text) (htag : Plain ('@' :: tag)) (htext : Plain text) :
    Printable ('@' :: tag ++ text) ∧ Unstamped ('@' :: tag ++ text) := by
  have hboth : Plain ('@' :: tag ++ text) := by
    intro c hc
    rcases List.mem_append.mp hc with hc | hc
    · exact htag c hc
    · exact htext c hc
  obtain ⟨rest, htrim⟩ := trim_at (tag ++ text)
  rw [← List.cons_append] at htrim
  refine ⟨hboth.printable ?_, ?_⟩
  · rw [htrim]
    rfl
  · rw [Unstamped, htrim]
    rfl

theorem previewLine_read {text : Text} (h : Plain text) :
    Printable (previewLine text) ∧ Unstamped (previewLine text) := by
  rw [previewLine_eq]
  exact read_tagged text (by decide) h

theorem finalLine_read {text : Text} (h : Plain text) :
    Printable (finalLine text) ∧ Unstamped (finalLine text) := by
  rw [finalLine_eq]
  exact read_tagged text (by decide) h

theorem Told.read (h : Told r s spoken) (hplain : ∀ call, Plain (r.text call)) :
    ∀ line ∈ s.printed, Printable line ∧ Unstamped line := by
  intro line hline
  rcases h.lines line hline with rfl | ⟨call, rfl | rfl⟩
  · exact previewLine_read nofun
  · exact previewLine_read (hplain call)
  · exact finalLine_read (hplain call)

/-! ## What is read is a caption -/

end

end Live
end LocalMeetingStt
