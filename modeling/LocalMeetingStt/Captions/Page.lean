import LocalMeetingStt.Captions.State
import LocalMeetingStt.Lib.Replica

/-!
# The page's copy of the transcript (`app.js`, `flushStreams`)

`Jobs::watch` takes an update after every read of the backend's stdout and sends it;
the page queues it and applies the whole queue at its next animation frame. The page
never sees a `Captions`, so what it shows is right only if the updates alone determine
it, and only if none of them starts beyond the lines the page has.

`Replica.Stale` is the invariant: the page as of the last `takeUpdate` and the current
lines agree below `dirtyFrom`. It is preserved by each of the three edits of
`Captions.Edit`, so the merge logic of the loopback dialect never appears here.
-/

namespace LocalMeetingStt

open Replica

namespace Captions

/-! ## The dirty index is a mark -/

/-- The page's lines against the current ones, under the dirty index. -/
def LinesStale (page : List Line) (c : Captions) : Prop := Stale c.dirtyFrom page c.lines

theorem LinesStale.setPartial {page : List Line} {c : Captions} (h : c.LinesStale page)
    (line : Option Line) : (c.setPartial line).LinesStale page := by
  unfold Captions.setPartial
  split_ifs <;> exact h

theorem LinesStale.edit {page : List Line} {c c' : Captions} (h : c.LinesStale page)
    (he : Edit c c') : c'.LinesStale page := by
  cases he with
  | keep => exact h
  | push line =>
    have hkeep : (c.lines ++ [line]).take c.lines.length = c.lines.take c.lines.length := by simp
    exact Stale.edit h le_rfl (by simp [Captions.push, Captions.mark]) hkeep
  | replace start line hlt _ =>
    unfold Captions.replaceTail
    split_ifs
    · exact h
    · have hkeep : (c.lines.take start ++ [line]).take start = c.lines.take start := by
        rw [List.take_append_of_le_length (by simp; omega), List.take_take, Nat.min_self]
      exact Stale.edit h hlt.le (by simp [Captions.mark]; omega) hkeep

/-- An edit of the lines leaves the partial and its flag alone. -/
theorem Edit.partialLine {c c' : Captions} (h : Edit c c') :
    c'.partialLine = c.partialLine ∧ c'.partialDirty = c.partialDirty := by
  cases h with
  | keep => exact ⟨rfl, rfl⟩
  | push line => exact ⟨rfl, rfl⟩
  | replace start line _ _ =>
    unfold Captions.replaceTail
    split_ifs <;> exact ⟨rfl, rfl⟩

/-- What a `takeUpdate` does to the flags, and the update it answers. -/
theorem takeUpdate_cases (c : Captions) :
    (c.dirtyFrom = none ∧ c.partialDirty = false ∧ c.takeUpdate = (c, none)) ∨
      c.takeUpdate = ({ c with dirtyFrom := none, partialDirty := false },
        some c.changes) := by
  unfold Captions.takeUpdate
  split_ifs with hclean
  · left
    simp only [Bool.and_eq_true, Option.isNone_iff_eq_none, Bool.not_eq_true'] at hclean
    exact ⟨hclean.1, hclean.2, rfl⟩
  · exact .inr rfl

end Captions

/-! ## The page -/

/-- What the page shows: the caption elements and the unfinished caption. -/
@[ext] structure Page where
  lines : List Line
  partialLine : Option Line
deriving DecidableEq, Repr

/-- The page before the first caption of a job. -/
def Page.empty : Page := ⟨[], none⟩

/-- The page a `Captions` stands for. -/
def Captions.shown (c : Captions) : Page := ⟨c.lines, c.partialLine⟩

/-- One update of the queue: `while (lines.children.length > update.from)` removes the
    last element, then the new ones are appended. -/
def Page.applyUpdate (p : Page) (u : Update) : Page :=
  ⟨patch u.start u.lines p.lines, u.partialLine⟩

/-- One frame: every queued update in order, and the last one's partial. -/
def Page.flushStreams (p : Page) (captionQueue : List Update) : Page :=
  captionQueue.foldl (fun q u => ⟨patch u.start u.lines q.lines, u.partialLine⟩) p

/-! ## Updates and what they stand for -/

/-- A taken update, with the captions as they were when it was taken. The page gets
    the update only; `asOf` is what it is compared with. -/
structure Taken where
  update : Update
  asOf : Page
deriving DecidableEq, Repr

/-- Applied one after the other, each update fits the page it meets and turns it into
    the captions it was taken from. -/
def Replays : Page → List Taken → Prop
  | _, [] => True
  | p, t :: rest =>
    t.update.start ≤ p.lines.length ∧ p.applyUpdate t.update = t.asOf ∧ Replays t.asOf rest

/-- What the page shows once the queue is applied, if the queue replays. -/
def lastAsOf : Page → List Taken → Page
  | p, [] => p
  | _, t :: rest => lastAsOf t.asOf rest

theorem Replays.flushStreams {p : Page} {queue : List Taken} (h : Replays p queue) :
    p.flushStreams (queue.map Taken.update) = lastAsOf p queue := by
  induction queue generalizing p with
  | nil => rfl
  | cons t rest ih =>
    obtain ⟨-, happly, hrest⟩ := h
    have hstep : p.flushStreams ((t :: rest).map Taken.update) =
        (p.applyUpdate t.update).flushStreams (rest.map Taken.update) := rfl
    rw [hstep, happly, ih hrest]
    rfl

theorem Replays.snoc {p : Page} {queue : List Taken} {t : Taken} (h : Replays p queue)
    (hfit : t.update.start ≤ (lastAsOf p queue).lines.length)
    (happly : (lastAsOf p queue).applyUpdate t.update = t.asOf) :
    Replays p (queue ++ [t]) ∧ lastAsOf p (queue ++ [t]) = t.asOf := by
  induction queue generalizing p with
  | nil => exact ⟨⟨hfit, happly, trivial⟩, rfl⟩
  | cons u rest ih =>
    obtain ⟨hu, hau, hrest⟩ := h
    obtain ⟨hr, hl⟩ := ih hrest hfit happly
    exact ⟨⟨hu, hau, hr⟩, hl⟩

/-! ## Captions and page together -/

/-- The reader thread's captions, the updates the page has queued, and the page.
    `asOf` remembers the captions at the last `takeUpdate`. -/
structure Screen where
  captions : Captions
  asOf : Page
  captionQueue : List Taken
  page : Page

/-- What happens between the start of a job and any moment of it. -/
inductive ScreenOp where
  /-- A stdout line arrives, at the wall-clock time `now`. -/
  | ingest (raw now : Text)
  /-- The read is over: the reader takes an update and sends it. -/
  | take
  /-- An animation frame. -/
  | frame
deriving DecidableEq, Repr

def Screen.start (loopbackStream : Bool) : Screen :=
  { captions := Captions.new loopbackStream, asOf := .empty, captionQueue := [], page := .empty }

/-- The queue replays onto the page and ends at the last taken captions, and the
    current captions are stale against those exactly as their two flags say. -/
structure Screen.Inv (s : Screen) : Prop where
  replays : Replays s.page s.captionQueue
  reaches : lastAsOf s.page s.captionQueue = s.asOf
  linesStale : s.captions.LinesStale s.asOf.lines
  partialStale : s.captions.partialDirty = false → s.asOf.partialLine = s.captions.partialLine

theorem Screen.inv_start (loopbackStream : Bool) : (Screen.start loopbackStream).Inv where
  replays := trivial
  reaches := rfl
  linesStale := rfl
  partialStale _ := rfl

theorem partialStale_setPartial {page : Page} {c : Captions} (line : Option Line)
    (h : c.partialDirty = false → page.partialLine = c.partialLine) :
    (c.setPartial line).partialDirty = false →
      page.partialLine = (c.setPartial line).partialLine := by
  unfold Captions.setPartial
  split_ifs with hne
  · intro hd; simp at hd
  · exact h

variable [UnicodeTables]

def Screen.step (s : Screen) : ScreenOp → Screen
  | .ingest raw now => { s with captions := (s.captions.ingestLine raw now).1 }
  | .take =>
    let (captions, update) := s.captions.takeUpdate
    { s with
      captions, asOf := s.captions.shown
      captionQueue := s.captionQueue ++ (update.map fun u => Taken.mk u s.captions.shown).toList }
  | .frame =>
    { s with page := s.page.flushStreams (s.captionQueue.map Taken.update), captionQueue := [] }

def Screen.run (s : Screen) (ops : List ScreenOp) : Screen := ops.foldl Screen.step s

theorem Screen.Inv.ingest {s : Screen} (h : s.Inv) (raw now : Text) :
    (s.step (.ingest raw now)).Inv := by
  obtain ⟨c₁, hpartial, hedit⟩ := s.captions.ingestLine_edit raw now
  have hlines : c₁.LinesStale s.asOf.lines := by
    rcases hpartial with rfl | ⟨line, rfl⟩
    · exact h.linesStale
    · exact h.linesStale.setPartial line
  have hpart : c₁.partialDirty = false → s.asOf.partialLine = c₁.partialLine := by
    rcases hpartial with rfl | ⟨line, rfl⟩
    · exact h.partialStale
    · exact partialStale_setPartial line h.partialStale
  obtain ⟨hp, hd⟩ := hedit.partialLine
  exact
    { replays := h.replays
      reaches := h.reaches
      linesStale := hlines.edit hedit
      partialStale := by intro hf; exact hp ▸ hpart (hd ▸ hf) }

theorem Screen.Inv.take {s : Screen} (h : s.Inv) : (s.step .take).Inv := by
  have hlines : Stale s.captions.dirtyFrom s.asOf.lines s.captions.lines := h.linesStale
  rcases s.captions.takeUpdate_cases with ⟨hfrom, hdirty, htake⟩ | htake
  · -- Nothing changed: the page already stands for the current captions.
    have hasOf : s.asOf = s.captions.shown := by
      rw [hfrom] at hlines
      exact Page.ext hlines (h.partialStale hdirty)
    simp only [Screen.step, htake, Option.map_none, Option.toList_none, List.append_nil]
    rw [← hasOf]
    exact ⟨h.replays, h.reaches, h.linesStale, h.partialStale⟩
  · -- The update joins the queue, and brings its end to the current captions.
    obtain ⟨hfit, hpatch⟩ := hlines.patch
    have happly : s.asOf.applyUpdate s.captions.changes = s.captions.shown :=
      Page.ext hpatch rfl
    obtain ⟨hreplays, hreaches⟩ := h.replays.snoc (t := ⟨s.captions.changes, s.captions.shown⟩)
      (by rw [h.reaches]; exact hfit) (by rw [h.reaches]; exact happly)
    simp only [Screen.step, htake, Option.map_some, Option.toList_some]
    exact ⟨hreplays, hreaches, rfl, fun _ => rfl⟩

theorem Screen.Inv.frame {s : Screen} (h : s.Inv) : (s.step .frame).Inv where
  replays := trivial
  reaches := h.replays.flushStreams.trans h.reaches
  linesStale := h.linesStale
  partialStale := h.partialStale

theorem Screen.Inv.step {s : Screen} (h : s.Inv) (op : ScreenOp) : (s.step op).Inv := by
  cases op with
  | ingest raw now => exact h.ingest raw now
  | take => exact h.take
  | frame => exact h.frame

theorem Screen.inv_run (loopbackStream : Bool) (ops : List ScreenOp) :
    ((Screen.start loopbackStream).run ops).Inv := by
  have hrun : ∀ (ops : List ScreenOp) (s : Screen), s.Inv → (s.run ops).Inv := by
    intro ops
    induction ops with
    | nil => exact fun s h => h
    | cons op rest ih => exact fun s h => ih _ (h.step op)
  exact hrun ops _ (Screen.inv_start loopbackStream)

/-- **The page replays the captions.** Whatever lines arrive, wherever updates are
    taken and wherever frames fall: every queued update fits the lines the page has
    when its turn comes and turns them into the captions it was taken from, and after
    a frame the page shows the lines and the partial of the last `takeUpdate`. -/
theorem page_replays_captions (loopbackStream : Bool) (ops : List ScreenOp) :
    Replays ((Screen.start loopbackStream).run ops).page
        ((Screen.start loopbackStream).run ops).captionQueue ∧
      (((Screen.start loopbackStream).run ops).step .frame).page =
        ((Screen.start loopbackStream).run ops).asOf := by
  have h := Screen.inv_run loopbackStream ops
  exact ⟨h.replays, h.replays.flushStreams.trans h.reaches⟩

end LocalMeetingStt
