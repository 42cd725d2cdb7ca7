import LocalMeetingStt.Captions.Text

/-!
# The `Captions` state machine (`captions.rs`)

`Captions` holds the committed lines, the caption still being recognized, and what has
changed since the last `take_update`. Two things can change it: a line of the
backend's stdout (`ingestLine`, in three dialects) and a `takeUpdate`.

Only three operations touch the lines, `push`, `replaceTail` and the do-nothing arms,
and each pairs its edit with a `mark`. Everything else in this file decides *which* of
them a stdout line leads to. `Edit` at the end names that fact: it is what every
invariant of the transcript is proved from, so none of them unfolds the merge logic.
-/

namespace LocalMeetingStt

/-- A change for the page: from which line the transcript changed, what stands there
    now, and the unfinished caption. -/
structure Update where
  start : Nat
  lines : List Line
  partialLine : Option Line
deriving DecidableEq, Repr

/-- What a stdout line turned out to be. -/
inductive Handled where
  /-- A caption; the log does not need it. -/
  | caption
  /-- A loopback stream caption; logged with this text. -/
  | captionLogged (text : Text)
  /-- The transcript file's path. -/
  | transcriptPath (path : Text)
  /-- Not a caption: logged as it is. -/
  | log
deriving DecidableEq, Repr

/-- `Captions` -/
structure Captions where
  lines : List Line
  partialLine : Option Line
  loopbackStream : Bool
  dirtyFrom : Option Nat
  partialDirty : Bool
deriving DecidableEq, Repr

namespace Captions

/-- `Captions::new` -/
def new (loopbackStream : Bool) : Captions :=
  { lines := [], partialLine := none, loopbackStream, dirtyFrom := none, partialDirty := false }

/-! ## The edits -/

def mark (c : Captions) (start : Nat) : Captions :=
  { c with dirtyFrom := some ((c.dirtyFrom.map fun current => min current start).getD start) }

/-- `set_partial` -/
def setPartial (c : Captions) (line : Option Line) : Captions :=
  if c.partialLine ≠ line then { c with partialLine := line, partialDirty := true } else c

/-- `push` -/
def push (c : Captions) (line : Line) : Captions :=
  let c := c.mark c.lines.length
  { c with lines := c.lines ++ [line] }

/-- `replace_tail` -/
def replaceTail (c : Captions) (start : Nat) (line : Line) : Captions :=
  if c.lines.length = start + 1 ∧ c.lines[start]? = some line then c
  else
    let c := { c with lines := c.lines.take start }
    let c := c.mark start
    { c with lines := c.lines ++ [line] }

/-! ## Committing a line -/

section

variable [UnicodeTables]

/-- The transcript as the file holds it, `[time] text` a line. -/
def rendered (c : Captions) : Text :=
  c.lines.flatMap fun line => '[' :: line.time ++ "] ".toList ++ line.text ++ ['\n']

/-- `append_preview_line` -/
def appendPreviewLine (c : Captions) (line now : Text) : Captions :=
  let value := normalizeJapaneseSpacing line
  match stamped value now with
  | none => c
  | some next =>
    if contains c.rendered value ||
        contains c.rendered ('[' :: next.time ++ "] ".toList ++ next.text) then c
    else c.push next

/-- What the compact keys of the shown tail and the new line say: `none` when the text
    itself has to decide. -/
def mergeByKey (c : Captions) (start : Nat) (line : Line) (tailKey valueKey : Text) :
    Option Captions :=
  if !tailKey.isEmpty && !valueKey.isEmpty then
    if contains tailKey valueKey then some c
    else if contains valueKey tailKey then some (c.replaceTail start line)
    else
      let overlap := compactOverlapLength tailKey valueKey
      let shorter := min tailKey.length valueKey.length
      -- `(shorter as f64 * 0.45).floor()`, which is exact at these sizes
      if overlap ≥ 8 ∨ overlap ≥ shorter * 9 / 20 then some (c.replaceTail start line)
      else none
  else none

/-- What the text itself says when the keys did not decide. -/
def mergeByText (c : Captions) (start : Nat) (tail value now : Text) : Option Captions :=
  let merge := mergePartialText tail value
  if merge.samePhrase || partialLooksRelated tail value then
    match stamped merge.merged now with
    | some line => some (c.replaceTail start line)
    | none => some c
  else none

/-- One pass of the lookback loop, over the last `count` lines: `none` continues it. -/
def mergeStep (c : Captions) (line : Line) (value valueKey now : Text) (count : Nat) :
    Option Captions :=
  let start := c.lines.length - count
  let tail := normalizeJapaneseSpacing ((c.lines.drop start).flatMap (·.text))
  if tail.isEmpty then none
  else if tail == value || contains tail value then some c
  else if contains value tail then some (c.replaceTail start line)
  else
    (c.mergeByKey start line (compactTranscriptKey tail) valueKey).or
      (c.mergeByText start tail value now)

/-- `append_or_merge_final_line` -/
def appendOrMergeFinalLine (c : Captions) (line now : Text) : Captions :=
  match stamped line now with
  | none => c
  | some stampedValue =>
    let value := normalizeJapaneseSpacing stampedValue.text
    if value.isEmpty || isHallucinationLine value || onlyPunctuation value then c
    else if c.lines.isEmpty then c.push stampedValue
    else
      let valueKey := compactTranscriptKey value
      ((downTo 1 (min c.lines.length 4)).findSome? fun count =>
        c.mergeStep stampedValue value valueKey now count).getD (c.push stampedValue)

/-- `commit_loopback_line` -/
def commitLoopbackLine (c : Captions) (line now : Text) : Captions :=
  let value := cleanTranscriptText line
  if value.isEmpty || isHallucinationLine value then c
  else c.appendOrMergeFinalLine value now

/-- `commit_utterance_line` -/
def commitUtteranceLine (c : Captions) (line now : Text) : Captions :=
  let value := cleanTranscriptText line
  if value.isEmpty || isHallucinationLine value then c
  else
    match stamped value now with
    | some line => c.push line
    | none => c

/-! ## One stdout line -/

/-- Reads one stdout line (ANSI codes already stripped). `now` is `HH:MM:SS`. -/
def ingestLine (c : Captions) (raw now : Text) : Captions × Handled :=
  match transcriptCapture raw with
  | some found => (c, .transcriptPath (trim found))
  | none =>
    let line := trimStart raw
    match stripPrefix "@@PARTIAL\t".toList line with
    | some text =>
      let c := c.setPartial (stamped (cleanTranscriptText text) now)
      (c, if c.loopbackStream then .captionLogged ("preview: ".toList ++ text) else .caption)
    | none =>
      match stripPrefix "@@FINAL\t".toList line with
      | some text =>
        let finalText := cleanTranscriptText text
        let c := c.setPartial none
        if c.loopbackStream then
          (c.commitLoopbackLine finalText now, .captionLogged ("final: ".toList ++ text))
        else (c.commitUtteranceLine finalText now, .caption)
      | none =>
        let trimmed := trim raw
        if trimmed.isEmpty then (c, .log)
        else if c.loopbackStream then (c.commitLoopbackLine trimmed now, .captionLogged trimmed)
        else if isStampedLine trimmed then (c.appendPreviewLine trimmed now, .caption)
        else (c, .log)

end

/-- What changed since the last update: the lines from the dirty index on. -/
def changes (c : Captions) : Update :=
  let start := min (c.dirtyFrom.getD c.lines.length) c.lines.length
  { start, lines := c.lines.drop start, partialLine := c.partialLine }

/-- The change since the last call, if anything changed. -/
def takeUpdate (c : Captions) : Captions × Option Update :=
  if c.dirtyFrom.isNone && !c.partialDirty then (c, none)
  else ({ c with dirtyFrom := none, partialDirty := false }, some c.changes)

/-! ## What one stdout line can do

The one place that follows `ingestLine` through its branches. -/

/-- Everything that can happen to the lines: nothing, one line more, or the lines from
    `start` on, at most the last four of them, becoming one line. -/
inductive Edit (c : Captions) : Captions → Prop
  | keep : Edit c c
  | push (line : Line) : Edit c (c.push line)
  | replace (start : Nat) (line : Line) (some_line : start < c.lines.length)
      (last_four : c.lines.length ≤ start + 4) : Edit c (c.replaceTail start line)

/-- An edit whose new line, if there is one, is as `P` says. -/
inductive EditBy (P : Line → Prop) (c : Captions) : Captions → Prop
  | keep : EditBy P c c
  | push (line : Line) (new_line : P line) : EditBy P c (c.push line)
  | replace (start : Nat) (line : Line) (new_line : P line) (some_line : start < c.lines.length)
      (last_four : c.lines.length ≤ start + 4) : EditBy P c (c.replaceTail start line)

theorem EditBy.edit {P : Line → Prop} {c c' : Captions} (h : EditBy P c c') : Edit c c' := by
  cases h with
  | keep => exact .keep
  | push line _ => exact .push line
  | replace start line _ hlt hfour => exact .replace start line hlt hfour

/-- Outside a loopback stream a line is only ever appended. -/
inductive Append (c : Captions) : Captions → Prop
  | keep : Append c c
  | push (line : Line) : Append c (c.push line)

theorem Append.edit {c c' : Captions} (h : Append c c') : Edit c c' := by
  cases h with
  | keep => exact .keep
  | push line => exact .push line

/-- Appending touches neither the partial nor the dialect. -/
theorem Append.frame {c c' : Captions} (h : Append c c') :
    c'.partialLine = c.partialLine ∧ c'.loopbackStream = c.loopbackStream := by
  cases h <;> exact ⟨rfl, rfl⟩

theorem mem_downTo_iff {lo hi k : Nat} : k ∈ downTo lo hi ↔ lo ≤ k ∧ k ≤ hi := by
  simp only [downTo, List.mem_reverse, List.mem_range'_1]
  omega

@[simp] theorem push_lines (c : Captions) (line : Line) :
    (c.push line).lines = c.lines ++ [line] := rfl

/-- Also when the line was there already and nothing is marked. -/
@[simp] theorem replaceTail_lines (c : Captions) (start : Nat) (line : Line) :
    (c.replaceTail start line).lines = c.lines.take start ++ [line] := by
  unfold replaceTail
  split_ifs with hsame
  · obtain ⟨hlen, hline⟩ := hsame
    have htake := List.take_add_one (l := c.lines) (i := start)
    rw [hline, ← hlen, List.take_length] at htake
    exact htake
  · rfl

@[simp] theorem setPartial_loopbackStream (c : Captions) (line : Option Line) :
    (c.setPartial line).loopbackStream = c.loopbackStream := by
  unfold setPartial; split_ifs <;> rfl

@[simp] theorem setPartial_lines (c : Captions) (line : Option Line) :
    (c.setPartial line).lines = c.lines := by
  unfold setPartial; split_ifs <;> rfl

@[simp] theorem setPartial_dirtyFrom (c : Captions) (line : Option Line) :
    (c.setPartial line).dirtyFrom = c.dirtyFrom := by
  unfold setPartial; split_ifs <;> rfl

@[simp] theorem setPartial_partialLine (c : Captions) (line : Option Line) :
    (c.setPartial line).partialLine = line := by
  unfold setPartial
  split_ifs with h
  · rfl
  · exact not_not.mp h

theorem mergeByKey_editBy {P : Line → Prop} {c c' : Captions} {start : Nat} {line : Line}
    {tailKey valueKey : Text} (hline : P line) (hlt : start < c.lines.length)
    (hfour : c.lines.length ≤ start + 4)
    (h : c.mergeByKey start line tailKey valueKey = some c') : EditBy P c c' := by
  unfold mergeByKey at h
  dsimp only at h
  split_ifs at h
  · exact Option.some.inj h ▸ .keep
  · exact Option.some.inj h ▸ .replace start line hline hlt hfour
  · exact Option.some.inj h ▸ .replace start line hline hlt hfour

section

variable [UnicodeTables]

/-- The text of the lines from `start` on, as a new line is compared with it. -/
def tailText (lines : List Line) (start : Nat) : Text :=
  normalizeJapaneseSpacing ((lines.drop start).flatMap (·.text))

/-- `P` holds of every line `ingestLine` can make of these lines: a stamped cleaned text, a
    stamped spaced text, and what such a line and a tail merge into. -/
structure Makes (P : Line → Prop) (lines : List Line) (now : Text) : Prop where
  cleaned : ∀ text line, stamped (cleanTranscriptText text) now = some line → P line
  spaced : ∀ text line, stamped (normalizeJapaneseSpacing text) now = some line → P line
  merged : ∀ start line line', P line →
    stamped (mergePartialText (tailText lines start) (normalizeJapaneseSpacing line.text)).merged
      now = some line' → P line'

theorem mergeByText_editBy {P : Line → Prop} {c c' : Captions} {start : Nat}
    {tail value now : Text}
    (hmerged : ∀ line, stamped (mergePartialText tail value).merged now = some line → P line)
    (hlt : start < c.lines.length) (hfour : c.lines.length ≤ start + 4)
    (h : c.mergeByText start tail value now = some c') : EditBy P c c' := by
  simp only [mergeByText] at h
  split_ifs at h
  split at h
  next line hstamped =>
    exact Option.some.inj h ▸ .replace start line (hmerged line hstamped) hlt hfour
  next => exact Option.some.inj h ▸ .keep

theorem mergeStep_editBy {P : Line → Prop} {c c' : Captions} {line : Line}
    {valueKey now : Text} {count : Nat} (hmakes : Makes P c.lines now) (hline : P line)
    (hpos : 1 ≤ count) (hfour : count ≤ 4) (hlen : count ≤ c.lines.length)
    (h : c.mergeStep line (normalizeJapaneseSpacing line.text) valueKey now count = some c') :
    EditBy P c c' := by
  have hlt : c.lines.length - count < c.lines.length := by omega
  have hle : c.lines.length ≤ c.lines.length - count + 4 := by omega
  simp only [mergeStep] at h
  split_ifs at h
  · exact Option.some.inj h ▸ .keep
  · exact Option.some.inj h ▸ .replace _ line hline hlt hle
  · rcases Option.or_eq_some_iff.mp h with hkey | ⟨-, htext⟩
    · exact mergeByKey_editBy hline hlt hle hkey
    · exact mergeByText_editBy (hmakes.merged _ line · hline) hlt hle htext

theorem appendOrMergeFinalLine_editBy {P : Line → Prop} {c : Captions} {line now : Text}
    (hmakes : Makes P c.lines now) (hline : ∀ next, stamped line now = some next → P next) :
    EditBy P c (c.appendOrMergeFinalLine line now) := by
  unfold appendOrMergeFinalLine
  split
  · exact .keep
  · next stampedValue hstamped =>
    have hnext := hline stampedValue hstamped
    dsimp only
    split_ifs
    · exact .keep
    · exact .push _ hnext
    · rcases hfind : (downTo 1 (min c.lines.length 4)).findSome? fun count =>
          c.mergeStep stampedValue (normalizeJapaneseSpacing stampedValue.text)
            (compactTranscriptKey (normalizeJapaneseSpacing stampedValue.text)) now count
        with _ | c'
      · exact .push _ hnext
      · obtain ⟨count, hmem, hstep⟩ := List.exists_of_findSome?_eq_some hfind
        have := mem_downTo_iff.mp hmem
        exact mergeStep_editBy hmakes hnext (by omega) (by omega) (by omega) hstep

theorem commitLoopbackLine_editBy {P : Line → Prop} {c : Captions} {now : Text}
    (hmakes : Makes P c.lines now) (line : Text) :
    EditBy P c (c.commitLoopbackLine line now) := by
  unfold commitLoopbackLine
  dsimp only
  split_ifs
  · exact .keep
  · exact appendOrMergeFinalLine_editBy hmakes (hmakes.cleaned line)

theorem commitUtteranceLine_editBy {P : Line → Prop} {c : Captions} {now : Text}
    (hmakes : Makes P c.lines now) (line : Text) :
    EditBy P c (c.commitUtteranceLine line now) := by
  unfold commitUtteranceLine
  dsimp only
  split_ifs
  · exact .keep
  · split
    · next next hstamped => exact .push _ (hmakes.cleaned line next hstamped)
    · exact .keep

theorem appendPreviewLine_editBy {P : Line → Prop} {c : Captions} {now : Text}
    (hmakes : Makes P c.lines now) (line : Text) :
    EditBy P c (c.appendPreviewLine line now) := by
  unfold appendPreviewLine
  dsimp only
  split
  · exact .keep
  · next next hstamped =>
    split_ifs
    · exact .keep
    · exact .push _ (hmakes.spaced line next hstamped)

theorem commitUtteranceLine_append (c : Captions) (line now : Text) :
    Append c (c.commitUtteranceLine line now) := by
  unfold commitUtteranceLine
  dsimp only
  split_ifs
  · exact .keep
  · split
    · exact .push _
    · exact .keep

theorem appendPreviewLine_append (c : Captions) (line now : Text) :
    Append c (c.appendPreviewLine line now) := by
  unfold appendPreviewLine
  dsimp only
  split
  · exact .keep
  · split_ifs
    · exact .keep
    · exact .push _

/-- **One stdout line sets the partial or leaves it, and then makes one edit.** The partial
    is none, or a line like the others. -/
theorem ingestLine_editBy {P : Line → Prop} {c : Captions} {now : Text}
    (hmakes : Makes P c.lines now) (raw : Text) :
    ∃ c₁, (c₁ = c ∨ ∃ line, c₁ = c.setPartial line ∧ ∀ next ∈ line, P next) ∧
      EditBy P c₁ (c.ingestLine raw now).1 := by
  unfold ingestLine
  split
  · exact ⟨c, .inl rfl, .keep⟩
  · dsimp only
    split
    · next text _ => exact ⟨_, .inr ⟨_, rfl, hmakes.cleaned text⟩, .keep⟩
    · split
      · have hmakes : Makes P (c.setPartial none).lines now := by
          rw [setPartial_lines]
          exact hmakes
        refine ⟨c.setPartial none, .inr ⟨none, rfl, fun _ h => absurd h (by simp)⟩, ?_⟩
        split_ifs <;> dsimp only
        · exact commitLoopbackLine_editBy hmakes _
        · exact commitUtteranceLine_editBy hmakes _
      · refine ⟨c, .inl rfl, ?_⟩
        split_ifs <;> dsimp only
        · exact .keep
        · exact commitLoopbackLine_editBy hmakes _
        · exact appendPreviewLine_editBy hmakes _
        · exact .keep

/-- The same, whatever the lines are. -/
theorem ingestLine_edit (c : Captions) (raw now : Text) :
    ∃ c₁, (c₁ = c ∨ ∃ line, c₁ = c.setPartial line) ∧ Edit c₁ (c.ingestLine raw now).1 := by
  have hmakes : Makes (fun _ => True) c.lines now :=
    ⟨fun _ _ _ => trivial, fun _ _ _ => trivial, fun _ _ _ _ _ => trivial⟩
  obtain ⟨c₁, hpartial, hedit⟩ := ingestLine_editBy hmakes raw
  refine ⟨c₁, ?_, hedit.edit⟩
  rcases hpartial with rfl | ⟨line, rfl, -⟩
  · exact Or.inl rfl
  · exact Or.inr ⟨line, rfl⟩

end

end Captions

end LocalMeetingStt
