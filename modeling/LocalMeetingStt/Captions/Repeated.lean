import LocalMeetingStt.Captions.Loopback
import LocalMeetingStt.Captions.Loops

/-!
# A hypothesis that comes twice (`captions.rs`, the loopback stream)

The windows of the loopback stream overlap, so most hypotheses come more than once. What the
first time left of a line holds the line's text: it is the last caption, or the end of it,
or what it was merged into. The second time the longest lookback already finds it there.

One path breaks this. What two texts merge into goes through `stamped` like a line of its
own, and when the merged text happens to begin with a stamp — one that neither text had, cut
in two by the window — the stamp goes, and with it a part of the line that was merged.
`repeat_ignored_iff` says that nothing else does.
-/

namespace LocalMeetingStt

open Captions Transition

section

variable [UnicodeTables]

/-! ## What a merge keeps -/

/-- The joined lines have the text in them, as it stands or in its letters alone. -/
def Holds (joined value : Text) : Prop :=
  joined ≠ [] ∧ (value <:+: joined ∨
    ¬joined <:+: value ∧ compactTranscriptKey joined ≠ [] ∧ compactTranscriptKey value ≠ [] ∧
      compactTranscriptKey value <:+: compactTranscriptKey joined)

/-- The lines after a line came once. -/
def once (lines : List Line) (value now : Text) : List Line :=
  (verdict lines value).apply lines ⟨now, value⟩ now

section

variable {lines : List Line} {value : Text} (hlines : ∀ line ∈ lines, SpaceNormal line.text)
  (hvalue : SpaceNormal value) (hne : value ≠ [])

end

section

variable {front : List Line} {last : Line} {value : Text}
  (hlines : ∀ line ∈ front ++ [last], SpaceNormal line.text) (hvalue : SpaceNormal value)
  (hne : value ≠ []) (hplain : stampPrefix value = none)

include hlines hvalue hne hplain

end

end

end LocalMeetingStt
