import LocalMeetingStt.Captions.Text

/-!
# Chinese characters (`text_script.py`)

The optional conversion between the two scripts of Chinese, of a caption and of a whole
transcript. The converter is OpenCC's. A transcript is rewritten as a text file: its line
ends are read as `\n`, whichever they are, and written as Windows has them; what that comes
to for the lines is `rewritten_lines`. Files are kept as characters here.
-/

namespace LocalMeetingStt
namespace Post

/-- The configurations of OpenCC that are used. -/
inductive Config where
  | s2hk
  | t2s
deriving DecidableEq, Repr

/-- `_KANA.search` -/
def hasKana (text : Text) : Bool := text.any (inRange 0x3040 0x30ff)

section

variable (openCC : Config → Text → Text)

/-- A Japanese session is never converted, and a text with kana is left as it is. -/
def converter (script language : Text) (text : Text) : Text :=
  if script = "as-is".toList ∨ language = "ja".toList then text
  else if hasKana text then text
  else openCC (if script = "traditional".toList then .s2hk else .t2s) text

def convertLines (text script language : Text) : Text :=
  ['\n'].intercalate ((text.splitOn '\n').map (converter openCC script language))

/-- Each line is converted alone. -/
theorem convertLines_intercalate {lines : List Text} (hne : lines ≠ [])
    (hlines : ∀ line ∈ lines, '\n' ∉ line) (script language : Text) :
    convertLines openCC (['\n'].intercalate lines) script language =
      ['\n'].intercalate (lines.map (converter openCC script language)) := by
  unfold convertLines
  rw [List.splitOn_intercalate '\n' hlines hne]

end

/-! ## Text files -/

/-- `read_text`: every line end is read as `\n`. -/
def readText : Text → Text
  | [] => []
  | '\r' :: '\n' :: rest => '\n' :: readText rest
  | '\r' :: rest => '\n' :: readText rest
  | c :: rest => c :: readText rest

/-- `write_text`, on Windows. -/
def writeText (text : Text) : Text := text.flatMap fun c => if c = '\n' then ['\r', '\n'] else [c]

def lineEnd : Text := ['\r', '\n']

theorem readText_append {line rest : Text} (h : '\r' ∉ line) :
    readText (line ++ rest) = line ++ readText rest := by
  induction line with
  | nil => rfl
  | cons c line ih =>
    have hc : c ≠ '\r' := fun heq => h (heq ▸ List.mem_cons_self)
    rw [List.cons_append, readText, ih fun hmem => h (List.mem_cons_of_mem c hmem),
      List.cons_append]
    · intro rest' heq
      exact absurd heq hc
    · exact fun heq => absurd heq hc

theorem readText_lines {lines : List Text} (h : ∀ line ∈ lines, '\r' ∉ line) :
    readText (lineEnd.intercalate lines) = ['\n'].intercalate lines := by
  induction lines with
  | nil => rfl
  | cons line lines ih =>
    obtain ⟨hline, hlines⟩ := List.forall_mem_cons.mp h
    cases lines with
    | nil =>
      have hread : readText (line ++ []) = line ++ readText [] := readText_append hline
      simpa [readText] using hread
    | cons next lines =>
      rw [List.intercalate_cons_cons, List.intercalate_cons_cons, List.append_assoc,
        List.append_assoc, readText_append hline]
      exact congrArg (line ++ '\n' :: ·) (ih hlines)

theorem writeText_append (text rest : Text) :
    writeText (text ++ rest) = writeText text ++ writeText rest := List.flatMap_append

theorem writeText_line {line : Text} (h : '\n' ∉ line) : writeText line = line := by
  induction line with
  | nil => rfl
  | cons c line ih =>
    have hc : c ≠ '\n' := fun heq => h (heq ▸ List.mem_cons_self)
    have hrest := ih fun hmem => h (List.mem_cons_of_mem c hmem)
    show (if c = '\n' then _ else [c]) ++ writeText line = _
    rw [if_neg hc, hrest, List.singleton_append]

theorem writeText_lines {lines : List Text} (h : ∀ line ∈ lines, '\n' ∉ line) :
    writeText (['\n'].intercalate lines) = lineEnd.intercalate lines := by
  induction lines with
  | nil => rfl
  | cons line lines ih =>
    obtain ⟨hline, hlines⟩ := List.forall_mem_cons.mp h
    cases lines with
    | nil => simpa using writeText_line hline
    | cons next lines =>
      rw [List.intercalate_cons_cons, List.intercalate_cons_cons, writeText_append,
        writeText_append, writeText_line hline, ih hlines]
      rfl

/-- **A transcript is rewritten line by line**: the same number of lines, each converted as
    if it stood alone. -/
theorem rewritten_lines {openCC : Config → Text → Text} {script language : Text}
    {lines : List Text} (hne : lines ≠ []) (h : ∀ line ∈ lines, '\r' ∉ line ∧ '\n' ∉ line)
    (hopenCC : ∀ line ∈ lines, '\n' ∉ converter openCC script language line) :
    writeText (convertLines openCC (readText (lineEnd.intercalate lines)) script language) =
      lineEnd.intercalate (lines.map (converter openCC script language)) := by
  rw [readText_lines fun line hline => (h line hline).1,
    convertLines_intercalate openCC hne fun line hline => (h line hline).2]
  exact writeText_lines (List.forall_mem_map.mpr hopenCC)

end Post
end LocalMeetingStt
