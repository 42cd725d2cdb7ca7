import Mathlib.Data.List.DropRight
import LocalMeetingStt.Lib.Scan

/-!
# Caption text (`captions.rs`, the free functions)

Everything `captions.rs` does to a piece of text before the `Captions` state sees it:
Japanese spacing, the comparison key, overlaps and merging, the repetition collapser,
the hallucination filter and the `[HH:MM:SS]` stamp.

A `Text` is a list of characters. Each regular expression of the source is written out
as a **matcher**, what the pattern recognizes at one position under the `regex`
crate's leftmost-first semantics, and `replace_all` is `Scan.scan` of that matcher.
The character classes that are finite in the source are written as they stand there.

What the source takes from Unicode's tables (`\d`, `is_alphanumeric`, `to_lowercase`)
is the class `UnicodeTables`: every definition and theorem here holds for whatever
tables the build links, so none of them rests on a transcription of those tables.
Whitespace *is* spelled out, because the trimming and the spacing rules are about it.
-/

namespace LocalMeetingStt

open Scan

abbrev Text := List Char

/-- The Unicode data the Rust standard library and the `regex` crate consult. -/
class UnicodeTables where
  /-- `\d` in a Unicode-aware pattern. -/
  isDecimal : Char → Bool
  /-- `char::is_alphanumeric`. -/
  isAlphanumeric : Char → Bool
  /-- `char::to_lowercase`, which may answer several characters. -/
  charToLowercase : Char → Text
  /-- `str::to_lowercase`, which also looks at a character's neighbours. -/
  toLowercase : Text → Text

/-- The tables restricted to ASCII: what the real ones answer on ASCII text, and on
    text of scripts without case. -/
@[reducible] def asciiTables : UnicodeTables where
  isDecimal c := c.isDigit
  isAlphanumeric c := c.isAlphanum
  charToLowercase c := [c.toLower]
  toLowercase t := t.map Char.toLower

/-! ## Characters and slices -/

def inRange (lo hi : Nat) (c : Char) : Bool := decide (lo ≤ c.toNat ∧ c.toNat ≤ hi)

/-- Unicode `White_Space`: `char::is_whitespace`, and `\s` in a Unicode pattern. -/
def isWhitespace (c : Char) : Bool :=
  inRange 0x09 0x0d c || c.toNat == 0x20 || c.toNat == 0x85 || c.toNat == 0xa0 ||
    c.toNat == 0x1680 || inRange 0x2000 0x200a c || c.toNat == 0x2028 ||
    c.toNat == 0x2029 || c.toNat == 0x202f || c.toNat == 0x205f || c.toNat == 0x3000

/-- `str::trim_start`. -/
def trimStart (t : Text) : Text := t.dropWhile isWhitespace

/-- `str::trim`. -/
def trim (t : Text) : Text := (trimStart t).rdropWhile isWhitespace

/-- `str::contains` with a string pattern. -/
def contains (hay needle : Text) : Bool := decide (needle <:+: hay)

theorem contains_iff {hay needle : Text} : contains hay needle = true ↔ needle <:+: hay :=
  decide_eq_true_iff

/-- `str::strip_prefix`. -/
def stripPrefix (pre t : Text) : Option Text :=
  if pre <+: t then some (t.drop pre.length) else none

theorem stripPrefix_append (pre t : Text) : stripPrefix pre (pre ++ t) = some t := by
  rw [stripPrefix, if_pos (List.prefix_append pre t), List.drop_left]

/-- Two texts that begin differently. -/
theorem stripPrefix_cons_ne {p c : Char} (h : p ≠ c) (pre t : Text) :
    stripPrefix (p :: pre) (c :: t) = none := by
  rw [stripPrefix, if_neg]
  intro hprefix
  exact h (List.cons_prefix_cons.mp hprefix).1

/-! ## Japanese spacing -/

/-- `[\x{3040}-\x{30ff}\x{3400}-\x{9fff}]`. -/
def isKanaOrHan (c : Char) : Bool := inRange 0x3040 0x30ff c || inRange 0x3400 0x9fff c

/-- `[\x{3001}\x{3002}\x{ff01}\x{ff1f}]`: the marks no space stands before. -/
def isMark (c : Char) : Bool := c == '、' || c == '。' || c == '！' || c == '？'

/-- `[\x{300c}\x{300e}\x{ff08}]`: the brackets no space stands after. -/
def isOpener (c : Char) : Bool := c == '「' || c == '『' || c == '（'

/-- `KANA`: two Japanese characters with whitespace between them. -/
def kanaMatch : Matcher Char
  | [] => none
  | a :: rest =>
    let spaces := rest.takeWhile isWhitespace
    match rest.dropWhile isWhitespace with
    | [] => none
    | b :: _ =>
      if isKanaOrHan a && isKanaOrHan b && !spaces.isEmpty then
        some ([a, b], spaces.length + 2)
      else none

/-- `BEFORE_PUNCT`: whitespace and the mark after it. -/
def beforePunctMatch : Matcher Char := fun t =>
  let spaces := t.takeWhile isWhitespace
  match t.dropWhile isWhitespace with
  | [] => none
  | p :: _ => if isMark p && !spaces.isEmpty then some ([p], spaces.length + 1) else none

/-- `AFTER_OPEN`: an opening bracket and the whitespace after it. -/
def afterOpenMatch : Matcher Char
  | [] => none
  | o :: rest =>
    let spaces := rest.takeWhile isWhitespace
    if isOpener o && !spaces.isEmpty then some ([o], spaces.length + 1) else none

/-- `SPACES`: a run of whitespace. -/
def spacesMatch : Matcher Char := fun t =>
  let spaces := t.takeWhile isWhitespace
  if spaces.isEmpty then none else some ([' '], spaces.length)

def normalizeJapaneseSpacing (text : Text) : Text :=
  scan spacesMatch (scan afterOpenMatch (scan beforePunctMatch (scan kanaMatch (trim text))))

/-! ## Comparing hypotheses -/

/-- The characters `compact_transcript_key` drops. -/
def isKeyPunct (c : Char) : Bool :=
  isWhitespace c || c == '\u3000' || isMark c ||
    ".,!?'\"\x60()[]\x7b\x7d<>".toList.contains c ||
    ['「', '」', '『', '』', '（', '）', '【', '】'].contains c

def compactTranscriptKey [UnicodeTables] (text : Text) : Text :=
  UnicodeTables.toLowercase ((normalizeJapaneseSpacing text).filter fun c => !isKeyPunct c)

/-- `previous` ends with the first `size` characters of `incoming`. -/
def endsStartsOverlap (previous incoming : Text) (size : Nat) : Bool :=
  previous.drop (previous.length - size) == incoming.take size

/-- `(lo..=hi).rev()`. -/
def downTo (lo hi : Nat) : List Nat := (List.range' lo (hi + 1 - lo)).reverse

def compactOverlapLength (previous incoming : Text) : Nat :=
  let max := min previous.length incoming.length
  ((downTo 4 max).find? fun size => endsStartsOverlap previous incoming size).getD 0

structure Merge where
  merged : Text
  samePhrase : Bool
deriving DecidableEq, Repr

/-- The merge of two phrases at one overlap length, in the order the source tries. -/
def mergeAt (a b : Text) (size : Nat) : Option Text :=
  if endsStartsOverlap a b size then some (a ++ b.drop size)
  else if endsStartsOverlap b a size then some (b ++ a.drop size)
  else none

def mergePartialText (previous incoming : Text) : Merge :=
  let current := normalizeJapaneseSpacing previous
  let next := normalizeJapaneseSpacing incoming
  if current.isEmpty then ⟨next, true⟩
  else if next.isEmpty then ⟨current, true⟩
  else if contains next current then ⟨next, true⟩
  else if contains current next then ⟨current, true⟩
  else
    match (downTo 3 (min current.length next.length)).findSome? (mergeAt current next) with
    | some merged => ⟨merged, true⟩
    | none => ⟨next, false⟩

def partialLooksRelated (previous next : Text) : Bool :=
  let a := normalizeJapaneseSpacing previous
  let b := normalizeJapaneseSpacing next
  if a.isEmpty || b.isEmpty || contains a b || contains b a then true
  else
    let compactA := a.filter fun c => !isWhitespace c
    let compactB := b.filter fun c => !isWhitespace c
    if contains compactA compactB || contains compactB compactA then true
    else
      (downTo 4 (min compactA.length compactB.length)).any fun size =>
        endsStartsOverlap compactA compactB size || endsStartsOverlap compactB compactA size

/-! ## Whisper's degenerate output -/

/-- How many times `pattern` stands at the start of `t`. The counter bounds the
    `while` loop by the length of the text. -/
def countRepeats (pattern : Text) : Nat → Text → Nat
  | 0, _ => 0
  | n + 1, t => if pattern <+: t then countRepeats pattern n (t.drop pattern.length) + 1 else 0

/-- A unit of `unit` characters standing four or more times in a row here. -/
def repeatMatch (unit : Nat) : Matcher Char := fun t =>
  if unit * 4 ≤ t.length then
    let pattern := t.take unit
    if pattern.contains '\n' then none
    else
      let repeats := countRepeats pattern t.length t
      if 4 ≤ repeats then some (pattern, unit * repeats) else none
  else none

def collapseRepeats (text : Text) : Text :=
  (List.range' 2 23).foldl (fun current unit => scan (repeatMatch unit) current) text

def cleanTranscriptText (text : Text) : Text :=
  let normalized := normalizeJapaneseSpacing text
  let collapsed := collapseRepeats normalized
  if normalized.length - collapsed.length > 120 then [] else collapsed

/-- Sign-offs Whisper invents on silence or music. -/
def blockedLines : List Text :=
  ["ご視聴ありがとうございました", "ご視聴ありがとうございます", "チャンネル登録お願いします",
    "最後までご視聴いただきありがとうございました", "字幕由amaraorg社区提供",
    "字幕由amaraorg社區提供", "请不吝点赞订阅转发打赏支持明镜与点点栏目",
    "請不吝點贊訂閱轉發打賞支持明鏡與點點欄目", "thanksforwatching",
    "thankyouforwatching"].map String.toList

/-- The words `BRACKETED` looks for between brackets. -/
def bracketedWords : List Text :=
  ["音楽", "音乐", "音樂", "拍手", "掌声", "掌聲", "笑", "BGM", "ノイズ", "music", "applause",
    "laughter"].map String.toList

/-- `(?i)` on a literal: simple case folding, which besides ASCII case pairs `s` with
    U+017F and `k` with U+212A. -/
def foldEq (p c : Char) : Bool :=
  p.toLower == c.toLower || (p.toLower == 's' && c == '\u017f') ||
    (p.toLower == 'k' && c == '\u212a')

def prefixFolded : Text → Text → Bool
  | [], _ => true
  | _ :: _, [] => false
  | p :: ps, c :: cs => foldEq p c && prefixFolded ps cs

/-- `BRACKETED.is_match`: brackets around one line that names a sound. -/
def bracketedSound (t : Text) : Bool :=
  match t with
  | [] => false
  | o :: rest =>
    match rest.getLast? with
    | none => false
    | some c =>
      let inner := rest.dropLast
      ['（', '(', '[', '【'].contains o && [')', '）', ']', '】'].contains c &&
        !inner.contains '\n' &&
        inner.tails.any fun s => bracketedWords.any fun w => prefixFolded w s

def isHallucinationLine [UnicodeTables] (line : Text) : Bool :=
  let compact := line.filter fun c => !isWhitespace c && !isMark c
  if compact.isEmpty then true
  else
    let key := (line.filter UnicodeTables.isAlphanumeric).flatMap UnicodeTables.charToLowercase
    if blockedLines.contains key then true
    else bracketedSound (trim line)

def onlyPunctuation (text : Text) : Bool :=
  !text.isEmpty && text.all fun c => isMark c || ".,!?".toList.contains c

/-! ## Stamps -/

/-- One transcript line: when it was said and what was said. -/
structure Line where
  time : Text
  text : Text
deriving DecidableEq, Repr

/-- `\[(\d{2}:\d{2}:\d{2})\]` at the start: the time and what follows the bracket. -/
def stampPrefix [UnicodeTables] : Text → Option (Text × Text)
  | '[' :: h₁ :: h₂ :: ':' :: m₁ :: m₂ :: ':' :: s₁ :: s₂ :: ']' :: rest =>
    if [h₁, h₂, m₁, m₂, s₁, s₂].all UnicodeTables.isDecimal then
      some ([h₁, h₂, ':', m₁, m₂, ':', s₁, s₂], rest)
    else none
  | _ => none

/-- A line keeps the `[HH:MM:SS]` its backend printed, or takes `now`. -/
def stamped [UnicodeTables] (line now : Text) : Option Line :=
  let value := normalizeJapaneseSpacing line
  if value.isEmpty then none
  else
    match stampPrefix value with
    | some (time, rest) => some ⟨time, rest.dropWhile isWhitespace⟩
    | none => some ⟨now, value⟩

/-- `stamped_line_re().is_match`: a stamp with whitespace after it. -/
def isStampedLine [UnicodeTables] (t : Text) : Bool :=
  match stampPrefix t with
  | some (_, c :: _) => isWhitespace c
  | _ => false

/-- `Transcript:\s*(.+)` at one position: the captured group. The whitespace is matched
    greedily; when nothing follows it, the pattern gives back its last character that
    is not a line feed. -/
def transcriptAt (t : Text) : Option Text :=
  match stripPrefix "Transcript:".toList t with
  | none => none
  | some rest =>
    match rest.dropWhile isWhitespace with
    | [] => ((rest.filter (· != '\n')).getLast?).map fun c => [c]
    | after => some (after.takeWhile (· != '\n'))

/-- `TRANSCRIPT.captures(raw)`: the leftmost match, wherever in the line it stands. -/
def transcriptCapture (raw : Text) : Option Text := raw.tails.findSome? transcriptAt

end LocalMeetingStt
