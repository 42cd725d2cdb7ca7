import LocalMeetingStt.Jobs.World
import LocalMeetingStt.Lib.Framing

/-!
# The bytes of a stream and the lines of its reader (`for_each_read`)

`World` hands the readers of a job lines; here is where the lines come from. A read
answers whatever bytes have arrived, so its end may fall inside a character, inside an
escape sequence, or between a carriage return and its line feed. `pending` keeps what is
not a line yet, and `forEachRead_flatten` says that this is enough: over all its calls
the callback gets the lines of the *stream*.

The standard error reader folds its calls into a tail of at most 8192 bytes, cut at a
character boundary after each call. A cut of a cut is a cut (`lastBytes_append`), so the
tail is the tail of everything, and with it the decision whether to run the job again
online.
-/

namespace LocalMeetingStt
namespace Jobs

open Framing Scan

abbrev Bytes := List UInt8

/-! ## `String::from_utf8_lossy` -/

/-- `U+FFFD`, which stands for each ill-formed sequence. -/
def replacement : Char := '\ufffd'

def byteIn (lo hi : UInt8) (b : UInt8) : Bool := decide (lo ≤ b) && decide (b ≤ hi)

/-- `10xxxxxx`, a byte that continues a character. -/
def isContinuation (b : UInt8) : Bool := byteIn 0x80 0xbf b

/-- The second byte a three-byte character may have: no overlong form, no surrogate. -/
def isSecondOfThree (first second : UInt8) : Bool :=
  if first = 0xe0 then byteIn 0xa0 0xbf second
  else if first = 0xed then byteIn 0x80 0x9f second
  else isContinuation second

/-- The second byte a four-byte character may have: no overlong form, none above
    U+10FFFF. -/
def isSecondOfFour (first second : UInt8) : Bool :=
  if first = 0xf0 then byteIn 0x90 0xbf second
  else if first = 0xf4 then byteIn 0x80 0x8f second
  else isContinuation second

/-- The six bits of a continuation byte. -/
def lowSix (b : UInt8) : Nat := b.toNat % 64

/-- The character at the start of the bytes and how many of them it takes; of an
    ill-formed sequence, the longest part that could have started a character. -/
def decodeFirst (first : UInt8) (rest : Bytes) : Char × Nat :=
  if first < 0x80 then (Char.ofNat first.toNat, 1)
  else if byteIn 0xc2 0xdf first then
    match rest with
    | b :: _ =>
      if isContinuation b then (Char.ofNat (first.toNat % 32 * 64 + lowSix b), 2)
      else (replacement, 1)
    | [] => (replacement, 1)
  else if byteIn 0xe0 0xef first then
    match rest with
    | b :: rest =>
      if isSecondOfThree first b then
        match rest with
        | c :: _ =>
          if isContinuation c then
            (Char.ofNat (first.toNat % 16 * 4096 + lowSix b * 64 + lowSix c), 3)
          else (replacement, 2)
        | [] => (replacement, 2)
      else (replacement, 1)
    | [] => (replacement, 1)
  else if byteIn 0xf0 0xf4 first then
    match rest with
    | b :: rest =>
      if isSecondOfFour first b then
        match rest with
        | c :: rest =>
          if isContinuation c then
            match rest with
            | d :: _ =>
              if isContinuation d then
                (Char.ofNat (first.toNat % 8 * 262144 + lowSix b * 4096 + lowSix c * 64 +
                  lowSix d), 4)
              else (replacement, 3)
            | [] => (replacement, 3)
          else (replacement, 2)
        | [] => (replacement, 2)
      else (replacement, 1)
    | [] => (replacement, 1)
  else (replacement, 1)

/-- The decoding, with `k` bytes still to be skipped. -/
def decodeSkip : Nat → Bytes → Text
  | _, [] => []
  | k + 1, _ :: bytes => decodeSkip k bytes
  | 0, first :: rest =>
    (decodeFirst first rest).1 :: decodeSkip ((decodeFirst first rest).2 - 1) rest

def fromUtf8Lossy (bytes : Bytes) : Text := decodeSkip 0 bytes

/-! ## `strip_ansi` -/

/-- `\x1b\[[0-9;?]*[\x20-\x2f]*[@-~]`. The three classes have no character in common, so
    the greedy match never gives anything back. -/
def ansiMatch : Matcher Char
  | '\u001b' :: '[' :: rest =>
    let isParameter (c : Char) : Bool := inRange 0x30 0x39 c || c == ';' || c == '?'
    let parameters := rest.takeWhile isParameter
    let rest := rest.dropWhile isParameter
    let intermediates := rest.takeWhile (inRange 0x20 0x2f)
    match rest.dropWhile (inRange 0x20 0x2f) with
    | last :: _ =>
      if inRange 0x40 0x7e last then
        some ([], parameters.length + intermediates.length + 3)
      else none
    | [] => none
  | _ => none

def stripAnsi (text : Text) : Text := scan ansiMatch text

/-! ## `for_each_read` -/

/-- `\n` or `\r` -/
def isLineEnd (b : UInt8) : Bool := b == 0x0a || b == 0x0d

/-- What a line's bytes give the callback; a blank line gives it nothing. -/
def lineOf (bytes : Bytes) : Option Text :=
  let text := fromUtf8Lossy bytes
  if (trim text).isEmpty then none else some (stripAnsi text)

/-- One callback, unless there is nothing to say. -/
def callback (lines : List Text) : List (List Text) := if lines.isEmpty then [] else [lines]

/-- The calls of `on_lines`, for the reads a stream is delivered in. -/
def forEachRead : Bytes → List Bytes → List (List Text)
  | pending, [] => callback (lineOf pending).toList
  | pending, read :: reads =>
    let (lines, pending) := frames isLineEnd (pending ++ read)
    callback (lines.filterMap lineOf) ++ forEachRead pending reads

/-- The lines of a whole stream: the terminated ones and an unterminated last one. -/
def streamLines (bytes : Bytes) : List Text :=
  (frames isLineEnd bytes).1.filterMap lineOf ++ (lineOf (frames isLineEnd bytes).2).toList

/-! ## The lines do not depend on the reads -/

@[simp] theorem callback_flatten (lines : List Text) : (callback lines).flatten = lines := by
  cases lines with
  | nil => rfl
  | cons line lines => simp [callback]

/-- No call of the callback is without a line. -/
theorem callback_ne_nil {lines call : List Text} (h : call ∈ callback lines) : call ≠ [] := by
  cases lines with
  | nil => cases h
  | cons line lines =>
    rw [List.mem_singleton.mp h]
    exact List.cons_ne_nil line lines

theorem forEachRead_ne_nil {reads : List Bytes} {pending : Bytes} :
    ∀ call ∈ forEachRead pending reads, call ≠ [] := by
  induction reads generalizing pending with
  | nil => exact fun call h => callback_ne_nil h
  | cons read reads ih =>
    intro call h
    rcases List.mem_append.mp h with h | h
    · exact callback_ne_nil h
    · exact ih call h

/-- What is pending is the unterminated end of what was read so far. -/
theorem forEachRead_flatten (reads : List Bytes) :
    ∀ {pending : Bytes}, (∀ b ∈ pending, ¬isLineEnd b = true) →
      (forEachRead pending reads).flatten = streamLines (pending ++ reads.flatten) := by
  induction reads with
  | nil =>
    intro pending h
    show (callback _).flatten = _
    rw [callback_flatten, List.flatten_nil, List.append_nil, streamLines, frames_open h]
    rfl
  | cons read reads ih =>
    intro pending h
    have hlater := ih (frames_rest (pending ++ read))
    show (callback _ ++ forEachRead _ reads).flatten = _
    rw [List.flatten_append, callback_flatten, hlater, List.flatten_cons, ← List.append_assoc]
    unfold streamLines
    rw [frames_append (pending ++ read), List.filterMap_append, List.append_assoc]

/-- Over all its calls the callback gets the lines of the stream. -/
theorem forEachRead_start (reads : List Bytes) :
    (forEachRead [] reads).flatten = streamLines reads.flatten :=
  forEachRead_flatten reads (by intro b hb; cases hb)

/-- A line feed right after its carriage return, an escape sequence and a progress bar, each
    of them across two reads. -/
example :
    (forEachRead [] ["one\r".toUTF8.data.toList, "\ntw".toUTF8.data.toList,
      "o\rthr".toUTF8.data.toList, "ee\n\u001b[3".toUTF8.data.toList,
      "2mgreen\u001b[0m\nrest".toUTF8.data.toList]).flatten =
      ["one", "two", "three", "green", "rest"].map String.toList := by
  decide

/-! ## The tail of standard error -/

/-- The longest end of a text that takes at most `n` bytes. -/
def lastBytes (n : Nat) (t : Text) : Text := dropBytes (utf8Length t - n) t

theorem utf8Length_append (a b : Text) : utf8Length (a ++ b) = utf8Length a + utf8Length b := by
  induction a with
  | nil => exact (Nat.zero_add _).symm
  | cons c a ih =>
    show c.utf8Size + utf8Length (a ++ b) = c.utf8Size + utf8Length a + utf8Length b
    rw [ih, Nat.add_assoc]

@[simp] theorem lastBytes_nil (n : Nat) : lastBytes n [] = [] := by
  unfold lastBytes
  cases utf8Length [] - n <;> rfl

theorem lastBytes_of_le {n : Nat} {t : Text} (h : utf8Length t ≤ n) : lastBytes n t = t := by
  unfold lastBytes
  rw [Nat.sub_eq_zero_of_le h]
  cases t <;> rfl

/-- A text that takes too many bytes loses its first character, wherever the cut falls in
    it. -/
theorem lastBytes_cons {n : Nat} {c : Char} {t : Text} (h : n < utf8Length (c :: t)) :
    lastBytes n (c :: t) = lastBytes n t := by
  have hcut : ¬utf8Length (c :: t) - n = 0 := by omega
  have hrest : utf8Length (c :: t) - n - c.utf8Size = utf8Length t - n := by
    show c.utf8Size + utf8Length t - n - c.utf8Size = _
    omega
  show (if utf8Length (c :: t) - n = 0 then c :: t else _) = _
  rw [if_neg hcut, hrest]
  rfl

/-- **A cut of a cut is a cut**: what an earlier call dropped, the tail of everything drops
    too. -/
theorem lastBytes_append (n : Nat) (a b : Text) :
    lastBytes n (lastBytes n a ++ b) = lastBytes n (a ++ b) := by
  induction a with
  | nil => rfl
  | cons c a ih =>
    by_cases h : utf8Length (c :: a) ≤ n
    · rw [lastBytes_of_le h]
    · have hlong : n < utf8Length (c :: a) := by omega
      have hlonger : n < utf8Length (c :: (a ++ b)) := by
        show n < c.utf8Size + utf8Length (a ++ b)
        rw [utf8Length_append]
        have : utf8Length (c :: a) = c.utf8Size + utf8Length a := rfl
        omega
      rw [lastBytes_cons hlong, ih]
      exact (lastBytes_cons hlonger).symm

theorem pushStderrTail_eq (tail joined : Text) :
    pushStderrTail tail joined = lastBytes stderrTailBytes (tail ++ joined ++ ['\n']) := rfl

/-- The lines of the error stream as the tail holds them, each with its end. -/
def ended (lines : List Text) : Text := lines.flatMap fun line => line ++ ['\n']

theorem intercalate_ended {lines : List Text} (h : lines ≠ []) :
    ['\n'].intercalate lines ++ ['\n'] = ended lines := by
  induction lines with
  | nil => exact absurd rfl h
  | cons line rest ih =>
    cases rest with
    | nil => simp [ended, List.intercalate]
    | cons next rest =>
      have hrest := ih (List.cons_ne_nil next rest)
      show _ = line ++ ['\n'] ++ ended (next :: rest)
      rw [← hrest]
      simp [List.intercalate]

variable [UnicodeTables]

/-- One call of a reader of an attempt: its stream, the time and its lines. -/
inductive ReaderCall where
  | out (now : Text) (lines : List Text)
  | err (now : Text) (lines : List Text)

/-- What a call leaves of the reading the two readers share. -/
def ReaderCall.read (paths : AppPaths) (live : Bool) (processId : Nat) (r : Reading) :
    ReaderCall → Reading
  | .out now lines => (onStdout paths live processId now lines r).1
  | .err now lines => (onStderr processId now lines r).1

/-- The calls of the standard error reader, in order. -/
def errCalls : List ReaderCall → List (List Text)
  | [] => []
  | .out _ _ :: calls => errCalls calls
  | .err _ lines :: calls => lines :: errCalls calls

/-- The reading after any interleaving of the two readers. -/
def readCalls (paths : AppPaths) (live : Bool) (processId : Nat) (calls : List ReaderCall)
    (r : Reading) : Reading :=
  calls.foldl (ReaderCall.read paths live processId) r

theorem readCalls_cons (paths : AppPaths) (live : Bool) (processId : Nat) (call : ReaderCall)
    (calls : List ReaderCall) (r : Reading) :
    readCalls paths live processId (call :: calls) r =
      readCalls paths live processId calls (call.read paths live processId r) := rfl

theorem onStdoutLine_stderrTail (paths : AppPaths) (live : Bool) (processId : Nat)
    (now line : Text) (r : Reading) :
    (onStdoutLine paths live processId now line r).1.stderrTail = r.stderrTail := by
  unfold onStdoutLine
  cases recordingPath paths (trim line) <;> cases live <;> simp only [Bool.not_false,
    Bool.not_true, Bool.false_eq_true, if_true, if_false]
  all_goals split <;> rfl

theorem onStdoutLines_stderrTail (paths : AppPaths) (live : Bool) (processId : Nat)
    (now : Text) (lines : List Text) (r : Reading) :
    (onStdoutLines paths live processId now lines r).1.stderrTail = r.stderrTail := by
  induction lines generalizing r with
  | nil => rfl
  | cons line lines ih =>
    show (onStdoutLines paths live processId now lines
      (onStdoutLine paths live processId now line r).1).1.stderrTail = _
    rw [ih, onStdoutLine_stderrTail]

theorem onStdout_stderrTail (paths : AppPaths) (live : Bool) (processId : Nat) (now : Text)
    (lines : List Text) (r : Reading) :
    (onStdout paths live processId now lines r).1.stderrTail = r.stderrTail :=
  onStdoutLines_stderrTail paths live processId now lines r

/-- After any calls the tail is the tail of all the lines of standard error. -/
theorem readCalls_tail (paths : AppPaths) (live : Bool) (processId : Nat)
    (calls : List ReaderCall) (r : Reading) (hcalls : ∀ call ∈ errCalls calls, call ≠ [])
    {before : Text} (hr : r.stderrTail = lastBytes stderrTailBytes before) :
    (readCalls paths live processId calls r).stderrTail =
      lastBytes stderrTailBytes (before ++ ended (errCalls calls).flatten) := by
  induction calls generalizing r before with
  | nil =>
    show r.stderrTail = lastBytes _ (before ++ [])
    rw [List.append_nil]
    exact hr
  | cons call calls ih =>
    rw [readCalls_cons]
    cases call with
    | out now lines =>
      apply ih _ hcalls
      show (onStdout paths live processId now lines r).1.stderrTail = _
      rw [onStdout_stderrTail]
      exact hr
    | err now lines =>
      have hlines : lines ≠ [] := hcalls _ List.mem_cons_self
      have hpush : (onStderr processId now lines r).1.stderrTail =
          lastBytes stderrTailBytes (before ++ ended lines) := by
        show pushStderrTail r.stderrTail (['\n'].intercalate lines) = _
        rw [pushStderrTail_eq, List.append_assoc, intercalate_ended hlines, hr, lastBytes_append]
      have hlater := ih (onStderr processId now lines r).1
        (fun c hc => hcalls c (List.mem_cons_of_mem _ hc)) hpush
      refine hlater.trans ?_
      rw [List.append_assoc]
      simp only [ended, errCalls, List.flatten_cons, List.flatMap_append]

/-- The tail a whole error stream leaves, whatever the reads, the clock and the other reader
    were. -/
theorem readCalls_stream (paths : AppPaths) (live loopback : Bool) (processId : Nat)
    {calls : List ReaderCall} {reads : List Bytes}
    (hcalls : errCalls calls = forEachRead [] reads) :
    (readCalls paths live processId calls (.new loopback)).stderrTail =
      lastBytes stderrTailBytes (ended (streamLines reads.flatten)) := by
  have hne : ∀ call ∈ errCalls calls, call ≠ [] := by
    rw [hcalls]
    exact forEachRead_ne_nil
  have hnew : (Reading.new loopback).stderrTail = lastBytes stderrTailBytes [] :=
    (lastBytes_nil stderrTailBytes).symm
  rw [readCalls_tail paths live processId calls (.new loopback) hne hnew, hcalls,
    forEachRead_start]
  rfl

omit [UnicodeTables] in
/-- The waiter's decision takes nothing from the readers but the tail. -/
theorem Thread.retryWith_congr {t t' : Thread} (hstatus : t.attempt.status = t'.attempt.status)
    (hretry : t.retry = t'.retry)
    (htail : t.attempt.reading.stderrTail = t'.attempt.reading.stderrTail) :
    t.retryWith = t'.retryWith := by
  unfold Thread.retryWith Attempt.failedToResolve
  rw [hstatus, hretry, htail]

/-- **Where the reads fall does not matter.** Two deliveries of the same bytes give the
    callback the same lines; and two attempts whose standard error had the same bytes end
    with the same tail, the same answer of `failed_offline` and, if they exited alike, the
    same decision about running the job again online. -/
theorem reads_leave_no_trace (paths : AppPaths) (live loopback : Bool) (processId : Nat)
    {reads reads' : List Bytes} (same : reads.flatten = reads'.flatten) :
    (forEachRead [] reads).flatten = (forEachRead [] reads').flatten ∧
      ∀ calls calls' : List ReaderCall, errCalls calls = forEachRead [] reads →
        errCalls calls' = forEachRead [] reads' →
        ∀ t t' : Thread,
          t.attempt.reading = readCalls paths live processId calls (.new loopback) →
          t'.attempt.reading = readCalls paths live processId calls' (.new loopback) →
          t.attempt.reading.stderrTail = t'.attempt.reading.stderrTail ∧
            failedOffline t.attempt.reading.stderrTail =
              failedOffline t'.attempt.reading.stderrTail ∧
            (t.attempt.status = t'.attempt.status → t.retry = t'.retry →
              t.retryWith = t'.retryWith) := by
  refine ⟨?_, ?_⟩
  · rw [forEachRead_start, forEachRead_start, same]
  · intro calls calls' hcalls hcalls' t t' ht ht'
    have htail : t.attempt.reading.stderrTail = t'.attempt.reading.stderrTail := by
      rw [ht, ht', readCalls_stream paths live loopback processId hcalls,
        readCalls_stream paths live loopback processId hcalls', same]
    refine ⟨htail, ?_, ?_⟩
    · rw [htail]
    · intro hstatus hretry
      exact Thread.retryWith_congr hstatus hretry htail

omit [UnicodeTables] in
/-- uv's hint with a two-byte character before it, read at once and cut inside that
    character, inside the carriage return's line end and inside the hint. -/
theorem reads_leave_no_trace_hint :
    let whole : List Bytes := ["caché\r\nuv is set to offline mode".toUTF8.data.toList]
    let split : List Bytes := [[0x63, 0x61, 0x63, 0x68, 0xc3], [0xa9, 0x0d],
      [0x0a, 0x75, 0x76, 0x20, 0x69], "s set to offline mode".toUTF8.data.toList]
    let retrying (reads : List Bytes) : Thread :=
      { kind := "qwen-gpu".toList, spec := ⟨[], [], []⟩, phase := .watching, retry := none
        attempt := (Attempt.start true 1 false), previous := [] : Thread }.withReading
        (@readCalls asciiTables ⟨id, id, 0⟩ false 1 ((forEachRead [] reads).map (.err []))
          (.new false))
    (forEachRead [] split).flatten = (forEachRead [] whole).flatten ∧
      failedOffline (retrying split).attempt.reading.stderrTail =
        failedOffline (retrying whole).attempt.reading.stderrTail := by
  intro whole split retrying
  have hsame : split.flatten = whole.flatten := by decide
  have h := @reads_leave_no_trace asciiTables ⟨id, id, 0⟩ false false 1 split whole hsame
  refine ⟨h.1, ?_⟩
  exact (h.2 ((forEachRead [] split).map (.err [])) ((forEachRead [] whole).map (.err []))
    rfl rfl (retrying split) (retrying whole) rfl rfl).2.1

end Jobs
end LocalMeetingStt
