import LocalMeetingStt.Captions.Spacing
import LocalMeetingStt.Lib.Framing
import LocalMeetingStt.Live.Devices

/-!
# The recording devices as text (`devices.rs`, `record_audio.py`)

Where Windows does not answer, the window asks `record_audio.py --list-devices` and reads
what it prints. The two programs share nothing but the layout of that text: two lines for
the defaults, and for each device a line with its index, kind and name and an indented
line with its id.

The parser keeps one **pending** device, whose id has not been read yet, and files it when
the next device begins or the text ends. `parse_device` says what the two lines of one
device do to it, whatever its name looks like; `parsePythonListing_listDevices` is the
round trip.
-/

namespace LocalMeetingStt
namespace Devices

open Framing Live

/-! ## What the page is sent -/

inductive DeviceKind where
  | loopback
  | mic
deriving DecidableEq, Repr

structure AudioDevice where
  name : Text
  id : Text
  kind : DeviceKind
deriving DecidableEq, Repr

structure AudioDeviceStatus where
  defaultSpeaker : Text
  defaultMicrophone : Text
  loopbacks : List AudioDevice
  microphones : List AudioDevice
  error : Option Text
deriving DecidableEq, Repr

/-- `AudioDeviceStatus::default()` -/
def AudioDeviceStatus.default : AudioDeviceStatus := ⟨[], [], [], [], none⟩

/-! ## The printer (`list_devices`) -/

/-- `str` of an index in the two columns of `{index:2d}`. -/
def paddedIndex (index : Nat) : Text :=
  List.replicate (2 - (Nat.toDigits 10 index).length) ' ' ++ Nat.toDigits 10 index

/-- `"loopback" if mic.isloopback else "mic"` -/
def kindOf (device : Device) : DeviceKind := if device.isLoopback then .loopback else .mic

def DeviceKind.tag : DeviceKind → Text
  | .loopback => "[loopback]".toList
  | .mic => "[mic]".toList

def deviceLine (index : Nat) (device : Device) : Text :=
  paddedIndex index ++ ' ' :: (kindOf device).tag ++ ' ' :: device.name

def idLine (device : Device) : Text := "    id: ".toList ++ device.id

/-- `for index, mic in enumerate(…)`, from one index on. -/
def deviceLines : Nat → List Device → List Text
  | _, [] => []
  | index, device :: devices =>
    deviceLine index device :: idLine device :: deviceLines (index + 1) devices

/-- The lines `list_devices` prints before it returns or a call of `soundcard` raises. -/
def listDevices (sound : Sound) : List Text × Except Text Unit :=
  match sound.defaultSpeakerName with
  | .error error => ([], .error error)
  | .ok speaker =>
    let first := "Default speaker: ".toList ++ speaker
    match sound.defaultMicrophone with
    | .error error => ([first], .error error)
    | .ok microphone =>
      let heading :=
        [first, "Default microphone: ".toList ++ microphone.name, [],
          "Recording devices:".toList]
      match sound.allMicrophones with
      | .error error => (heading, .error error)
      | .ok devices => (heading ++ deviceLines 0 devices, .ok ())

/-- How Python ends a printed line: Windows' text mode writes the second. -/
inductive LineEnd where
  | lf
  | crLf
deriving DecidableEq, Repr

def LineEnd.text : LineEnd → Text
  | .lf => ['\n']
  | .crLf => ['\r', '\n']

def printed (lineEnd : LineEnd) (lines : List Text) : Text :=
  lines.flatMap fun line => line ++ lineEnd.text

/-! ## The parser (`parse_python_listing`) -/

/-- `strip_suffix('\r')`, if there is one. -/
def withoutReturn (line : Text) : Text :=
  if line.getLast? = some '\r' then line.dropLast else line

/-- `str::lines`: a carriage return belongs to the line end it stands in. -/
def textLines (text : Text) : List Text :=
  let (ended, rest) := frames (· == '\n') text
  ended.map withoutReturn ++ if rest.isEmpty then [] else [rest]

/-- What the loop carries: the status and the device that waits for its id. -/
structure Listing where
  status : AudioDeviceStatus
  pending : Option AudioDevice
deriving DecidableEq, Repr

/-- `flush` -/
def AudioDeviceStatus.file (status : AudioDeviceStatus) (device : Option AudioDevice) :
    AudioDeviceStatus :=
  match device with
  | none => status
  | some device =>
    match device.kind with
    | .loopback => { status with loopbacks := status.loopbacks ++ [device] }
    | .mic => { status with microphones := status.microphones ++ [device] }

def isAsciiDigit (c : Char) : Bool := inRange 0x30 0x39 c

/-- The kind the text after the index starts with. -/
def leadingKind (rest : Text) : Option DeviceKind :=
  if "[loopback]".toList <+: rest then some .loopback
  else if "[mic]".toList <+: rest then some .mic
  else none

/-- One turn of the loop. -/
def parseLine (listing : Listing) (line : Text) : Listing :=
  match stripPrefix "Default speaker:".toList line with
  | some name => { listing with status := { listing.status with defaultSpeaker := trim name } }
  | none =>
    match stripPrefix "Default microphone:".toList line with
    | some name =>
      { listing with status := { listing.status with defaultMicrophone := trim name } }
    | none =>
      let trimmed := trimStart line
      match stripPrefix "id:".toList trimmed with
      | some id =>
        { listing with pending := listing.pending.map fun device => { device with id := trim id } }
      | none =>
        -- `splitn(2, ' ')`: the index, and everything after the first space.
        let index := trimmed.takeWhile (· != ' ')
        let rest := (trimmed.dropWhile (· != ' ')).drop 1
        if index.isEmpty || !index.all isAsciiDigit then listing
        else
          match leadingKind rest with
          | none => listing
          | some kind =>
            -- `split_once(']')`: what follows the first bracket.
            let name := trim ((rest.dropWhile (· != ']')).drop 1)
            { status := listing.status.file listing.pending
              pending := some { name, id := [], kind } }

def parsePythonListing (output : Text) : AudioDeviceStatus :=
  let listing := (textLines output).foldl parseLine ⟨.default, none⟩
  listing.status.file listing.pending

/-! ## The lines come back -/

/-- A name or an id that keeps to its line and begins and ends with no whitespace. -/
structure Plain (t : Text) : Prop where
  one_line : '\n' ∉ t
  trimmed : trim t = t

/-- A line that neither contains a line end nor ends in half of one. -/
structure Whole (line : Text) : Prop where
  one_line : '\n' ∉ line
  no_return : line.getLast? ≠ some '\r'

theorem Plain.getLast? {t : Text} (h : Plain t) : t.getLast? ≠ some '\r' := by
  intro hlast
  rw [← h.trimmed] at hlast
  have := closed_trim t '\r' hlast
  exact absurd this (by decide)

/-- After the space that stands before it, a plain text is read back. -/
theorem Plain.trim_space {t : Text} (h : Plain t) : trim (' ' :: t) = t := by
  have hspace : trimStart (' ' :: t) = trimStart t := List.dropWhile_cons_of_pos (by decide)
  rw [trim, hspace]
  exact h.trimmed

/-- Text that ends in a plain text, with a space before it. -/
theorem Plain.whole_after {t : Text} (h : Plain t) {before : Text} (hbefore : '\n' ∉ before) :
    Whole (before ++ ' ' :: t) where
  one_line := by
    intro hmem
    rcases List.mem_append.mp hmem with hmem | hmem
    · exact hbefore hmem
    · rcases List.mem_cons.mp hmem with hmem | hmem
      · cases hmem
      · exact h.one_line hmem
  no_return := by
    rw [List.getLast?_append_of_ne_nil _ (List.cons_ne_nil ' ' t)]
    cases t with
    | nil => decide
    | cons c t =>
      rw [List.getLast?_cons_cons]
      exact h.getLast?

theorem withoutReturn_of_whole {line : Text} (h : Whole line) : withoutReturn line = line :=
  if_neg h.no_return

theorem withoutReturn_return (line : Text) : withoutReturn (line ++ ['\r']) = line := by
  unfold withoutReturn
  rw [if_pos List.getLast?_concat, List.dropLast_concat]

/-- The lines of pieces that were each ended with a line feed. -/
theorem textLines_ended {pieces : List Text} (h : ∀ piece ∈ pieces, '\n' ∉ piece) :
    textLines (pieces.flatMap fun piece => piece ++ ['\n']) = pieces.map withoutReturn := by
  have hcut : frames (fun c : Char => c == '\n') (pieces.flatMap fun piece => piece ++ ['\n']) =
      (pieces, []) := by
    apply frames_terminated (by decide)
    intro piece hpiece c hc hend
    rw [beq_iff_eq] at hend
    exact h piece hpiece (hend ▸ hc)
  unfold textLines
  rw [hcut]
  exact List.append_nil _

/-- Reading lines undoes printing them, with either line end. -/
theorem textLines_printed (lineEnd : LineEnd) {lines : List Text}
    (h : ∀ line ∈ lines, Whole line) : textLines (printed lineEnd lines) = lines := by
  cases lineEnd with
  | lf =>
    have hended := textLines_ended fun line hline => (h line hline).one_line
    have hself : lines.map withoutReturn = lines.map id :=
      List.map_congr_left fun line hline => withoutReturn_of_whole (h line hline)
    exact hended.trans (hself.trans (List.map_id lines))
  | crLf =>
    -- The carriage return belongs to the piece, and is what `withoutReturn` takes off.
    have hreturn : printed .crLf lines =
        (lines.map (· ++ ['\r'])).flatMap fun piece => piece ++ ['\n'] := by
      simp [printed, LineEnd.text, List.flatMap_map]
    have hpieces : ∀ piece ∈ lines.map (· ++ ['\r']), '\n' ∉ piece := by
      intro piece hpiece hmem
      obtain ⟨line, hline, rfl⟩ := List.mem_map.mp hpiece
      rcases List.mem_append.mp hmem with hmem | hmem
      · exact (h line hline).one_line hmem
      · cases List.mem_singleton.mp hmem
    have hself : lines.map (withoutReturn ∘ (· ++ ['\r'])) = lines.map id :=
      List.map_congr_left fun line _ => withoutReturn_return line
    rw [hreturn, textLines_ended hpieces, List.map_map, hself, List.map_id]

/-! ## One device -/

theorem isAsciiDigit_digits {index : Nat} {c : Char} (hc : c ∈ Nat.toDigits 10 index) :
    isAsciiDigit c = true := by
  have hdigit := Nat.isDigit_of_mem_toDigits (by decide) (by decide) hc
  simp only [Char.isDigit, Bool.and_eq_true, decide_eq_true_eq] at hdigit
  exact decide_eq_true hdigit

theorem isAsciiDigit_ne {c d : Char} (hc : isAsciiDigit c = true)
    (hd : isAsciiDigit d = false) : c ≠ d := by
  intro h
  rw [h, hd] at hc
  cases hc

theorem isAsciiDigit_not_space {c : Char} (hc : isAsciiDigit c = true) :
    isWhitespace c = false := by
  have hc := of_decide_eq_true hc
  simp only [isWhitespace, inRange, Bool.or_eq_false_iff, decide_eq_false_iff_not,
    beq_eq_false_iff_ne]
  omega

/-- What the parser sees of a device's line once the padding is gone. -/
theorem trimStart_deviceLine (index : Nat) (device : Device) :
    trimStart (deviceLine index device) =
      Nat.toDigits 10 index ++ (' ' :: ((kindOf device).tag ++ ' ' :: device.name)) := by
  obtain ⟨c, digits, hdigits⟩ : ∃ c digits, Nat.toDigits 10 index = c :: digits :=
    List.exists_cons_of_ne_nil Nat.toDigits_ne_nil
  have hc : isWhitespace c = false :=
    isAsciiDigit_not_space (isAsciiDigit_digits (hdigits ▸ List.mem_cons_self))
  have hpadding : ∀ a ∈ List.replicate (2 - (Nat.toDigits 10 index).length) ' ',
      isWhitespace a = true := by
    intro a ha
    rw [List.eq_of_mem_replicate ha]
    decide
  unfold deviceLine paddedIndex trimStart
  rw [List.append_assoc, List.append_assoc, List.dropWhile_append_of_pos hpadding, hdigits]
  apply List.dropWhile_cons_of_neg
  rw [hc]
  exact Bool.false_ne_true

/-- A line that begins with a number begins with nothing else. -/
theorem stripPrefix_digits {c : Char} (hc : isAsciiDigit c = false) (pre : Text) (index : Nat)
    (rest : Text) : stripPrefix (c :: pre) (Nat.toDigits 10 index ++ rest) = none := by
  obtain ⟨d, digits, hdigits⟩ : ∃ d digits, Nat.toDigits 10 index = d :: digits :=
    List.exists_cons_of_ne_nil Nat.toDigits_ne_nil
  have hd : isAsciiDigit d = true := isAsciiDigit_digits (hdigits ▸ List.mem_cons_self)
  rw [hdigits]
  exact stripPrefix_cons_ne (isAsciiDigit_ne hd hc).symm _ _

theorem stripPrefix_deviceLine (pre : Text) (index : Nat) (device : Device) :
    stripPrefix ('D' :: pre) (deviceLine index device) = none := by
  unfold deviceLine paddedIndex
  cases 2 - (Nat.toDigits 10 index).length with
  | zero =>
    rw [List.replicate_zero, List.nil_append, List.append_assoc]
    exact stripPrefix_digits (c := 'D') (by decide) pre index _
  | succ n => exact stripPrefix_cons_ne (by decide) _ _

theorem tag_leads (kind : DeviceKind) (rest : Text) :
    leadingKind (kind.tag ++ rest) = some kind := by
  cases kind with
  | loopback => exact if_pos (List.prefix_append _ rest)
  | mic =>
    have hother : ¬"[loopback]".toList <+: DeviceKind.mic.tag ++ rest := by
      intro h
      have := (List.cons_prefix_cons.mp (List.cons_prefix_cons.mp h).2).1
      exact absurd this (by decide)
    exact (if_neg hother).trans (if_pos (List.prefix_append _ rest))

/-- `split_once(']')` cuts at the tag's own bracket. -/
theorem dropWhile_tag (kind : DeviceKind) (rest : Text) :
    ((kind.tag ++ rest).dropWhile (· != ']')).drop 1 = rest := by
  cases kind <;> rfl

/-- A device as the parser files it. -/
def audioDevice (device : Device) : AudioDevice := ⟨device.name, device.id, kindOf device⟩

/-- The first line of a device files the one before it and opens the next. -/
theorem parseLine_deviceLine (listing : Listing) (index : Nat) {device : Device}
    (h : Plain device.name) :
    parseLine listing (deviceLine index device) =
      { status := listing.status.file listing.pending
        pending := some { name := device.name, id := [], kind := kindOf device } } := by
  have hspace : ∀ c ∈ Nat.toDigits 10 index, (c != ' ') = true := by
    intro c hc
    exact bne_iff_ne.mpr (isAsciiDigit_ne (isAsciiDigit_digits hc) (by decide))
  have hindex : (trimStart (deviceLine index device)).takeWhile (· != ' ') =
      Nat.toDigits 10 index := by
    rw [trimStart_deviceLine, List.takeWhile_append_of_pos hspace]
    exact List.append_nil _
  have hrest : ((trimStart (deviceLine index device)).dropWhile (· != ' ')).drop 1 =
      (kindOf device).tag ++ ' ' :: device.name := by
    rw [trimStart_deviceLine, List.dropWhile_append_of_pos hspace]
    rfl
  have hid : stripPrefix "id:".toList (trimStart (deviceLine index device)) = none := by
    rw [trimStart_deviceLine]
    exact stripPrefix_digits (c := 'i') (by decide) _ index _
  have hnumber : ((Nat.toDigits 10 index).isEmpty || !(Nat.toDigits 10 index).all isAsciiDigit) =
      false := by
    rw [Bool.or_eq_false_iff]
    refine ⟨?_, ?_⟩
    · exact List.isEmpty_eq_false_iff.mpr Nat.toDigits_ne_nil
    · rw [Bool.not_eq_false', List.all_eq_true]
      exact fun c hc => isAsciiDigit_digits hc
  unfold parseLine
  rw [show "Default speaker:".toList = 'D' :: "efault speaker:".toList from rfl,
    show "Default microphone:".toList = 'D' :: "efault microphone:".toList from rfl,
    stripPrefix_deviceLine, stripPrefix_deviceLine]
  simp only [hid, hindex, hrest, hnumber, tag_leads, dropWhile_tag, h.trim_space,
    Bool.false_eq_true, if_false]

/-- The second line gives the pending device its id. -/
theorem parseLine_idLine (listing : Listing) {device : Device} (h : Plain device.id) :
    parseLine listing (idLine device) =
      { listing with
        pending := listing.pending.map fun pending => { pending with id := device.id } } := by
  have hid : stripPrefix "id:".toList (trimStart (idLine device)) = some (' ' :: device.id) :=
    stripPrefix_append "id:".toList (' ' :: device.id)
  unfold parseLine
  rw [show stripPrefix "Default speaker:".toList (idLine device) = none from
      stripPrefix_cons_ne (by decide) _ _,
    show stripPrefix "Default microphone:".toList (idLine device) = none from
      stripPrefix_cons_ne (by decide) _ _]
  simp only [hid, h.trim_space]

/-- **One device**: its two lines file the device before it and leave it pending, with the
    name and the id it has. -/
theorem parse_device (listing : Listing) (index : Nat) {device : Device}
    (hname : Plain device.name) (hid : Plain device.id) :
    parseLine (parseLine listing (deviceLine index device)) (idLine device) =
      { status := listing.status.file listing.pending, pending := some (audioDevice device) } := by
  rw [parseLine_deviceLine listing index hname, parseLine_idLine _ hid]
  rfl

/-! ## The whole listing -/

/-- The status after some devices have been filed, each in its own list. -/
def AudioDeviceStatus.fileAll (status : AudioDeviceStatus) (devices : List Device) :
    AudioDeviceStatus :=
  { status with
    loopbacks := status.loopbacks ++ (devices.filter (·.isLoopback)).map audioDevice
    microphones := status.microphones ++ (devices.filter (!·.isLoopback)).map audioDevice }

@[simp] theorem fileAll_nil (status : AudioDeviceStatus) : status.fileAll [] = status := by
  simp [AudioDeviceStatus.fileAll]

theorem fileAll_cons (status : AudioDeviceStatus) (device : Device) (devices : List Device) :
    status.fileAll (device :: devices) =
      (status.file (some (audioDevice device))).fileAll devices := by
  cases hkind : device.isLoopback with
  | true =>
    simp [AudioDeviceStatus.fileAll, AudioDeviceStatus.file, audioDevice, kindOf, hkind]
  | false =>
    simp [AudioDeviceStatus.fileAll, AudioDeviceStatus.file, audioDevice, kindOf, hkind]

/-- By induction on the devices: what was pending is filed before them, and they are filed
    in their order, the last one by the `flush` after the loop. -/
theorem parse_devices (devices : List Device) (index : Nat) (listing : Listing)
    (h : ∀ device ∈ devices, Plain device.name ∧ Plain device.id) :
    let after := (deviceLines index devices).foldl parseLine listing
    after.status.file after.pending = (listing.status.file listing.pending).fileAll devices := by
  induction devices generalizing index listing with
  | nil => exact (fileAll_nil _).symm
  | cons device devices ih =>
    obtain ⟨hname, hid⟩ := h device List.mem_cons_self
    have hrest := ih (index + 1)
      { status := listing.status.file listing.pending, pending := some (audioDevice device) }
      fun d hd => h d (List.mem_cons_of_mem _ hd)
    rw [fileAll_cons, ← hrest]
    simp only [deviceLines, List.foldl_cons, parse_device listing index hname hid]

theorem whole_deviceLine (index : Nat) {device : Device} (h : Plain device.name) :
    Whole (deviceLine index device) := by
  apply h.whole_after
  intro hmem
  rcases List.mem_append.mp hmem with hmem | hmem
  · rcases List.mem_append.mp hmem with hmem | hmem
    · cases List.eq_of_mem_replicate hmem
    · exact isAsciiDigit_ne (isAsciiDigit_digits hmem) (by decide) rfl
  · generalize kindOf device = kind at hmem
    cases kind <;> exact absurd hmem (by decide)

theorem whole_idLine {device : Device} (h : Plain device.id) : Whole (idLine device) :=
  have hbefore : '\n' ∉ "    id:".toList := by decide
  h.whole_after hbefore

theorem whole_deviceLines {devices : List Device}
    (h : ∀ device ∈ devices, Plain device.name ∧ Plain device.id) (index : Nat) :
    ∀ line ∈ deviceLines index devices, Whole line := by
  induction devices generalizing index with
  | nil => intro line hline; cases hline
  | cons device devices ih =>
    obtain ⟨hname, hid⟩ := h device List.mem_cons_self
    intro line hline
    rcases List.mem_cons.mp hline with rfl | hline
    · exact whole_deviceLine index hname
    rcases List.mem_cons.mp hline with rfl | hline
    · exact whole_idLine hid
    · exact ih (fun d hd => h d (List.mem_cons_of_mem _ hd)) (index + 1) line hline

/-! ## The lines before the devices -/

theorem speaker_label : "Default speaker: ".toList = "Default speaker:".toList ++ [' '] := by
  decide

theorem microphone_label :
    "Default microphone: ".toList = "Default microphone:".toList ++ [' '] := by
  decide

theorem parseLine_speaker (listing : Listing) {name : Text} (h : Plain name) :
    parseLine listing ("Default speaker: ".toList ++ name) =
      { listing with status := { listing.status with defaultSpeaker := name } } := by
  have hstrip : stripPrefix "Default speaker:".toList ("Default speaker: ".toList ++ name) =
      some (' ' :: name) := by
    rw [speaker_label, List.append_assoc]
    exact stripPrefix_append _ _
  unfold parseLine
  simp only [hstrip, h.trim_space]

theorem parseLine_microphone (listing : Listing) {name : Text} (h : Plain name) :
    parseLine listing ("Default microphone: ".toList ++ name) =
      { listing with status := { listing.status with defaultMicrophone := name } } := by
  have hstrip : stripPrefix "Default microphone:".toList ("Default microphone: ".toList ++ name) =
      some (' ' :: name) := by
    rw [microphone_label, List.append_assoc]
    exact stripPrefix_append _ _
  have hother : stripPrefix "Default speaker:".toList ("Default microphone: ".toList ++ name) =
      none := by
    unfold stripPrefix
    rw [if_neg]
    -- The two prefixes part at their ninth character.
    intro hprefix
    have htake := List.prefix_iff_eq_take.mp hprefix
    have := congrArg (fun t : Text => t[8]?) htake
    cases this
  unfold parseLine
  simp only [hother, hstrip, h.trim_space]

theorem parseLine_blank (listing : Listing) : parseLine listing [] = listing := rfl

theorem parseLine_heading (listing : Listing) :
    parseLine listing "Recording devices:".toList = listing := rfl

theorem whole_speaker {name : Text} (h : Plain name) :
    Whole ("Default speaker: ".toList ++ name) := by
  have hbefore : '\n' ∉ "Default speaker:".toList := by decide
  rw [speaker_label, List.append_assoc]
  exact h.whole_after hbefore

theorem whole_microphone {name : Text} (h : Plain name) :
    Whole ("Default microphone: ".toList ++ name) := by
  have hbefore : '\n' ∉ "Default microphone:".toList := by decide
  rw [microphone_label, List.append_assoc]
  exact h.whole_after hbefore

/-- **The listing comes back**: whatever brackets, digits, spaces or `id:` the names and
    ids hold, the parser answers the defaults and every device, in its list and in the
    printed order. -/
theorem parsePythonListing_listDevices (lineEnd : LineEnd) {sound : Sound} {speaker : Text}
    {microphone : Device} {devices : List Device}
    (speaks : sound.defaultSpeakerName = .ok speaker)
    (listens : sound.defaultMicrophone = .ok microphone)
    (lists : sound.allMicrophones = .ok devices)
    (plain_speaker : Plain speaker) (plain_microphone : Plain microphone.name)
    (plain : ∀ device ∈ devices, Plain device.name ∧ Plain device.id) :
    parsePythonListing (printed lineEnd (listDevices sound).1) =
      { defaultSpeaker := speaker
        defaultMicrophone := microphone.name
        loopbacks := (devices.filter (·.isLoopback)).map audioDevice
        microphones := (devices.filter (!·.isLoopback)).map audioDevice
        error := none } := by
  have hlines : (listDevices sound).1 =
      ("Default speaker: ".toList ++ speaker) :: ("Default microphone: ".toList ++ microphone.name)
        :: [] :: "Recording devices:".toList :: deviceLines 0 devices := by
    unfold listDevices
    rw [speaks, listens, lists]
    rfl
  have hwhole : ∀ line ∈ (listDevices sound).1, Whole line := by
    rw [hlines]
    intro line hline
    rcases List.mem_cons.mp hline with rfl | hline
    · exact whole_speaker plain_speaker
    rcases List.mem_cons.mp hline with rfl | hline
    · exact whole_microphone plain_microphone
    rcases List.mem_cons.mp hline with rfl | hline
    · exact ⟨by decide, by decide⟩
    rcases List.mem_cons.mp hline with rfl | hline
    · exact ⟨by decide, by decide⟩
    · exact whole_deviceLines plain 0 line hline
  unfold parsePythonListing
  rw [textLines_printed lineEnd hwhole, hlines, List.foldl_cons, List.foldl_cons,
    List.foldl_cons, List.foldl_cons, parseLine_speaker _ plain_speaker,
    parseLine_microphone _ plain_microphone, parseLine_blank, parseLine_heading]
  exact parse_devices devices 0 _ plain

/-- Names that look like parts of the layout, and an id that is empty. -/
theorem parsePythonListing_listDevices_tricky :
    let mic : Device := ⟨"id: 3 [loopback] x]".toList, [], false⟩
    let speaker : Device := ⟨"Default speaker: 12".toList, "{0.0}.{a}".toList, true⟩
    parsePythonListing (printed .crLf (listDevices
        ⟨.ok [mic, speaker], .ok speaker.name, .ok mic⟩).1) =
      ⟨speaker.name, mic.name, [audioDevice speaker], [audioDevice mic], none⟩ := by
  intro mic speaker
  have hmic : Plain mic.name ∧ Plain mic.id := ⟨⟨by decide, by decide⟩, ⟨by decide, by decide⟩⟩
  have hspeaker : Plain speaker.name ∧ Plain speaker.id :=
    ⟨⟨by decide, by decide⟩, ⟨by decide, by decide⟩⟩
  have hplain : ∀ device ∈ [mic, speaker], Plain device.name ∧ Plain device.id := by
    intro device hdevice
    rcases List.mem_pair.mp hdevice with rfl | rfl
    · exact hmic
    · exact hspeaker
  let sound : Sound := ⟨.ok [mic, speaker], .ok speaker.name, .ok mic⟩
  have speaks : sound.defaultSpeakerName = .ok speaker.name := rfl
  exact parsePythonListing_listDevices .crLf speaks rfl rfl hspeaker.1 hmic.1 hplain

end Devices
end LocalMeetingStt
