import LocalMeetingStt.Captions.Text

/-!
# Choosing a recording device (`record_audio.py`)

What `soundcard` answers is a snapshot that the next call need not see again: a device
may go between two calls, which is why the selection made at start-up says nothing about
the one the capture thread makes.

The two kinds of failure are what the rest of the session turns on. A device that is not
there raises `SystemExit`, which is no `Exception`; everything else that can go wrong,
here or later, is one.
-/

namespace LocalMeetingStt
namespace Live

/-- What a Python statement may raise, as `except Exception` tells it apart. -/
inductive Failure where
  | exception (message : Text)
  | systemExit (message : Text)
deriving DecidableEq, Repr

def Failure.message : Failure → Text
  | .exception message | .systemExit message => message

/-- `str.casefold`. -/
class Casefold where
  casefold : Text → Text

/-- On ASCII text, and on text of scripts without case. -/
@[reducible] def asciiCasefold : Casefold where
  casefold t := t.map Char.toLower

structure Device where
  name : Text
  id : Text
  isLoopback : Bool
deriving DecidableEq, Repr

/-- What the calls of `soundcard` answer at one moment; each may raise an exception. -/
structure Sound where
  allMicrophones : Except Text (List Device)
  defaultSpeakerName : Except Text Text
  defaultMicrophone : Except Text Device

/-- The answer of a `soundcard` call, as the statement that makes it sees it. -/
def asked {α : Type} (answer : Except Text α) : Except Failure α :=
  answer.mapError .exception

section

variable [Casefold]

open Casefold

def findDevice (sound : Sound) (nameOrId : Text) (wantLoopback : Option Bool) :
    Except Failure Device := do
  let query := casefold nameOrId
  let candidates ← asked sound.allMicrophones
  let found := candidates.filter fun device =>
    (wantLoopback.all fun want => device.isLoopback == want) &&
      (contains (casefold device.name) query || contains (casefold device.id) query)
  match found with
  | [] =>
    let kind := match wantLoopback with
      | some true => "loopback"
      | some false => "microphone"
      | none => "recording"
    throw (.systemExit
      ("No matching ".toList ++ kind.toList ++ " device found for: ".toList ++ nameOrId))
  | device :: _ => return device

def selectSystemLoopback (sound : Sound) (deviceQuery : Option Text) : Except Failure Device :=
  match deviceQuery with
  | some (c :: cs) => findDevice sound (c :: cs) (some true)
  | some [] | none => do
    let defaultName ← asked sound.defaultSpeakerName
    let devices ← asked sound.allMicrophones
    let loopbacks := devices.filter (·.isLoopback)
    match loopbacks.find? fun device => device.name == defaultName with
    | some device => return device
    | none =>
      match loopbacks.find? fun device =>
          contains (casefold device.name) (casefold defaultName) ||
            contains (casefold defaultName) (casefold device.name) with
      | some device => return device
      | none =>
        match loopbacks with
        | [] => throw (.systemExit "No Windows loopback recording devices were found.".toList)
        | device :: _ => return device

def selectMicrophone (sound : Sound) (deviceQuery : Option Text) : Except Failure Device :=
  match deviceQuery with
  | some (c :: cs) => findDevice sound (c :: cs) (some false)
  | some [] | none => do
    let defaultMic ← asked sound.defaultMicrophone
    if !defaultMic.isLoopback then return defaultMic
    else
      let devices ← asked sound.allMicrophones
      match devices.filter (!·.isLoopback) with
      | [] =>
        throw (.systemExit "No physical/virtual microphone devices were found.".toList)
      | device :: _ => return device

/-! ## Which device a query finds -/

/-- Of the wanted kind. -/
def Device.wanted (device : Device) (wantLoopback : Option Bool) : Bool :=
  wantLoopback.all fun want => device.isLoopback == want

/-- The query occurs in the name or the id, which is what `find_device` looks for. -/
def Device.Matches (device : Device) (nameOrId : Text) : Prop :=
  casefold nameOrId <:+: casefold device.name ∨ casefold nameOrId <:+: casefold device.id

/-- The query is the full name or the id, but for case. -/
def Device.Called (device : Device) (nameOrId : Text) : Prop :=
  casefold device.name = casefold nameOrId ∨ casefold device.id = casefold nameOrId

theorem Device.Called.matches {device : Device} {nameOrId : Text}
    (h : device.Called nameOrId) : device.Matches nameOrId := by
  rcases h with h | h
  · exact .inl (h ▸ List.infix_rfl)
  · exact .inr (h ▸ List.infix_rfl)

/-- What the list comprehension keeps. -/
def Device.found (wantLoopback : Option Bool) (nameOrId : Text) (device : Device) : Bool :=
  device.wanted wantLoopback &&
    (contains (casefold device.name) (casefold nameOrId) ||
      contains (casefold device.id) (casefold nameOrId))

theorem Device.found_iff {wantLoopback : Option Bool} {nameOrId : Text} {device : Device} :
    device.found wantLoopback nameOrId = true ↔
      device.wanted wantLoopback = true ∧ device.Matches nameOrId := by
  simp only [Device.found, Device.Matches, Bool.and_eq_true, Bool.or_eq_true, contains_iff]

/-- The first device that is kept is the answer. -/
theorem findDevice_ok_iff {sound : Sound} {nameOrId : Text} {wantLoopback : Option Bool}
    {devices : List Device} (listed : sound.allMicrophones = .ok devices) {device : Device} :
    findDevice sound nameOrId wantLoopback = .ok device ↔
      (devices.filter (Device.found wantLoopback nameOrId)).head? = some device := by
  have heq : findDevice sound nameOrId wantLoopback =
      match devices.filter (Device.found wantLoopback nameOrId) with
      | [] => .error (.systemExit ("No matching ".toList ++
          (match wantLoopback with
            | some true => "loopback"
            | some false => "microphone"
            | none => "recording" : String).toList ++
          " device found for: ".toList ++ nameOrId))
      | found :: _ => .ok found := by
    unfold findDevice
    rw [listed]
    rfl
  rw [heq]
  cases devices.filter (Device.found wantLoopback nameOrId) with
  | nil => simp
  | cons found rest => simp

/-- **When the device whose name or id is asked for is the one that is opened.** The search
    takes the first device with the query anywhere in its name or id, so the one that is
    called exactly so is found if and only if no device of its kind before it has the query
    inside a longer name or id. -/
theorem findDevice_called_iff (sound : Sound) (nameOrId : Text) (wantLoopback : Option Bool)
    (before after : List Device) (device : Device)
    (listed : sound.allMicrophones = .ok (before ++ device :: after))
    (wanted : device.wanted wantLoopback = true) (called : device.Called nameOrId)
    (only : ∀ other ∈ before ++ after, other.wanted wantLoopback = true →
      ¬other.Called nameOrId) :
    findDevice sound nameOrId wantLoopback = .ok device ↔
      ∀ other ∈ before, other.wanted wantLoopback = true → ¬other.Matches nameOrId := by
  have hfound : device.found wantLoopback nameOrId = true :=
    Device.found_iff.mpr ⟨wanted, called.matches⟩
  rw [findDevice_ok_iff listed, List.filter_append, List.filter_cons_of_pos hfound]
  cases hbefore : before.filter (Device.found wantLoopback nameOrId) with
  | nil =>
    have hnone := List.filter_eq_nil_iff.mp hbefore
    refine iff_of_true rfl fun other hmem hwanted hmatches => ?_
    exact hnone other hmem (Device.found_iff.mpr ⟨hwanted, hmatches⟩)
  | cons first rest =>
    have hfirst : first ∈ before ∧ first.found wantLoopback nameOrId = true :=
      List.mem_filter.mp (hbefore ▸ List.mem_cons_self)
    obtain ⟨hwanted, hmatches⟩ := Device.found_iff.mp hfirst.2
    refine iff_of_false (fun heq => ?_) fun hnone => hnone first hfirst.1 hwanted hmatches
    -- the device found has the query inside a longer name, so it is not the one called so
    obtain rfl : first = device := Option.some.inj heq
    exact only first (List.mem_append_left after hfirst.1) wanted called

end

/-- Two outputs of one machine, the second with the shorter name. -/
def Device.headset : Device := ⟨"Speakers (Headset)".toList, "1".toList, true⟩

def Device.plainSpeakers : Device := ⟨"Speakers".toList, "0".toList, true⟩

theorem findDevice_called_iff_byId :
    let _ := asciiCasefold
    findDevice ⟨.ok [.headset, .plainSpeakers], .error [], .error []⟩ "0".toList (some true) =
      .ok .plainSpeakers := by
  intro _
  refine (findDevice_called_iff _ "0".toList (some true) [.headset] [] .plainSpeakers rfl rfl
    (.inr rfl) ?_).mpr ?_
  · intro other hmem _
    obtain rfl : other = .headset := List.mem_singleton.mp hmem
    unfold Device.Called
    decide
  · intro other hmem _
    obtain rfl : other = .headset := List.mem_singleton.mp hmem
    unfold Device.Matches
    decide

/-- **Asked for the speakers by their full name, the search opens the headset.** -/
theorem findDevice_takes_headset :
    let _ := asciiCasefold
    ¬∀ (sound : Sound) (nameOrId : Text) (wantLoopback : Option Bool)
      (before after : List Device) (device : Device),
      sound.allMicrophones = .ok (before ++ device :: after) →
      device.wanted wantLoopback = true → device.Called nameOrId →
      (∀ other ∈ before ++ after, other.wanted wantLoopback = true →
        ¬other.Called nameOrId) →
      findDevice sound nameOrId wantLoopback = .ok device := by
  intro _ hclaim
  have hfound := hclaim ⟨.ok [.headset, .plainSpeakers], .error [], .error []⟩
    "speakers".toList (some true) [.headset] [] .plainSpeakers rfl rfl (.inl rfl) (by
      intro other hmem _
      obtain rfl : other = .headset := List.mem_singleton.mp hmem
      unfold Device.Called
      decide)
  have htaken : findDevice ⟨.ok [.headset, .plainSpeakers], .error [], .error []⟩
      "speakers".toList (some true) = .ok .headset := by rfl
  rw [htaken] at hfound
  cases hfound

end Live
end LocalMeetingStt
