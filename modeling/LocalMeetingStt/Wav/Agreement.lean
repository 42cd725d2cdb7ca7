import LocalMeetingStt.Wav.Repair

/-!
# The two header repairs (`wav.rs` and `repair_wav_header.py`)

The desktop application and the command line script each carry a repair of their own. They
test the same things in another order; the script packs the sizes with `struct`, which
raises where the number does not fit the field, and the application casts them, which does
not. Both are right to: the limit on the file size comes first.

`Rewritten` is what a repair may do to a file. It leaves nothing for a second repair.
-/

namespace LocalMeetingStt
namespace Wav

open LittleEndian

/-! ## `repair_wav_header.py` -/

/-- `struct.pack("<I", n)`, which raises for a number of more than 32 bits. -/
def packI (n : Nat) : Option Bytes := if n ≤ 0xFFFFFFFF then some (field 4 n) else none

/-- `struct.unpack_from("<I", header, offset)[0]` -/
def unpackI (header : Bytes) (offset : Nat) : Nat := value (bytesAt header offset 4)

/-- `struct.unpack_from("<H", header, offset)[0]` -/
def unpackH (header : Bytes) (offset : Nat) : Nat := value (bytesAt header offset 2)

/-- The verdict and the bytes after, or none where a `struct.error` is raised. -/
def repairPcmWavHeader (bytes : Bytes) : Option (Bool × Bytes) :=
  let size := bytes.length
  if size ≤ 44 ∨ size > 0xFFFFFFFF then some (false, bytes)
  else
    let header := bytes.take 44
    if header.length ≠ 44 then some (false, bytes)
    else if bytesAt header 0 4 ≠ tag "RIFF" ∨ bytesAt header 8 4 ≠ tag "WAVE" then
      some (false, bytes)
    else if bytesAt header 12 4 ≠ tag "fmt " ∨ bytesAt header 36 4 ≠ tag "data" then
      some (false, bytes)
    else if unpackH header 20 ≠ 1 then some (false, bytes)
    else
      let riffSize := size - 8
      let dataSize := size - 44
      let currentRiffSize := unpackI header 4
      let currentDataSize := unpackI header 40
      if currentRiffSize = riffSize ∧ currentDataSize = dataSize then some (false, bytes)
      else do
        let riff ← packI riffSize
        let data ← packI dataSize
        return (true, overwrite (overwrite bytes 4 riff) 40 data)

/-! ## What both of them do -/

/-- A plain PCM file whose sizes are not those of the file. -/
structure Unfinished (bytes : Bytes) : Prop where
  header : 44 < bytes.length
  fits : bytes.length ≤ u32Max
  plain : plainHeader (bytes.take 44) = true
  wrong : ¬(u32At bytes 4 = bytes.length - 8 ∧ u32At bytes 40 = bytes.length - 44)

/-- The sizes written over the header. -/
def withSizes (bytes : Bytes) : Bytes :=
  overwrite (overwrite bytes 4 (field 4 (bytes.length - 8))) 40 (field 4 (bytes.length - 44))

theorem u32At_take {bytes : Bytes} {offset : Nat} (h : offset + 4 ≤ 44) :
    u32At (bytes.take 44) offset = u32At bytes offset := by
  rw [u32At, bytesAt_take h, u32At]

theorem repairPcmHeader_of_unfinished {bytes : Bytes} (h : Unfinished bytes) :
    repairPcmHeader bytes = (true, withSizes bytes) := by
  obtain ⟨hheader, hfits, hplain, hwrong⟩ := h
  unfold repairPcmHeader
  dsimp only
  rw [if_neg (by omega), if_neg (by rw [List.length_take]; omega), if_neg (by simp [hplain]),
    u32At_take (by omega), u32At_take (by omega), if_neg hwrong]
  rfl

theorem repairPcmHeader_of_not_unfinished {bytes : Bytes} (h : ¬Unfinished bytes) :
    repairPcmHeader bytes = (false, bytes) := by
  unfold repairPcmHeader
  dsimp only
  rw [u32At_take (by omega), u32At_take (by omega)]
  split_ifs with hsize _ hplain hwrong
  · rfl
  · rfl
  · rfl
  · rfl
  · rw [not_or, Nat.not_le, Nat.not_lt] at hsize
    exact absurd ⟨hsize.1, hsize.2, by simpa using hplain, hwrong⟩ h

/-- The tests on the header, one after the other, are `plainHeader`. -/
theorem plainHeader_iff (header : Bytes) :
    plainHeader header = true ↔
      (bytesAt header 0 4 = tag "RIFF" ∧ bytesAt header 8 4 = tag "WAVE") ∧
        (bytesAt header 12 4 = tag "fmt " ∧ bytesAt header 36 4 = tag "data") ∧
        unpackH header 20 = 1 := by
  simp [plainHeader, unpackH, u16At, and_assoc]

theorem repairPcmWavHeader_of_unfinished {bytes : Bytes} (h : Unfinished bytes) :
    repairPcmWavHeader bytes = some (true, withSizes bytes) := by
  obtain ⟨hheader, hfits, hplain, hwrong⟩ := h
  obtain ⟨⟨hriff, hwave⟩, ⟨hfmt, hdata⟩, hpcm⟩ := (plainHeader_iff _).mp hplain
  have hlimit : bytes.length ≤ 0xFFFFFFFF := hfits
  have hread : ∀ offset, unpackI (bytes.take 44) offset = u32At (bytes.take 44) offset :=
    fun _ => rfl
  unfold repairPcmWavHeader
  dsimp only
  rw [if_neg (by omega), if_neg (by rw [List.length_take]; omega), if_neg (by simp [hriff, hwave]),
    if_neg (by simp [hfmt, hdata]), if_neg (by simp [hpcm]), hread, hread, u32At_take (by omega),
    u32At_take (by omega), if_neg hwrong]
  -- the limit on the file size is what keeps `struct` from raising
  rw [packI, if_pos (by omega), packI, if_pos (by omega)]
  rfl

theorem repairPcmWavHeader_of_not_unfinished {bytes : Bytes} (h : ¬Unfinished bytes) :
    repairPcmWavHeader bytes = some (false, bytes) := by
  have hread : ∀ offset, unpackI (bytes.take 44) offset = u32At (bytes.take 44) offset :=
    fun _ => rfl
  unfold repairPcmWavHeader
  dsimp only
  rw [hread, hread, u32At_take (by omega), u32At_take (by omega)]
  split_ifs with hsize _ hriff hfmt hpcm hwrong
  · rfl
  · rfl
  · rfl
  · rfl
  · rfl
  · rfl
  · simp only [not_or, not_not, Nat.not_le, Nat.not_lt] at hsize hriff hfmt hpcm
    exact absurd ⟨hsize.1, hsize.2, (plainHeader_iff _).mpr ⟨hriff, hfmt, hpcm⟩, hwrong⟩ h

/-! ## What a repair leaves -/

/-- The two size fields hold the sizes of the file, and no other byte has changed. -/
structure Rewritten (bytes bytes' : Bytes) : Prop where
  length : bytes'.length = bytes.length
  others : ∀ i, ¬(4 ≤ i ∧ i < 8) → ¬(40 ≤ i ∧ i < 44) → bytes'[i]? = bytes[i]?
  riff : u32At bytes' 4 + 8 = bytes.length
  data : u32At bytes' 40 + 44 = bytes.length

theorem Unfinished.rewritten {bytes : Bytes} (h : Unfinished bytes) :
    Rewritten bytes (withSizes bytes) := by
  obtain ⟨hheader, hfits, -, -⟩ := h
  have hlimit : bytes.length ≤ 0xFFFFFFFF := hfits
  have hlen : (overwrite bytes 4 (field 4 (bytes.length - 8))).length = bytes.length :=
    overwrite_length (by rw [field_length]; omega)
  refine ⟨?_, ?_, ?_, ?_⟩
  · rw [withSizes, overwrite_length (by rw [field_length, hlen]; omega), hlen]
  · intro i hriff hdata
    rw [withSizes, getElem?_overwrite (by omega) (by rw [field_length]; omega),
      getElem?_overwrite (by omega) (by rw [field_length]; omega)]
  · have hread : u32At (withSizes bytes) 4 = bytes.length - 8 := by
      rw [u32At, withSizes, bytesAt_overwrite_apart (by omega) (.inl (by omega)),
        bytesAt_overwrite (by omega) (field_length _ _), value_field (by omega)]
    omega
  · have hread : u32At (withSizes bytes) 40 = bytes.length - 44 := by
      rw [u32At, withSizes, bytesAt_overwrite (by omega) (field_length _ _),
        value_field (by omega)]
    omega

/-- A file with the sizes of the file in its header is finished. -/
theorem Rewritten.finished {bytes bytes' : Bytes} (h : Rewritten bytes bytes') :
    ¬Unfinished bytes' := by
  intro hunfinished
  have hlen := h.length
  have hriff := h.riff
  have hdata := h.data
  exact hunfinished.wrong ⟨by omega, by omega⟩

/-- **The two repairs are one, and it is done once.** Whatever the bytes of a file: both
    give the same verdict and leave the same bytes. Either that is no, and no byte has
    changed; or it is yes, the two sizes are what the file has, nothing else has changed,
    and a second repair, of either, says no. -/
theorem repairs_agree (bytes : Bytes) :
    repairPcmWavHeader bytes = some (repairPcmHeader bytes) ∧
      (repairPcmHeader bytes = (false, bytes) ∨
        ∃ bytes', repairPcmHeader bytes = (true, bytes') ∧ Rewritten bytes bytes' ∧
          repairPcmHeader bytes' = (false, bytes') ∧
          repairPcmWavHeader bytes' = some (false, bytes')) := by
  by_cases h : Unfinished bytes
  · have hrewritten := h.rewritten
    rw [repairPcmHeader_of_unfinished h, repairPcmWavHeader_of_unfinished h]
    exact ⟨rfl, .inr ⟨_, rfl, hrewritten,
      repairPcmHeader_of_not_unfinished hrewritten.finished,
      repairPcmWavHeader_of_not_unfinished hrewritten.finished⟩⟩
  · rw [repairPcmHeader_of_not_unfinished h, repairPcmWavHeader_of_not_unfinished h]
    exact ⟨rfl, .inl rfl⟩

end Wav
end LocalMeetingStt
