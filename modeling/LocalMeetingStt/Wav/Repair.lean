import LocalMeetingStt.Lib.LittleEndian

/-!
# `repair_pcm_header` (`wav.rs`) and the files it must leave alone

The repair looks at the file size and the first 44 bytes and takes the file for one
whose writer was killed when the sizes in those bytes do not match. `RiffWave` says
what a well-formed file is, independently of the repair: a list of chunks, each with
its declared size and pad byte, tiling the file. Its fields carry the conditions, so
`encode` of any `RiffWave` is a well-formed file by construction.

The two disagree. A chunk after the data chunk, or the pad byte of an odd data chunk,
is part of `size - 44` but not of the data size, and the repair rewrites the header
of a file that was right (`repairPcmHeader_encode` says exactly when).
-/

namespace LocalMeetingStt
namespace Wav

open LittleEndian

/-- `u32::MAX` -/
def u32Max : Nat := 4294967295

/-- Four bytes, as a number. -/
def u32At (header : Bytes) (offset : Nat) : Nat := value (bytesAt header offset 4)

/-- Two bytes, as a number. -/
def u16At (header : Bytes) (offset : Nat) : Nat := value (bytesAt header offset 2)

/-- The bytes of an ASCII text. -/
def tag (name : String) : Bytes := name.toList.map fun c => UInt8.ofNat c.toNat

/-- The tests on the 44 header bytes: a PCM file with its format chunk first and the
    data chunk's tag at offset 36. -/
def plainHeader (header : Bytes) : Bool :=
  bytesAt header 0 4 == tag "RIFF" && bytesAt header 8 4 == tag "WAVE" &&
    bytesAt header 12 4 == tag "fmt " && bytesAt header 36 4 == tag "data" &&
    u16At header 20 == 1

/-- The repair of a regular file: whether the header was rewritten, and the bytes after. -/
def repairPcmHeader (bytes : Bytes) : Bool × Bytes :=
  let size := bytes.length
  if size ≤ 44 ∨ size > u32Max then (false, bytes)
  else
    let header := bytes.take 44
    if header.length ≠ 44 then (false, bytes)
    else if !plainHeader header then (false, bytes)
    else
      let riffSize := size - 8
      let dataSize := size - 44
      if u32At header 4 = riffSize ∧ u32At header 40 = dataSize then (false, bytes)
      else (true, overwrite (overwrite bytes 4 (field 4 riffSize)) 40 (field 4 dataSize))

/-! ## Well-formed files -/

/-- A chunk of a RIFF file; the pad byte is written when the size is odd. -/
structure Chunk where
  id : Bytes
  data : Bytes
  pad : UInt8
  id_length : id.length = 4
  fits : data.length < 2 ^ 32

def Chunk.encode (c : Chunk) : Bytes :=
  c.id ++ field 4 c.data.length ++ c.data ++ (if c.data.length % 2 = 1 then [c.pad] else [])

/-- A well-formed PCM `RIFF/WAVE` file. -/
structure RiffWave where
  chunks : List Chunk
  /-- The size after the first eight bytes fits the RIFF size field. -/
  fits : (chunks.flatMap Chunk.encode).length + 4 < 2 ^ 32
  pcm : ∃ c ∈ chunks, c.id = tag "fmt " ∧ 16 ≤ c.data.length ∧ u16At c.data 0 = 1
  hasData : ∃ c ∈ chunks, c.id = tag "data"

def RiffWave.body (w : RiffWave) : Bytes := w.chunks.flatMap Chunk.encode

def RiffWave.encode (w : RiffWave) : Bytes :=
  tag "RIFF" ++ field 4 (w.body.length + 4) ++ tag "WAVE" ++ w.body

theorem Chunk.encode_length (c : Chunk) :
    c.encode.length = 8 + c.data.length + c.data.length % 2 := by
  have hid := c.id_length
  unfold Chunk.encode
  split_ifs with hodd <;> simp only [List.length_append, field_length, List.length_singleton,
    List.length_nil] <;> omega

theorem RiffWave.encode_length (w : RiffWave) : w.encode.length = 12 + w.body.length := by
  have hriff : (tag "RIFF").length = 4 := by decide
  have hwave : (tag "WAVE").length = 4 := by decide
  simp only [RiffWave.encode, List.length_append, field_length, hriff, hwave]

/-- The RIFF size of a well-formed file is its size without the first eight bytes. -/
theorem RiffWave.riffSize (w : RiffWave) : u32At w.encode 4 = w.encode.length - 8 := by
  have hbytes : bytesAt w.encode 4 4 = field 4 (w.body.length + 4) :=
    bytesAt_middle (tag "RIFF") (by simp only [encode, List.append_assoc]; rfl) (by decide)
      (field_length _ _)
  rw [u32At, hbytes, value_field w.fits, w.encode_length]
  unfold RiffWave.body
  omega

/-! ## Where the repair and the format disagree -/

/-- Reads below 44 do not see past the header. -/
theorem bytesAt_take {bytes : Bytes} {offset count : Nat} (h : offset + count ≤ 44) :
    bytesAt (bytes.take 44) offset count = bytesAt bytes offset count := by
  unfold bytesAt
  rw [List.drop_take, List.take_take, Nat.min_eq_left (by omega)]

/-- **Exactly when a well-formed file survives.** It does when the repair does not take
    it for its kind of file (too large, or no plain 44-byte header), or when what it
    reads as the data size reaches to the end of the file. -/
def Spared (bytes : Bytes) : Prop :=
  bytes.length ≤ 44 ∨ u32Max < bytes.length ∨ plainHeader (bytes.take 44) = false ∨
    u32At bytes 40 = bytes.length - 44

instance (bytes : Bytes) : Decidable (Spared bytes) := by unfold Spared; infer_instance

theorem RiffWave.riffSize_take (w : RiffWave) :
    u32At (w.encode.take 44) 4 = w.encode.length - 8 := by
  rw [u32At, bytesAt_take (by omega)]
  exact w.riffSize

theorem u32At_take_data (bytes : Bytes) : u32At (bytes.take 44) 40 = u32At bytes 40 := by
  rw [u32At, bytesAt_take (by omega), u32At]

theorem repairPcmHeader_of_spared (w : RiffWave) (h : Spared w.encode) :
    repairPcmHeader w.encode = (false, w.encode) := by
  have hriff := w.riffSize_take
  have hdata := u32At_take_data w.encode
  unfold repairPcmHeader
  dsimp only
  split_ifs with hsize _ hplain hsizes
  · rfl
  · rfl
  · rfl
  · rfl
  · -- The file is a plain one with wrong sizes: then it was not spared.
    exfalso
    rw [hriff, hdata] at hsizes
    rcases h with h | h | h | h
    · exact hsize (.inl h)
    · exact hsize (.inr h)
    · exact hplain (by simp [h])
    · exact hsizes ⟨rfl, h⟩

/-- A well-formed file the repair does not spare loses its data size. -/
theorem repairPcmHeader_of_not_spared (w : RiffWave) (h : ¬Spared w.encode) :
    (repairPcmHeader w.encode).1 = true ∧ (repairPcmHeader w.encode).2 ≠ w.encode := by
  have hriff := w.riffSize_take
  have hdata := u32At_take_data w.encode
  simp only [Spared, not_or, Nat.not_le, Nat.not_lt, Bool.not_eq_false] at h
  obtain ⟨hbig, hsmall, hplain, hends⟩ := h
  generalize w.encode = bytes at *
  have hrewrite : repairPcmHeader bytes = (true,
      overwrite (overwrite bytes 4 (field 4 (bytes.length - 8))) 40
        (field 4 (bytes.length - 44))) := by
    unfold repairPcmHeader
    dsimp only
    rw [if_neg (by omega), if_neg (by rw [List.length_take]; omega), if_neg (by simp [hplain]),
      if_neg (by rw [hdata]; tauto)]
  -- What stands at offset 40 afterwards is the file's size, not the data chunk's.
  have hread : u32At (repairPcmHeader bytes).2 40 = bytes.length - 44 := by
    have hlen : (overwrite bytes 4 (field 4 (bytes.length - 8))).length = bytes.length :=
      overwrite_length (by rw [field_length]; omega)
    rw [hrewrite, u32At, bytesAt_overwrite (by rw [hlen]; omega) (field_length _ _)]
    exact value_field (by unfold u32Max at hsmall; omega)
  refine ⟨by rw [hrewrite], fun heq => hends ?_⟩
  rwa [heq] at hread

/-- The verdict and the bytes say the same of a well-formed file. -/
theorem repairPcmHeader_keeps_iff (w : RiffWave) :
    (repairPcmHeader w.encode = (false, w.encode) ↔ Spared w.encode) ∧
      ((repairPcmHeader w.encode).2 = w.encode ↔ Spared w.encode) := by
  by_cases hspared : Spared w.encode
  · simp [repairPcmHeader_of_spared w hspared, hspared]
  · have hne := (repairPcmHeader_of_not_spared w hspared).2
    exact ⟨iff_of_false (fun heq => hne (congrArg Prod.snd heq)) hspared,
      iff_of_false hne hspared⟩

/-- The layout recorders write: a format chunk of 16 bytes that says PCM, then the data
    chunk, then whatever follows. -/
structure RiffWave.Recorded (w : RiffWave) (data : Chunk) (rest : List Chunk) : Prop where
  layout : ∃ format : Chunk, w.chunks = format :: data :: rest ∧ format.id = tag "fmt " ∧
    format.data.length = 16 ∧ u16At format.data 0 = 1
  isData : data.id = tag "data"

/-- The bytes of a recorded file, field by field up to the data size. -/
theorem RiffWave.Recorded.bytes {w : RiffWave} {data : Chunk} {rest : List Chunk}
    (h : w.Recorded data rest) : ∃ format tail : Bytes, format.length = 16 ∧
      u16At format 0 = 1 ∧
      w.encode = tag "RIFF" ++ (field 4 (w.body.length + 4) ++ (tag "WAVE" ++ (tag "fmt " ++
        (field 4 16 ++ (format ++ (tag "data" ++ (field 4 data.data.length ++ tail))))))) := by
  obtain ⟨format, hchunks, hfmt, h16, hpcm⟩ := h.layout
  refine ⟨format.data, data.data ++ ((if data.data.length % 2 = 1 then [data.pad] else []) ++
    rest.flatMap Chunk.encode), h16, hpcm, ?_⟩
  have hformat : format.encode = tag "fmt " ++ (field 4 16 ++ format.data) := by
    simp [Chunk.encode, h16, hfmt]
  have hdata : data.encode = tag "data" ++ (field 4 data.data.length ++ (data.data ++
      if data.data.length % 2 = 1 then [data.pad] else [])) := by
    simp only [Chunk.encode, h.isData, List.append_assoc]
  simp only [encode, body, hchunks, List.flatMap_cons, hformat, hdata, List.append_assoc]

/-- What the repair reads from a recorded file's header. -/
theorem RiffWave.Recorded.header {w : RiffWave} {data : Chunk} {rest : List Chunk}
    (h : w.Recorded data rest) :
    plainHeader (w.encode.take 44) = true ∧ u32At w.encode 40 = data.data.length := by
  obtain ⟨format, tail, h16, hpcm, hbytes⟩ := h.bytes
  have htags : (tag "RIFF").length = 4 ∧ (tag "WAVE").length = 4 ∧ (tag "fmt ").length = 4 ∧
      (tag "data").length = 4 := by decide
  obtain ⟨hriff, hwave, hfmt, hdata⟩ := htags
  have h0 : bytesAt w.encode 0 4 = tag "RIFF" :=
    bytesAt_middle [] hbytes rfl hriff
  have h8 : bytesAt w.encode 8 4 = tag "WAVE" :=
    bytesAt_middle (tag "RIFF" ++ field 4 (w.body.length + 4))
      (by rw [hbytes]; simp only [List.append_assoc]; rfl) (by simp [hriff]) hwave
  have h12 : bytesAt w.encode 12 4 = tag "fmt " :=
    bytesAt_middle (tag "RIFF" ++ (field 4 (w.body.length + 4) ++ tag "WAVE"))
      (by rw [hbytes]; simp only [List.append_assoc]; rfl) (by simp [hriff, hwave]) hfmt
  have h20 : bytesAt w.encode 20 2 = bytesAt format 0 2 := by
    have hsplit : w.encode = tag "RIFF" ++ (field 4 (w.body.length + 4) ++
        (tag "WAVE" ++ (tag "fmt " ++ field 4 16))) ++ (bytesAt format 0 2 ++
        (format.drop 2 ++ (tag "data" ++ (field 4 data.data.length ++ tail)))) := by
      rw [hbytes]
      simp only [bytesAt, List.drop_zero, List.append_assoc]
      rw [← List.append_assoc (format.take 2), List.take_append_drop]
    exact bytesAt_middle _ hsplit (by simp [hriff, hwave, hfmt]) (by simp [bytesAt, h16])
  have hfront : (tag "RIFF" ++ (field 4 (w.body.length + 4) ++ (tag "WAVE" ++ (tag "fmt " ++
      (field 4 16 ++ format))))).length = 36 := by
    simp [hriff, hwave, hfmt, h16]
  have h36 : bytesAt w.encode 36 4 = tag "data" :=
    bytesAt_middle _ (by rw [hbytes]; simp only [List.append_assoc]; rfl) hfront hdata
  have h40 : bytesAt w.encode 40 4 = field 4 data.data.length :=
    bytesAt_middle (tag "RIFF" ++ (field 4 (w.body.length + 4) ++ (tag "WAVE" ++
      (tag "fmt " ++ (field 4 16 ++ (format ++ tag "data"))))))
      (by rw [hbytes]; simp only [List.append_assoc]; rfl)
      (by simp [hriff, hwave, hfmt, hdata, h16]) (field_length _ _)
  constructor
  · have h20' : u16At (w.encode.take 44) 20 = 1 := by
      rw [u16At, bytesAt_take (by omega), h20]
      exact hpcm
    simp [plainHeader, bytesAt_take, h0, h8, h12, h36, h20']
  · rw [u32At, h40]
    exact value_field data.fits

/-- **Which recorded files survive.** Those that end with their data chunk, and whose
    data chunk needs no pad byte; and files past the size the repair looks at. -/
theorem RiffWave.Recorded.spared_iff {w : RiffWave} {data : Chunk} {rest : List Chunk}
    (h : w.Recorded data rest) :
    Spared w.encode ↔
      u32Max < w.encode.length ∨ (rest = [] ∧ data.data.length % 2 = 0) := by
  obtain ⟨hplain, hread⟩ := h.header
  obtain ⟨format, hchunks, -, h16, -⟩ := h.layout
  have hlen : w.encode.length =
      44 + data.data.length + data.data.length % 2 + (rest.flatMap Chunk.encode).length := by
    simp only [w.encode_length, body, hchunks, List.flatMap_cons, List.length_append,
      Chunk.encode_length, h16]
    omega
  have hrest : rest = [] ↔ (rest.flatMap Chunk.encode).length = 0 := by
    cases rest with
    | nil => simp
    | cons c cs => simp [Chunk.encode_length]
  unfold Spared
  rw [hplain, hread, hrest]
  simp only [Bool.true_eq_false, false_or]
  omega

end Wav
end LocalMeetingStt
