import LocalMeetingStt.Lib.Torn
import LocalMeetingStt.Wav.Agreement

/-!
# The loopback recorder, killed and repaired (`common-wasapi-loopback.cpp`, `wav.rs`)

The loopback program writes its recording in place: the samples of a packet behind the
file, then the whole header over the old one, with the sizes so far. A live job is ended by
killing its process, so the file is what had been written by then, down to half a header or
half a sample. The waiter then repairs it.

`killed_recording_repaired` says what comes of it, wherever the kill falls: the recording of
exactly the sample bytes that were written, with the header the recorder would have given it.
-/

namespace LocalMeetingStt
namespace Wav

open LittleEndian Torn

/-! ## The recorder -/

/-- The header of `write_wav_header`; its numbers are unsigned, and wrap around. -/
def wavHeader (sampleRate dataSize : Nat) : Bytes :=
  let channels := 1
  let bitsPerSample := 16
  let byteRate := sampleRate * channels * bitsPerSample % 2 ^ 32 / 8
  let blockAlign := channels * bitsPerSample / 8
  tag "RIFF" ++ field 4 (36 + dataSize) ++ tag "WAVE" ++ tag "fmt " ++ field 4 16 ++ field 2 1 ++
    field 2 channels ++ field 4 sampleRate ++ field 4 byteRate ++ field 2 blockAlign ++
    field 2 bitsPerSample ++ tag "data" ++ field 4 dataSize

/-- The bytes of a packet's samples. -/
def pcmBytes (samples : List UInt16) : Bytes := samples.flatMap fun pcm => field 2 pcm.toNat

/-- `write_wav_samples`, packet after packet: the samples at `pos`, where the last ones end,
    then the header, and back. An empty packet writes nothing. -/
def writeWavSamples (sampleRate : Nat) : Nat → Nat → List (List UInt16) → List (Nat × UInt8)
  | _, _, [] => []
  | pos, dataSize, samples :: packets =>
    if samples.isEmpty then writeWavSamples sampleRate pos dataSize packets
    else
      let pcm := pcmBytes samples
      let dataSize := (dataSize + pcm.length) % 2 ^ 32
      writes pos pcm ++ (writes 0 (wavHeader sampleRate dataSize) ++
        writeWavSamples sampleRate (pos + pcm.length) dataSize packets)

/-- Every byte a recording writes, in order, from the file's creation on. -/
def recordingWrites (sampleRate : Nat) (packets : List (List UInt16)) : List (Nat × UInt8) :=
  writes 0 (wavHeader sampleRate 0) ++ writeWavSamples sampleRate 44 0 packets

/-! ## Headers -/

/-- What stands between the two sizes. -/
def format (sampleRate : Nat) : Bytes :=
  tag "WAVE" ++ (tag "fmt " ++ (field 4 16 ++ (field 2 1 ++ (field 2 1 ++ (field 4 sampleRate ++
    (field 4 (sampleRate * 1 * 16 % 2 ^ 32 / 8) ++ (field 2 (1 * 16 / 8) ++ (field 2 16 ++
      tag "data"))))))))

theorem tag_lengths : (tag "RIFF").length = 4 ∧ (tag "WAVE").length = 4 ∧
    (tag "fmt ").length = 4 ∧ (tag "data").length = 4 := by decide

theorem format_length (sampleRate : Nat) : (format sampleRate).length = 32 := by
  obtain ⟨-, hwave, hfmt, hdata⟩ := tag_lengths
  simp only [format, List.length_append, field_length, hwave, hfmt, hdata]

theorem wavHeader_eq (sampleRate dataSize : Nat) :
    wavHeader sampleRate dataSize =
      tag "RIFF" ++ (field 4 (36 + dataSize) ++ (format sampleRate ++ field 4 dataSize)) := by
  simp only [wavHeader, format, List.append_assoc]

@[simp] theorem wavHeader_length (sampleRate dataSize : Nat) :
    (wavHeader sampleRate dataSize).length = 44 := by
  obtain ⟨hriff, -⟩ := tag_lengths
  rw [wavHeader_eq]
  simp only [List.length_append, field_length, hriff, format_length]

/-- A header with any two sizes, as one is while it is written over another. -/
def Headed (sampleRate : Nat) (header : Bytes) : Prop :=
  ∃ riff data : Bytes, riff.length = 4 ∧ data.length = 4 ∧
    header = tag "RIFF" ++ (riff ++ (format sampleRate ++ data))

theorem headed_wavHeader (sampleRate dataSize : Nat) :
    Headed sampleRate (wavHeader sampleRate dataSize) :=
  ⟨_, _, field_length _ _, field_length _ _, wavHeader_eq _ _⟩

theorem Headed.length {sampleRate : Nat} {header : Bytes} (h : Headed sampleRate header) :
    header.length = 44 := by
  obtain ⟨riff, data, hriff, hdata, rfl⟩ := h
  simp only [List.length_append, hriff, hdata, tag_lengths.1, format_length]

theorem Headed.overlaid {sampleRate : Nat} {header header' : Bytes} (h : Headed sampleRate header)
    (h' : Headed sampleRate header') (n : Nat) :
    Headed sampleRate (Torn.overlaid n header header') := by
  obtain ⟨riff, data, hriff, hdata, rfl⟩ := h
  obtain ⟨riff', data', hriff', hdata', rfl⟩ := h'
  rw [overlaid_append rfl, overlaid_append (by rw [hriff, hriff']), overlaid_append rfl,
    overlaid_self, overlaid_self]
  exact ⟨_, _, (overlaid_length (by rw [hriff, hriff']) _).trans hriff,
    (overlaid_length (by rw [hdata, hdata']) _).trans hdata, rfl⟩

/-- What the repair reads of such a header. -/
theorem Headed.read {sampleRate : Nat} {riff data : Bytes} (hriff : riff.length = 4)
    (hdata : data.length = 4) (body : Bytes) {bytes : Bytes}
    (h : bytes = tag "RIFF" ++ (riff ++ (format sampleRate ++ (data ++ body)))) :
    plainHeader (bytes.take 44) = true ∧ u32At bytes 4 = value riff ∧
      u32At bytes 40 = value data := by
  obtain ⟨htag, hwave, hfmt, hword⟩ := tag_lengths
  have hsplit : bytes = tag "RIFF" ++ (riff ++ (tag "WAVE" ++ (tag "fmt " ++ (field 4 16 ++
      (field 2 1 ++ (field 2 1 ++ (field 4 sampleRate ++
        (field 4 (sampleRate * 1 * 16 % 2 ^ 32 / 8) ++ (field 2 (1 * 16 / 8) ++ (field 2 16 ++
          (tag "data" ++ (data ++ body)))))))))))) := by
    simp only [h, format, List.append_assoc]
  have h0 : bytesAt bytes 0 4 = tag "RIFF" := bytesAt_middle [] hsplit rfl htag
  have h4 : bytesAt bytes 4 4 = riff := bytesAt_middle (tag "RIFF") hsplit htag hriff
  have h8 : bytesAt bytes 8 4 = tag "WAVE" :=
    bytesAt_middle (tag "RIFF" ++ riff) (by rw [hsplit]; simp only [List.append_assoc]; rfl)
      (by simp [htag, hriff]) hwave
  have h12 : bytesAt bytes 12 4 = tag "fmt " :=
    bytesAt_middle (tag "RIFF" ++ (riff ++ tag "WAVE"))
      (by rw [hsplit]; simp only [List.append_assoc]; rfl) (by simp [htag, hriff, hwave]) hfmt
  have h20 : bytesAt bytes 20 2 = field 2 1 :=
    bytesAt_middle (tag "RIFF" ++ (riff ++ (tag "WAVE" ++ (tag "fmt " ++ field 4 16))))
      (by rw [hsplit]; simp only [List.append_assoc]; rfl)
      (by simp [htag, hriff, hwave, hfmt]) (field_length _ _)
  have h36 : bytesAt bytes 36 4 = tag "data" :=
    bytesAt_middle (tag "RIFF" ++ (riff ++ (tag "WAVE" ++ (tag "fmt " ++ (field 4 16 ++
      (field 2 1 ++ (field 2 1 ++ (field 4 sampleRate ++
        (field 4 (sampleRate * 1 * 16 % 2 ^ 32 / 8) ++ (field 2 (1 * 16 / 8) ++ field 2 16))))))))))
      (by rw [hsplit]; simp only [List.append_assoc]; rfl)
      (by simp [htag, hriff, hwave, hfmt]) hword
  have h40 : bytesAt bytes 40 4 = data :=
    bytesAt_middle (tag "RIFF" ++ (riff ++ format sampleRate))
      (by rw [h]; simp only [List.append_assoc]; rfl)
      (by simp [htag, hriff, format_length]) hdata
  have hpcm : u16At (bytes.take 44) 20 = 1 := by
    rw [u16At, bytesAt_take (by omega), h20]
    exact value_field (by decide)
  refine ⟨?_, ?_, ?_⟩
  · simp [plainHeader, bytesAt_take, h0, h8, h12, h36, hpcm]
  · rw [u32At, h4]
  · rw [u32At, h40]

/-- **The repair of a recording**: the sizes of its bytes, whatever stood for them. -/
theorem Headed.repair {sampleRate : Nat} {header body : Bytes} (h : Headed sampleRate header)
    (hbody : body ≠ []) (hfits : 44 + body.length ≤ u32Max) :
    (repairPcmHeader (header ++ body)).2 = wavHeader sampleRate body.length ++ body := by
  have hlong := List.length_pos_iff.mpr hbody
  have hlength : (header ++ body).length = 44 + body.length := by
    rw [List.length_append, h.length]
  obtain ⟨riff, data, hriff, hdata, hheader⟩ := h
  have hbytes : header ++ body = tag "RIFF" ++ (riff ++ (format sampleRate ++ (data ++ body))) := by
    rw [hheader]
    simp only [List.append_assoc]
  obtain ⟨hplain, hreadRiff, hreadData⟩ := Headed.read hriff hdata body hbytes
  have hgoal : wavHeader sampleRate body.length ++ body =
      tag "RIFF" ++ (field 4 (36 + body.length) ++ (format sampleRate ++
        (field 4 body.length ++ body))) := by
    rw [wavHeader_eq]
    simp only [List.append_assoc]
  have hriffSize : (header ++ body).length - 8 = 36 + body.length := by omega
  have hdataSize : (header ++ body).length - 44 = body.length := by omega
  by_cases hright : u32At (header ++ body) 4 = (header ++ body).length - 8 ∧
      u32At (header ++ body) 40 = (header ++ body).length - 44
  · -- the sizes are right already
    rw [repairPcmHeader_of_not_unfinished fun hunfinished => hunfinished.wrong hright, hgoal]
    rw [hreadRiff, hreadData, hriffSize, hdataSize] at hright
    have hriffBytes := field_value riff
    have hdataBytes := field_value data
    rw [hriff, hright.1] at hriffBytes
    rw [hdata, hright.2] at hdataBytes
    dsimp only
    rw [hbytes, ← hriffBytes, ← hdataBytes]
  · rw [repairPcmHeader_of_unfinished ⟨by omega, by omega, hplain, hright⟩, hgoal]
    dsimp only
    rw [withSizes, hriffSize, hdataSize, hbytes,
      overwrite_middle (tag "RIFF") tag_lengths.1 (by rw [field_length, hriff])]
    have hfront :
        (tag "RIFF" ++ (field 4 (36 + body.length) ++ format sampleRate)).length = 40 := by
      simp only [List.length_append, field_length, tag_lengths.1, format_length]
    have hlength : (field 4 body.length).length = data.length := by rw [field_length, hdata]
    have hover := overwrite_middle (tag "RIFF" ++ (field 4 (36 + body.length) ++ format sampleRate))
      hfront hlength body
    simp only [List.append_assoc] at hover
    exact hover

/-! ## Up to any write -/

/-- How many of these writes are sample bytes: those behind the header. -/
def sampleWrites (made : List (Nat × UInt8)) : Nat := made.countP fun w => decide (44 ≤ w.1)

theorem sampleWrites_append (made made' : List (Nat × UInt8)) :
    sampleWrites (made ++ made') = sampleWrites made + sampleWrites made' := List.countP_append

theorem sampleWrites_header (sampleRate dataSize n : Nat) :
    sampleWrites ((writes 0 (wavHeader sampleRate dataSize)).take n) = 0 :=
  countP_writes_none (p := fun i => decide (44 ≤ i)) _ n fun i _ hi => by
    rw [wavHeader_length] at hi
    simpa using hi

theorem sampleWrites_samples {pos : Nat} (hpos : 44 ≤ pos) (pcm : Bytes) (n : Nat) :
    sampleWrites ((writes pos pcm).take n) = min n pcm.length :=
  countP_writes (p := fun i => decide (44 ≤ i)) pcm n fun i hi _ => by
    simpa using hpos.trans hi

theorem pcmBytes_append (samples samples' : List UInt16) :
    pcmBytes (samples ++ samples') = pcmBytes samples ++ pcmBytes samples' := List.flatMap_append

theorem after_header {sampleRate : Nat} {header : Bytes} (h : Headed sampleRate header)
    (body : Bytes) (dataSize n : Nat) :
    after (header ++ body) ((writes 0 (wavHeader sampleRate dataSize)).take n) =
      overlaid n (wavHeader sampleRate dataSize) header ++ body := by
  have hlength : header.length = (wavHeader sampleRate dataSize).length := by
    rw [h.length, wavHeader_length]
  have hover := after_writes_over (wavHeader sampleRate dataSize) n List.length_nil hlength body
  simpa using hover

/-- **Wherever it is cut off**, the file is a header and the sample bytes written. -/
theorem after_samples (sampleRate : Nat) (packets : List (List UInt16)) :
    ∀ (n dataSize : Nat) {header body : Bytes} {pos : Nat}, Headed sampleRate header →
      pos = 44 + body.length →
      ∃ header', Headed sampleRate header' ∧
        after (header ++ body) ((writeWavSamples sampleRate pos dataSize packets).take n) =
          header' ++ (body ++ (pcmBytes packets.flatten).take
            (sampleWrites ((writeWavSamples sampleRate pos dataSize packets).take n))) := by
  induction packets with
  | nil =>
    intro n dataSize header body pos h _
    exact ⟨header, h, by simp [writeWavSamples, after, sampleWrites]⟩
  | cons samples packets ih =>
    intro n dataSize header body pos h hpos
    have hfile : (header ++ body).length = pos := by rw [List.length_append, h.length, hpos]
    rw [writeWavSamples]
    split_ifs with hempty
    · have hnil := List.isEmpty_iff.mp hempty
      rw [hnil, List.flatten_cons, List.nil_append]
      exact ih n dataSize h hpos
    · dsimp only
      generalize hsize : (dataSize + (pcmBytes samples).length) % 2 ^ 32 = size
      rw [List.flatten_cons, pcmBytes_append]
      by_cases hn : n ≤ (pcmBytes samples).length
      · -- inside the samples
        rw [List.take_append_of_le_length (by rw [writes_length]; exact hn),
          sampleWrites_samples (by omega), after_writes_end _ _ hfile, Nat.min_eq_left hn,
          List.take_append_of_le_length hn, List.append_assoc]
        exact ⟨header, h, rfl⟩
      · -- the samples are there; then the header, then the packets behind
        have hpcm : (writes pos (pcmBytes samples)).take n = writes pos (pcmBytes samples) :=
          List.take_of_length_le (by rw [writes_length]; omega)
        have hall := after_writes_end (pcmBytes samples) n hfile
        have hcount := sampleWrites_samples (show 44 ≤ pos by omega) (pcmBytes samples) n
        rw [hpcm, List.take_of_length_le (by omega)] at hall
        rw [hpcm, Nat.min_eq_right (by omega)] at hcount
        rw [List.take_append, hpcm, writes_length, after_append, hall, sampleWrites_append, hcount]
        generalize n - (pcmBytes samples).length = m
        rw [List.take_append, after_append, sampleWrites_append, sampleWrites_header, Nat.zero_add,
          List.append_assoc header, after_header h]
        have hheader := (headed_wavHeader sampleRate size).overlaid h m
        have hpos' : pos + (pcmBytes samples).length = 44 + (body ++ pcmBytes samples).length := by
          rw [List.length_append]
          omega
        obtain ⟨header', h', hafter⟩ :=
          ih (m - (writes 0 (wavHeader sampleRate size)).length) size hheader hpos'
        refine ⟨header', h', ?_⟩
        rw [hafter, List.take_length_add_append, List.append_assoc]

/-- And at its end the header is that of all the samples. -/
theorem after_samples_all (sampleRate : Nat) (packets : List (List UInt16)) :
    ∀ {body : Bytes} {pos : Nat}, pos = 44 + body.length →
      44 + (body ++ pcmBytes packets.flatten).length ≤ u32Max →
      after (wavHeader sampleRate body.length ++ body)
          (writeWavSamples sampleRate pos body.length packets) =
        wavHeader sampleRate (body ++ pcmBytes packets.flatten).length ++
          (body ++ pcmBytes packets.flatten) := by
  induction packets with
  | nil =>
    intro body pos _ _
    simp [writeWavSamples, after, pcmBytes]
  | cons samples packets ih =>
    intro body pos hpos hfits
    have hfile : (wavHeader sampleRate body.length ++ body).length = pos := by
      rw [List.length_append, wavHeader_length, hpos]
    rw [List.flatten_cons, pcmBytes_append,
      ← List.append_assoc body (pcmBytes samples) (pcmBytes packets.flatten)] at hfits ⊢
    rw [writeWavSamples]
    split_ifs with hempty
    · rw [List.isEmpty_iff.mp hempty] at hfits ⊢
      rw [show pcmBytes [] = [] from rfl, List.append_nil] at hfits ⊢
      exact ih hpos hfits
    · dsimp only
      have hsize : (body.length + (pcmBytes samples).length) % 2 ^ 32 =
          (body ++ pcmBytes samples).length := by
        rw [List.length_append] at hfits ⊢
        rw [List.length_append] at hfits
        unfold u32Max at hfits
        exact Nat.mod_eq_of_lt (by omega)
      have hend := after_writes_end (pcmBytes samples) (pcmBytes samples).length hfile
      rw [List.take_of_length_le (by rw [writes_length]), List.take_length] at hend
      have hover := after_header (headed_wavHeader sampleRate body.length)
        (body ++ pcmBytes samples) (body ++ pcmBytes samples).length 44
      rw [List.take_of_length_le (by simp), overlaid_of_le (by simp) (by simp)] at hover
      rw [hsize, after_append, hend, List.append_assoc, after_append, hover]
      exact ih (by rw [List.length_append]; omega) hfits

theorem repair_short {bytes : Bytes} (h : bytes.length ≤ 44) :
    repairPcmHeader bytes = (false, bytes) :=
  repairPcmHeader_of_not_unfinished fun hunfinished => by
    have := hunfinished.header
    omega

/-- A finished recording is one the repair leaves alone. -/
theorem repair_finished {sampleRate : Nat} {body : Bytes} (hfits : 44 + body.length ≤ u32Max) :
    repairPcmHeader (wavHeader sampleRate body.length ++ body) =
      (false, wavHeader sampleRate body.length ++ body) := by
  refine repairPcmHeader_of_not_unfinished fun hunfinished => hunfinished.wrong ?_
  unfold u32Max at hfits
  have hbytes : wavHeader sampleRate body.length ++ body = tag "RIFF" ++
      (field 4 (36 + body.length) ++ (format sampleRate ++ (field 4 body.length ++ body))) := by
    rw [wavHeader_eq]
    simp only [List.append_assoc]
  obtain ⟨-, hriff, hdata⟩ := Headed.read (field_length _ _) (field_length _ _) body hbytes
  rw [hriff, hdata, value_field (by omega), value_field (by omega), List.length_append,
    wavHeader_length]
  omega

/-- **A recording survives its recorder.** Kill the loopback program after any of its writes:
    if no sample was written, the repair leaves the file alone; otherwise the repaired file is,
    byte for byte, the recording of the sample bytes that were written. A recording that is
    finished is left as it is. -/
theorem killed_recording_repaired (sampleRate : Nat) (packets : List (List UInt16)) (n : Nat) :
    let made := (recordingWrites sampleRate packets).take n
    let file := after [] made
    let data := (pcmBytes packets.flatten).take (sampleWrites made)
    (data = [] → file.length ≤ 44 ∧ repairPcmHeader file = (false, file)) ∧
      (data ≠ [] → file.length = 44 + data.length ∧
        (file.length ≤ u32Max →
          (repairPcmHeader file).2 = wavHeader sampleRate data.length ++ data)) ∧
      ((recordingWrites sampleRate packets).length ≤ n →
        44 + (pcmBytes packets.flatten).length ≤ u32Max →
        file = wavHeader sampleRate (pcmBytes packets.flatten).length ++ pcmBytes packets.flatten ∧
          repairPcmHeader file = (false, file)) := by
  intro made file data
  have hstart : ∀ m, after [] ((writes 0 (wavHeader sampleRate 0)).take m) =
      (wavHeader sampleRate 0).take m := fun m => by
    rw [after_writes_end _ m List.length_nil, List.nil_append]
  have hlen : (writes 0 (wavHeader sampleRate 0)).length = 44 := by simp
  have hcut : (data = [] ∧ file.length ≤ 44) ∨
      ∃ header, Headed sampleRate header ∧ file = header ++ data := by
    by_cases hn : n ≤ 44
    · left
      have hmade : made = (writes 0 (wavHeader sampleRate 0)).take n :=
        List.take_append_of_le_length (by omega)
      refine ⟨?_, ?_⟩
      · simp only [data, hmade, sampleWrites_header, List.take_zero]
      · simp only [file, hmade, hstart, List.length_take, wavHeader_length]
        omega
    · right
      obtain ⟨header, h, hafter⟩ := after_samples sampleRate packets (n - 44) 0
        (headed_wavHeader sampleRate 0) (show 44 = 44 + ([] : Bytes).length from rfl)
      have hmade : made = writes 0 (wavHeader sampleRate 0) ++
          (writeWavSamples sampleRate 44 0 packets).take (n - 44) := by
        simp only [made, recordingWrites, List.take_append, hlen]
        rw [List.take_of_length_le (by omega)]
      have hfirst :
          after [] (writes 0 (wavHeader sampleRate 0)) = wavHeader sampleRate 0 ++ [] := by
        have := hstart 44
        rwa [List.take_of_length_le (by omega), List.take_of_length_le (by simp),
          ← List.append_nil (wavHeader sampleRate 0)] at this
      have hnone : sampleWrites (writes 0 (wavHeader sampleRate 0)) = 0 := by
        have := sampleWrites_header sampleRate 0 44
        rwa [List.take_of_length_le (by omega)] at this
      refine ⟨header, h, ?_⟩
      simp only [file, data, hmade]
      rw [after_append, hfirst, hafter, sampleWrites_append, hnone, Nat.zero_add, List.nil_append]
  refine ⟨fun hdata => ?_, fun hdata => ?_, fun hall hfits => ?_⟩
  · have hshort : file.length ≤ 44 := by
      rcases hcut with ⟨-, hshort⟩ | ⟨header, h, hfile⟩
      · exact hshort
      · rw [hfile, hdata, List.append_nil, h.length]
    exact ⟨hshort, repair_short hshort⟩
  · rcases hcut with ⟨hnone, -⟩ | ⟨header, h, hfile⟩
    · exact absurd hnone hdata
    · have hlength : file.length = 44 + data.length := by
        rw [hfile, List.length_append, h.length]
      refine ⟨hlength, fun hfits => ?_⟩
      rw [hfile]
      exact h.repair hdata (by omega)
  · have hmade : made = recordingWrites sampleRate packets := List.take_of_length_le hall
    have hfile : file = wavHeader sampleRate (pcmBytes packets.flatten).length ++
        pcmBytes packets.flatten := by
      have hfirst := hstart 44
      rw [List.take_of_length_le (by omega), List.take_of_length_le (by simp)] at hfirst
      simp only [file, hmade, recordingWrites]
      rw [after_append, hfirst]
      have hend := after_samples_all sampleRate packets
        (show 44 = 44 + ([] : Bytes).length from rfl) hfits
      simpa using hend
    rw [hfile]
    exact ⟨rfl, repair_finished hfits⟩

/-- One packet of two samples, killed inside the second: a byte of it is kept. -/
example : (repairPcmHeader (after [] ((recordingWrites 16000 [[7, 8]]).take 47))).2 =
    wavHeader 16000 3 ++ [7, 0, 8] := by decide +kernel

end Wav
end LocalMeetingStt
