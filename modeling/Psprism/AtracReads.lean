import Psprism.AtracTrack
import Psprism.BufferReads

/-!
# What `parse_riff` reads (`atrac_state.hpp`)

The parser with its reads: the buffer is one thing, the size that the caller says it has another. Each copy out of
the buffer is checked, and the loop over the chunks ends because every chunk lies behind the one before. In a buffer
that is as large as said no read goes outside, and the parser finds what it finds in the buffer up to that size
(`parseRiff_checked`). The data may begin where the buffer ends.
-/

namespace Psprism
open CheckedReads

namespace RiffReads

/-- `read_u32`. -/
def readWord (data : List Byte) (size offset : Nat) : Checked Unit (Option Word) :=
  if offset > size ∨ size - offset < 4 then return none else return some (← fetchWord data offset)

/-- `read_u16`. -/
def readHalf (data : List Byte) (size offset : Nat) : Checked Unit (Option (BitVec 16)) :=
  if offset > size ∨ size - offset < 2 then return none else return some (← fetchHalf data offset)

section
variable (data : List Byte) (size : Nat)

def readFormat (payload : Nat) (chunkSize : Word) (track : AtracTrack) : Checked Unit AtracTrack :=
  if chunkSize < 16 then raise ()
  else do
    let tag ← demand () (← readHalf data size payload)
    let channels ← demand () (← readHalf data size (payload + 2))
    let sampleRate ← demand () (← readWord data size (payload + 4))
    let averageBytes ← demand () (← readWord data size (payload + 8))
    let blockAlign ← demand () (← readHalf data size (payload + 12))
    if (tag ≠ waveAtrac3 ∧ tag ≠ waveExtensible) ∨ (channels ≠ 1 ∧ channels ≠ 2) ∨ sampleRate ≠ 44100 ∨
        blockAlign = 0 then
      raise ()
    else
      let jointStereo ←
        if tag = waveAtrac3 ∧ chunkSize ≥ 26 then readHalf data size (payload + 24) else pure none
      return { track with
        codecType := if tag = waveExtensible then codecAtrac3plus else codecAtrac3
        channels := channels.setWidth 32
        sampleRate
        bitrate := averageBytes * 8
        blockAlign := blockAlign.setWidth 32
        jointStereo := jointStereo.getD track.jointStereo }

def readFact (payload : Nat) (chunkSize : Word) (track : AtracTrack) : Checked Unit AtracTrack := do
  let endSample ← readWord data size payload
  let firstSampleOffset ← if chunkSize ≥ 8 then readWord data size (payload + 4) else pure none
  return { track with
    endSample := endSample.getD track.endSample
    firstSampleOffset := firstSampleOffset.getD track.firstSampleOffset }

def readLoop (payload : Nat) (track : AtracTrack) : Checked Unit AtracTrack := do
  let loopCount ← readWord data size (payload + 28)
  if loopCount.getD 0 = 0 then return track
  else
    let loopStart ← demand () (← readWord data size (payload + 44))
    let loopEnd ← demand () (← readWord data size (payload + 48))
    let loopPlayCount ← demand () (← readWord data size (payload + 56))
    return { track with loopStart, loopEnd, loopPlayCount }

def readChunk (payload : Nat) (chunkId chunkSize : Word) (scan : RiffScan) : Checked Unit RiffScan :=
  if chunkId = fmtChunk then return { scan with track := ← readFormat data size payload chunkSize scan.track, foundFormat := true }
  else if chunkId = factChunk then return { scan with track := ← readFact data size payload chunkSize scan.track }
  else if chunkId = smplChunk ∧ chunkSize ≥ 60 then return { scan with track := ← readLoop data size payload scan.track }
  else return scan

/-- The loop over the chunks, which gets nearer to the end with each. -/
def scanChunks (offset : Nat) (scan : RiffScan) : Checked Unit RiffScan :=
  if hroom : offset ≤ size ∧ size - offset ≥ 8 then do
    let chunkId := (← readWord data size offset).getD 0
    let chunkSize := (← readWord data size (offset + 4)).getD 0
    let payload := offset + 8
    if chunkId = dataChunk then
      return { scan with
        track := { scan.track with dataOffset := BitVec.ofNat 32 payload, dataSize := chunkSize }
        foundData := true }
    else
      let scan ← readChunk data size payload chunkId chunkSize scan
      let next := payload + (chunkSize.toNat + chunkSize.toNat % 2)
      if next > size then raise () else scanChunks next scan
  else return scan
termination_by size - offset

def parseRiff : Checked Unit AtracTrack := do
  let magic ← demand () (← readWord data size 0)
  let riffSize ← demand () (← readWord data size 4)
  let wave ← demand () (← readWord data size 8)
  if magic ≠ riffMagic ∨ wave ≠ waveMagic then raise ()
  else
    let fileSize : Word := if riffSize > 0xffffffff - 8 then 0xffffffff else riffSize + 8
    let scan ← scanChunks data size 12 { track := { fileSize } }
    if !scan.foundFormat ∨ !scan.foundData then raise () else demand () scan.track.setEndSample.setLoop

end

/-! ### The reads stay inside -/

section
variable {data : List Byte} {size offset payload : Nat} {chunkId chunkSize : Word} {track : AtracTrack} {scan : RiffScan}

theorem readWord_eq (h : size ≤ data.length) :
    readWord data size offset = .ok (Psprism.readWord (data.take size) offset) := by
  rw [readWord, Psprism.readWord, List.length_take, Nat.min_eq_left h]
  split
  · rfl
  · rw [fetchWord_eq (by omega), ok_bind]
    simp only [readU32]
    rw [getD_take (by omega), getD_take (by omega), getD_take (by omega), getD_take (by omega)]
    rfl

theorem readHalf_eq (h : size ≤ data.length) :
    readHalf data size offset = .ok (Psprism.readHalf (data.take size) offset) := by
  rw [readHalf, Psprism.readHalf, List.length_take, Nat.min_eq_left h]
  split
  · rfl
  · rw [fetchHalf_eq (by omega), ok_bind, halfOf, getD_take (by omega), getD_take (by omega)]
    rfl

theorem readFormat_eq (h : size ≤ data.length) : readFormat data size payload chunkSize track =
    demand () (Psprism.readFormat (data.take size) payload chunkSize track) := by
  rw [readFormat, Psprism.readFormat]
  split
  · rfl
  simp only [readWord_eq h, readHalf_eq h, ok_bind]
  cases Psprism.readHalf (data.take size) payload with
  | none => rfl
  | some tag =>
  cases Psprism.readHalf (data.take size) (payload + 2) with
  | none => rfl
  | some channels =>
  cases Psprism.readWord (data.take size) (payload + 4) with
  | none => rfl
  | some sampleRate =>
  cases Psprism.readWord (data.take size) (payload + 8) with
  | none => rfl
  | some averageBytes =>
  cases Psprism.readHalf (data.take size) (payload + 12) with
  | none => rfl
  | some blockAlign =>
  simp only [demand_some, ok_bind]
  split
  · rfl
  · by_cases hstereo : tag = waveAtrac3 ∧ chunkSize ≥ 26
    · simp only [if_pos hstereo]
      rfl
    · simp only [if_neg hstereo, pure_bind]
      rfl

theorem readFact_eq (h : size ≤ data.length) : readFact data size payload chunkSize track =
    .ok (Psprism.readFact (data.take size) payload chunkSize track) := by
  rw [readFact, Psprism.readFact]
  simp only [readWord_eq h, ok_bind]
  split
  · rfl
  · rfl

theorem readLoop_eq (h : size ≤ data.length) : readLoop data size payload track =
    demand () (Psprism.readLoop (data.take size) payload track) := by
  rw [readLoop, Psprism.readLoop]
  simp only [readWord_eq h, ok_bind]
  split
  · rfl
  cases Psprism.readWord (data.take size) (payload + 44) with
  | none => rfl
  | some loopStart =>
  cases Psprism.readWord (data.take size) (payload + 48) with
  | none => rfl
  | some loopEnd =>
  cases Psprism.readWord (data.take size) (payload + 56) with
  | none => rfl
  | some loopPlayCount => rfl

theorem readChunk_eq (h : size ≤ data.length) : readChunk data size payload chunkId chunkSize scan =
    demand () (Psprism.readChunk (data.take size) payload chunkId chunkSize scan) := by
  rw [readChunk, Psprism.readChunk, readFormat_eq h, readFact_eq h, readLoop_eq h]
  split
  · cases Psprism.readFormat (data.take size) payload chunkSize scan.track <;> rfl
  split
  · rfl
  split
  · cases Psprism.readLoop (data.take size) payload scan.track <;> rfl
  · rfl

/-- One turn for each byte is more than the loop takes. -/
theorem scanChunks_eq (h : size ≤ data.length) (fuel : Nat) (hfuel : size < offset + fuel) :
    scanChunks data size offset scan = demand () (Psprism.scanChunks (data.take size) fuel offset scan) := by
  induction fuel generalizing offset scan with
  | zero =>
    rw [scanChunks, dif_neg (by omega)]
    rfl
  | succ fuel ih =>
    rw [scanChunks, Psprism.scanChunks, List.length_take, Nat.min_eq_left h]
    by_cases hroom : offset ≤ size ∧ size - offset ≥ 8
    · rw [dif_pos hroom, if_neg (not_not_intro hroom)]
      simp only [readWord_eq h, ok_bind, readChunk_eq h]
      split
      · rfl
      cases Psprism.readChunk (data.take size) (offset + 8) _ _ scan with
      | none => rfl
      | some scan =>
        simp only [demand_some, ok_bind]
        split
        · rfl
        · exact ih (by omega)
    · rw [dif_neg hroom, if_pos hroom]
      rfl

theorem parseRiff_eq (h : size ≤ data.length) : parseRiff data size = demand () (Psprism.parseRiff (data.take size)) := by
  rw [parseRiff, Psprism.parseRiff]
  simp only [readWord_eq h, ok_bind]
  cases Psprism.readWord (data.take size) 0 with
  | none => rfl
  | some magic =>
  cases Psprism.readWord (data.take size) 4 with
  | none => rfl
  | some riffSize =>
  cases Psprism.readWord (data.take size) 8 with
  | none => rfl
  | some wave =>
  simp only [demand_some, ok_bind]
  split
  · rfl
  rw [scanChunks_eq h ((data.take size).length + 1) (by rw [List.length_take]; omega)]
  cases Psprism.scanChunks (data.take size) ((data.take size).length + 1) 12 _ with
  | none => rfl
  | some scan =>
    simp only [demand_some, ok_bind]
    split
    · rfl
    · rfl

end

end RiffReads

/-! ### Tracks that are accepted -/

variable {data : List Byte} {t t' : AtracTrack} {scan scan' : RiffScan} {payload : Nat} {chunkId chunkSize : Word}

def AtracTrack.MonoOrStereo (t : AtracTrack) : Prop := t.channels = 1 ∨ t.channels = 2

theorem readFormat_channels (h : readFormat data payload chunkSize t = some t') : t'.MonoOrStereo := by
  unfold readFormat at h
  split at h
  · cases h
  split at h
  · next channels _ _ _ _ _ _ _ _ =>
    rw [Option.ite_none_left_eq_some] at h
    obtain ⟨hvalid, h⟩ := h
    obtain rfl := Option.some.inj h
    have htwo : channels = 1 ∨ channels = 2 :=
      Decidable.or_iff_not_not_and_not.2 fun hne => hvalid (Or.inr (Or.inl hne))
    exact htwo.imp (congrArg (BitVec.setWidth 32)) (congrArg (BitVec.setWidth 32))
  · cases h

theorem readLoop_channels (h : readLoop data payload t = some t') : t'.channels = t.channels := by
  unfold readLoop at h
  split at h
  · rw [Option.some.inj h]
  split at h
  · obtain rfl := Option.some.inj h
    rfl
  · cases h

/-- Before the data: once the format is found, there are one or two channels. -/
structure RiffScan.Before (scan : RiffScan) : Prop where
  foundData : scan.foundData = false
  channels : scan.foundFormat = true → scan.track.MonoOrStereo

theorem RiffScan.Before.readChunk (hscan : scan.Before)
    (h : readChunk data payload chunkId chunkSize scan = some scan') : scan'.Before := by
  unfold Psprism.readChunk at h
  split at h
  · obtain ⟨track, hformat, rfl⟩ := Option.map_eq_some_iff.1 h
    exact ⟨hscan.foundData, fun _ => readFormat_channels hformat⟩
  split at h
  · obtain rfl := Option.some.inj h
    exact ⟨hscan.foundData, hscan.channels⟩
  split at h
  · obtain ⟨track, hloop, rfl⟩ := Option.map_eq_some_iff.1 h
    refine ⟨hscan.foundData, fun hfound => ?_⟩
    rw [AtracTrack.MonoOrStereo, readLoop_channels hloop]
    exact hscan.channels hfound
  · obtain rfl := Option.some.inj h
    exact hscan

theorem AtracTrack.setEndSample_channels (t : AtracTrack) : t.setEndSample.channels = t.channels := by
  rw [setEndSample]
  split
  · rfl
  split
  · rfl
  · rfl

theorem AtracTrack.setEndSample_dataOffset (t : AtracTrack) : t.setEndSample.dataOffset = t.dataOffset := by
  rw [setEndSample]
  split
  · rfl
  split
  · rfl
  · rfl

theorem AtracTrack.setLoop_keeps (h : t.setLoop = some t') : t'.channels = t.channels ∧ t'.dataOffset = t.dataOffset := by
  unfold setLoop at h
  split at h
  · obtain rfl := Option.some.inj h
    exact ⟨rfl, rfl⟩
  rw [Option.ite_none_left_eq_some] at h
  replace h := h.2
  dsimp only at h
  rw [Option.ite_none_left_eq_some] at h
  obtain rfl := Option.some.inj h.2
  exact ⟨rfl, rfl⟩

/-- The data of an accepted file begins in the file or where it ends. -/
theorem parseRiff_channels_dataOffset (h : parseRiff data = some t) :
    t.MonoOrStereo ∧ t.dataOffset.toNat ≤ data.length := by
  unfold parseRiff at h
  split at h
  · rw [Option.ite_none_left_eq_some] at h
    dsimp only at h
    replace h := h.2
    split at h
    · cases h
    next scan hscan =>
    rw [Option.ite_none_left_eq_some] at h
    obtain ⟨hfound, h⟩ := h
    simp only [not_or, Bool.not_eq_true', Bool.not_eq_false] at hfound
    obtain ⟨hchannels, hoffset⟩ := AtracTrack.setLoop_keeps h
    rw [AtracTrack.MonoOrStereo, hchannels, hoffset, AtracTrack.setEndSample_channels,
      AtracTrack.setEndSample_dataOffset]
    rcases scanChunks_eq_some (P := RiffScan.Before) (fun _ _ _ _ _ hlast => hlast.readChunk)
      ⟨rfl, fun hformat => Bool.noConfusion hformat⟩ hscan with hlast | ⟨last, payload, _, hlast, hpayload, rfl⟩
    · exact absurd (hlast.foundData.symm.trans hfound.2) Bool.false_ne_true
    · refine ⟨hlast.channels hfound.1, ?_⟩
      rw [BitVec.toNat_ofNat]
      exact (Nat.mod_le _ _).trans hpayload
  · cases h

/-- In a buffer as large as it is said to be, the parser reads inside it only. What it accepts has blocks of a size,
one or two channels, data from an offset that is at most the size, and no loop or one inside the track. -/
theorem parseRiff_checked (data : List Byte) (size : Nat) (h : size ≤ data.length) :
    Inside (RiffReads.parseRiff data size) ∧ ∀ t, RiffReads.parseRiff data size = .ok t →
      t.blockAlign ≠ 0 ∧ (t.channels = 1 ∨ t.channels = 2) ∧ t.dataOffset.toNat ≤ size ∧
        (t.loopStart ≠ allDataOnMemory → t.loopStart ≤ t.loopEnd ∧ t.loopEnd ≤ t.endSample) := by
  rw [RiffReads.parseRiff_eq h]
  refine ⟨inside_demand _, fun t ht => ?_⟩
  have hparse : parseRiff (data.take size) = some t := by
    cases hp : parseRiff (data.take size) with
    | none => rw [hp] at ht; cases ht
    | some t' => rw [hp] at ht; exact congrArg some (Except.ok.inj ht)
  obtain ⟨halign, hloop⟩ := parseRiff_eq_some hparse
  obtain ⟨hchannels, hoffset⟩ := parseRiff_channels_dataOffset hparse
  exact ⟨halign, hchannels, hoffset.trans (List.length_take_le size data), hloop.resolve_left⟩

/-- A mono file of which only the header is there. -/
def riffHeader : List Byte :=
  [0x52, 0x49, 0x46, 0x46, 36, 0, 0, 0, 0x57, 0x41, 0x56, 0x45,
    0x66, 0x6d, 0x74, 0x20, 16, 0, 0, 0, 0x70, 0x02, 1, 0, 0x44, 0xac, 0, 0, 0, 0, 0, 0, 1, 0, 0, 0,
    0x64, 0x61, 0x74, 0x61, 0, 0, 0, 0]

theorem parseRiff_riffHeader : (parseRiff riffHeader).map (·.dataOffset) = some 44 := by decide

theorem parseRiff_checked_riffHeader : Inside (RiffReads.parseRiff riffHeader 44) :=
  (parseRiff_checked riffHeader 44 (by decide)).1

/-- The data begins behind the last byte. -/
theorem parseRiff_data_at_end :
    ∃ t, RiffReads.parseRiff riffHeader 44 = .ok t ∧ ¬ t.dataOffset.toNat < riffHeader.length := by
  obtain ⟨t, ht, hoffset⟩ := Option.map_eq_some_iff.1 parseRiff_riffHeader
  refine ⟨t, ?_, by rw [hoffset]; decide⟩
  rw [RiffReads.parseRiff_eq (by decide), List.take_of_length_le (by decide), ht]
  rfl

end Psprism
