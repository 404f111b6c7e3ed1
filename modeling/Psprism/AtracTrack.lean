import Psprism.Reloc

/-!
# ATRAC tracks (`atrac_state.hpp`)

`parse_riff` goes through the chunks of a RIFF file up to its data. The positions of a loop, which count the
samples of the encoder's delay in the file, are moved to the samples that are played.
-/

namespace Psprism

def codecAtrac3plus : Word := 0x1000
def codecAtrac3 : Word := 0x1001
def allDataOnMemory : Word := 0xffffffff

structure AtracTrack where
  codecType : Word := 0
  channels : Word := 2
  sampleRate : Word := 44100
  bitrate : Word := 0
  blockAlign : Word := 0
  fileSize : Word := 0
  dataOffset : Word := 0
  dataSize : Word := 0
  /-- The index of the last sample. -/
  endSample : Word := 0
  firstSampleOffset : Word := 0
  loopStart : Word := allDataOnMemory
  loopEnd : Word := allDataOnMemory
  loopPlayCount : Word := 0
  jointStereo : BitVec 16 := 0
deriving DecidableEq

def AtracTrack.samplesPerFrame (t : AtracTrack) : Nat := if t.codecType = codecAtrac3plus then 2048 else 1024

def AtracTrack.decoderDelay (t : AtracTrack) : Word := if t.codecType = codecAtrac3plus then 0x170 else 0x45

/-- The samples of the encoded data before the first one that is played. -/
def AtracTrack.initialSkipSamples (t : AtracTrack) : Nat := (t.firstSampleOffset + t.decoderDelay).toNat

/-- `read_u32`. -/
def readWord (data : List Byte) (offset : Nat) : Option Word :=
  if offset > data.length ∨ data.length - offset < 4 then none else some (readU32 (data.getD · 0) offset)

/-- `read_u16`. -/
def readHalf (data : List Byte) (offset : Nat) : Option (BitVec 16) :=
  if offset > data.length ∨ data.length - offset < 2 then none
  else some ((data.getD offset 0).setWidth 16 ||| (data.getD (offset + 1) 0).setWidth 16 <<< 8)

def riffMagic : Word := 0x46464952
def waveMagic : Word := 0x45564157
def fmtChunk : Word := 0x20746d66
def factChunk : Word := 0x74636166
def smplChunk : Word := 0x6c706d73
def dataChunk : Word := 0x61746164
def waveAtrac3 : BitVec 16 := 0x0270
def waveExtensible : BitVec 16 := 0xfffe

/-- What is found so far. -/
structure RiffScan where
  track : AtracTrack
  foundFormat : Bool := false
  foundData : Bool := false

/-- The format chunk; none when the file is refused. -/
def readFormat (data : List Byte) (payload : Nat) (chunkSize : Word) (track : AtracTrack) : Option AtracTrack :=
  if chunkSize < 16 then none
  else
    match readHalf data payload, readHalf data (payload + 2), readWord data (payload + 4),
        readWord data (payload + 8), readHalf data (payload + 12) with
    | some tag, some channels, some sampleRate, some averageBytes, some blockAlign =>
      if (tag ≠ waveAtrac3 ∧ tag ≠ waveExtensible) ∨ (channels ≠ 1 ∧ channels ≠ 2) ∨ sampleRate ≠ 44100 ∨
          blockAlign = 0 then
        none
      else
        some { track with
          codecType := if tag = waveExtensible then codecAtrac3plus else codecAtrac3
          channels := channels.setWidth 32
          sampleRate
          bitrate := averageBytes * 8
          blockAlign := blockAlign.setWidth 32
          jointStereo :=
            if tag = waveAtrac3 ∧ chunkSize ≥ 26 then (readHalf data (payload + 24)).getD track.jointStereo
            else track.jointStereo }
    | _, _, _, _, _ => none

def readFact (data : List Byte) (payload : Nat) (chunkSize : Word) (track : AtracTrack) : AtracTrack :=
  { track with
    endSample := (readWord data payload).getD track.endSample
    firstSampleOffset :=
      if chunkSize ≥ 8 then (readWord data (payload + 4)).getD track.firstSampleOffset
      else track.firstSampleOffset }

/-- The first loop of the sampler chunk; none when the file is refused. -/
def readLoop (data : List Byte) (payload : Nat) (track : AtracTrack) : Option AtracTrack :=
  if (readWord data (payload + 28)).getD 0 = 0 then some track
  else
    match readWord data (payload + 44), readWord data (payload + 48), readWord data (payload + 56) with
    | some loopStart, some loopEnd, some loopPlayCount => some { track with loopStart, loopEnd, loopPlayCount }
    | _, _, _ => none

/-- What a chunk other than the data tells of the track; none when the file is refused. -/
def readChunk (data : List Byte) (payload : Nat) (chunkId chunkSize : Word) (scan : RiffScan) : Option RiffScan :=
  if chunkId = fmtChunk then
    (readFormat data payload chunkSize scan.track).map fun track => { scan with track, foundFormat := true }
  else if chunkId = factChunk then some { scan with track := readFact data payload chunkSize scan.track }
  else if chunkId = smplChunk ∧ chunkSize ≥ 60 then
    (readLoop data payload scan.track).map fun track => { scan with track }
  else some scan

/-- The chunks from an offset on, up to the data. A chunk takes eight bytes at least, so that there are no more
of them than bytes. -/
def scanChunks (data : List Byte) : Nat → Nat → RiffScan → Option RiffScan
  | 0, _, scan => some scan
  | fuel + 1, offset, scan =>
    if ¬ (offset ≤ data.length ∧ data.length - offset ≥ 8) then some scan
    else
      let chunkId := (readWord data offset).getD 0
      let chunkSize := (readWord data (offset + 4)).getD 0
      let payload := offset + 8
      if chunkId = dataChunk then
        some { scan with
          track := { scan.track with dataOffset := BitVec.ofNat 32 payload, dataSize := chunkSize }
          foundData := true }
      else
        match readChunk data payload chunkId chunkSize scan with
        | none => none
        | some scan =>
          let next := payload + (chunkSize.toNat + chunkSize.toNat % 2)
          if next > data.length then none else scanChunks data fuel next scan

/-- The index of the last sample: from the fact chunk, which counts the samples, or from the size of the data. -/
def AtracTrack.setEndSample (t : AtracTrack) : AtracTrack :=
  if t.endSample = 0 ∧ t.blockAlign ≠ 0 then
    let total := t.dataSize.toNat / t.blockAlign.toNat * t.samplesPerFrame
    let playable := total - t.firstSampleOffset.toNat
    { t with endSample := if playable = 0 then 0 else BitVec.ofNat 32 (playable - 1) }
  else if t.endSample ≠ 0 then { t with endSample := t.endSample - 1 }
  else t

/-- The loop in the samples that are played; none when the file is refused. -/
def AtracTrack.setLoop (t : AtracTrack) : Option AtracTrack :=
  if t.loopStart = allDataOnMemory then some t
  else if t.loopStart > t.loopEnd ∨ t.loopStart < t.firstSampleOffset ∨ t.loopEnd < t.firstSampleOffset then none
  else
    let t := { t with loopStart := t.loopStart - t.firstSampleOffset, loopEnd := t.loopEnd - t.firstSampleOffset }
    if t.loopEnd > t.endSample then none else some t

/-- `parse_riff`. -/
def parseRiff (data : List Byte) : Option AtracTrack :=
  match readWord data 0, readWord data 4, readWord data 8 with
  | some magic, some riffSize, some wave =>
    if magic ≠ riffMagic ∨ wave ≠ waveMagic then none
    else
      let fileSize : Word := if riffSize > 0xffffffff - 8 then 0xffffffff else riffSize + 8
      match scanChunks data (data.length + 1) 12 { track := { fileSize } } with
      | none => none
      | some scan =>
        if !scan.foundFormat ∨ !scan.foundData then none else scan.track.setEndSample.setLoop
  | _, _, _ => none

/-! ### Tracks that are accepted -/

variable {data : List Byte} {t t' : AtracTrack} {scan scan' : RiffScan} {payload : Nat} {chunkId chunkSize : Word}

theorem readFormat_blockAlign (h : readFormat data payload chunkSize t = some t') : t'.blockAlign ≠ 0 := by
  unfold readFormat at h
  split at h
  · cases h
  split at h
  · next blockAlign _ _ _ _ _ =>
    rw [Option.ite_none_left_eq_some] at h
    obtain ⟨hvalid, h⟩ := h
    obtain rfl := Option.some.inj h
    intro hzero
    refine hvalid (Or.inr (Or.inr (Or.inr (BitVec.eq_of_toNat_eq ?_))))
    have hsize := congrArg BitVec.toNat hzero
    rw [BitVec.toNat_setWidth] at hsize
    have hlt := blockAlign.isLt
    exact (Nat.mod_eq_of_lt (hlt.trans (by decide))).symm.trans hsize
  · cases h

theorem readLoop_blockAlign (h : readLoop data payload t = some t') : t'.blockAlign = t.blockAlign := by
  unfold readLoop at h
  split at h
  · rw [Option.some.inj h]
  split at h
  · obtain rfl := Option.some.inj h
    rfl
  · cases h

/-- Once the format is found, the blocks have a size. -/
def RiffScan.Formatted (scan : RiffScan) : Prop := scan.foundFormat = true → scan.track.blockAlign ≠ 0

theorem RiffScan.Formatted.readChunk (hscan : scan.Formatted)
    (h : readChunk data payload chunkId chunkSize scan = some scan') : scan'.Formatted := by
  unfold Psprism.readChunk at h
  split at h
  · obtain ⟨track, hformat, rfl⟩ := Option.map_eq_some_iff.1 h
    exact fun _ => readFormat_blockAlign hformat
  split at h
  · obtain rfl := Option.some.inj h
    exact hscan
  split at h
  · obtain ⟨track, hloop, rfl⟩ := Option.map_eq_some_iff.1 h
    intro hfound
    change track.blockAlign ≠ 0
    rw [readLoop_blockAlign hloop]
    exact hscan hfound
  · obtain rfl := Option.some.inj h
    exact hscan

/-- What every chunk keeps holds of the scan when the chunks are over, or when the data is found. -/
theorem scanChunks_eq_some {P : RiffScan → Prop} {fuel offset : Nat}
    (hchunk : ∀ payload chunkId chunkSize scan scan', P scan →
      readChunk data payload chunkId chunkSize scan = some scan' → P scan')
    (hscan : P scan) (h : scanChunks data fuel offset scan = some scan') :
    P scan' ∨ ∃ last payload chunkSize, P last ∧ payload ≤ data.length ∧ scan' = { last with
      track := { last.track with dataOffset := BitVec.ofNat 32 payload, dataSize := chunkSize }, foundData := true } := by
  induction fuel generalizing offset scan with
  | zero =>
    obtain rfl := Option.some.inj h
    exact Or.inl hscan
  | succ fuel ih =>
    rw [scanChunks] at h
    split at h
    · obtain rfl := Option.some.inj h
      exact Or.inl hscan
    next hroom =>
    dsimp only at h
    split at h
    · obtain rfl := Option.some.inj h
      exact Or.inr ⟨scan, offset + 8, _, hscan, by omega, rfl⟩
    split at h
    · cases h
    · next hnext =>
      rw [Option.ite_none_left_eq_some] at h
      exact ih (hchunk _ _ _ _ _ hscan hnext) h.2

theorem RiffScan.Formatted.scanChunks {fuel offset : Nat} (hscan : scan.Formatted)
    (h : scanChunks data fuel offset scan = some scan') : scan'.Formatted := by
  rcases scanChunks_eq_some (fun _ _ _ _ _ hscan => hscan.readChunk) hscan h with hlast | ⟨last, _, _, hlast, _, rfl⟩
  · exact hlast
  · exact hlast

theorem AtracTrack.setEndSample_blockAlign (t : AtracTrack) : t.setEndSample.blockAlign = t.blockAlign := by
  rw [setEndSample]
  split
  · rfl
  split
  · rfl
  · rfl

/-- The loop of a track lies in the track. -/
def AtracTrack.LoopFits (t : AtracTrack) : Prop :=
  t.loopStart = allDataOnMemory ∨ t.loopStart ≤ t.loopEnd ∧ t.loopEnd ≤ t.endSample

theorem AtracTrack.setLoop_eq_some (h : t.setLoop = some t') : t'.blockAlign = t.blockAlign ∧ t'.LoopFits := by
  unfold setLoop at h
  split at h
  · next hnone =>
    obtain rfl := Option.some.inj h
    exact ⟨rfl, Or.inl hnone⟩
  rw [Option.ite_none_left_eq_some] at h
  obtain ⟨hloop, h⟩ := h
  dsimp only at h
  rw [Option.ite_none_left_eq_some] at h
  obtain ⟨hend, h⟩ := h
  obtain rfl := Option.some.inj h
  refine ⟨rfl, Or.inr ⟨?_, BitVec.not_lt.1 hend⟩⟩
  simp only [not_or, BitVec.not_lt, gt_iff_lt] at hloop
  change t.loopStart - t.firstSampleOffset ≤ t.loopEnd - t.firstSampleOffset
  bv_omega

theorem parseRiff_eq_some (h : parseRiff data = some t) : t.blockAlign ≠ 0 ∧ t.LoopFits := by
  unfold parseRiff at h
  split at h
  · rw [Option.ite_none_left_eq_some] at h
    dsimp only at h
    replace h := h.2
    split at h
    · cases h
    · next scan hscan =>
      rw [Option.ite_none_left_eq_some] at h
      obtain ⟨hfound, h⟩ := h
      obtain ⟨halign, hfits⟩ := AtracTrack.setLoop_eq_some h
      have hformatted : scan.Formatted :=
        RiffScan.Formatted.scanChunks (fun hfound => Bool.noConfusion hfound) hscan
      have hformat : scan.foundFormat = true := by
        cases hf : scan.foundFormat with
        | true => rfl
        | false => exact absurd (Or.inl (by rw [hf]; rfl)) hfound
      refine ⟨?_, hfits⟩
      rw [halign, AtracTrack.setEndSample_blockAlign]
      exact hformatted hformat
  · cases h

end Psprism
