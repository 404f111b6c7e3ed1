import Psprism.AtracTrack
import Psprism.Lib.Transducer

/-!
# The ATRAC decoder (`atrac_state.hpp`)

A decoder holds the encoded bytes it was given so far, a cursor into them, the samples still to be skipped of
what is decoded next, and its position in the track. The library that decodes the frames is a parameter. What
only the trace prints (`decoded_frames`, `last_peak`, `audible_reported`) and `pending_read_offset`, which
nothing reads, are left out.
-/

namespace Psprism

/-- What the library returns for a frame: its result, the number of samples, and the samples of each side. -/
structure CodecFrame (α : Type) where
  result : Int
  count : Int
  left : Nat → α
  right : Nat → α

/-- The library `at3_standalone`, in both of its codecs, with its contexts and its samples; and `clamp`, which
makes 16 bits of a sample. -/
structure AtracCodec (σ α : Type) where
  alloc : (codecType channels blockAlign : Word) → (jointStereo : BitVec 16) → Option σ
  flushBuffers : σ → σ
  decodeFrame : σ → List Byte → σ × CodecFrame α
  clamp : α → BitVec 16

structure AtracDecoder (σ : Type) where
  requestedCodecType : Word := 0
  track : AtracTrack := {}
  guestBuffer : Word := 0
  guestBufferSize : Nat := 0
  encoded : List Byte := []
  dataCursor : Nat := 0
  pendingWritePointer : Word := 0
  pendingWritableBytes : Nat := 0
  /-- The position in the track. -/
  decodedSamples : Nat := 0
  skipSamples : Nat := 0
  loopCount : Int := 0
  finished : Bool := false
  loopPending : Bool := false
  internalError : Word := 0
  /-- `atrac3plus` or `atrac3`, whichever is there. -/
  context : Option σ := none

/-- What a decode gives: its result, the number of samples, the left and right samples that are written when
there is an output, and the end flag. -/
structure Decoded where
  result : Word
  sampleCount : Nat := 0
  output : List (BitVec 16 × BitVec 16) := []
  reachedEnd : Bool := false
deriving DecidableEq

namespace Atrac

def success : Word := 0
def badData : Word := 0x80630008
def unsetData : Word := 0x80630010
def badSample : Word := 0x80630015
def noData : Word := 0x80630023
def allDataDecoded : Word := 0x80630024
def noLoopInformation : Word := 0x80630021
def unknownFormat : Word := 0x80630006
def unmatchedFormat : Word := 0x80630007

end Atrac

namespace AtracDecoder
open Atrac

variable {σ α : Type}

def blockAlign (d : AtracDecoder σ) : Nat := d.track.blockAlign.toNat

/-- The block of bytes at an offset. -/
def packet (d : AtracDecoder σ) (offset : Nat) : List Byte := (d.encoded.drop offset).take d.blockAlign

/-- A decoder that has taken the data of a track. -/
def loaded (d : AtracDecoder σ) (parsed : AtracTrack) (source : List Byte) (guestAddress : Word)
    (context : Option σ) : AtracDecoder σ :=
  { d with
    requestedCodecType := parsed.codecType
    track := parsed
    guestBuffer := guestAddress
    guestBufferSize := source.length % 2 ^ 32
    encoded := source
    dataCursor := parsed.dataOffset.toNat
    decodedSamples := 0
    skipSamples := parsed.initialSkipSamples
    finished := false
    internalError := 0
    context }

/-- `set_data`, of the bytes behind the guest address. -/
def setData (codec : AtracCodec σ α) (d : AtracDecoder σ) (source : List Byte) (guestAddress : Word) :
    Bool × AtracDecoder σ :=
  match parseRiff source with
  | none => (false, d)
  | some parsed =>
    if d.requestedCodecType ≠ 0 ∧ d.requestedCodecType ≠ parsed.codecType then (false, d)
    else
      let context := codec.alloc parsed.codecType parsed.channels parsed.blockAlign parsed.jointStereo
      (context.isSome, d.loaded parsed source guestAddress context)

/-- `sceAtracSetData`, of so many bytes at an address. -/
def setDataAt (codec : AtracCodec σ α) (d : AtracDecoder σ) (mapped : Word → Nat → Option Bytes)
    (address size : Word) : Word × AtracDecoder σ :=
  match mapped address size.toNat with
  | none => (badData, d)
  | some bytes =>
    let source := (List.range size.toNat).map bytes
    match parseRiff source with
    | none => (unknownFormat, d)
    | some parsed =>
      if d.requestedCodecType ≠ 0 ∧ d.requestedCodecType ≠ parsed.codecType then (unmatchedFormat, d)
      else
        let out := d.setData codec source address
        (if out.1 then success else badData, out.2)

def flush (codec : AtracCodec σ α) (d : AtracDecoder σ) : AtracDecoder σ :=
  { d with context := d.context.map codec.flushBuffers }

def rewind (codec : AtracCodec σ α) (d : AtracDecoder σ) : AtracDecoder σ :=
  flush codec { d with
    dataCursor := d.track.dataOffset.toNat
    decodedSamples := 0
    skipSamples := d.track.initialSkipSamples
    finished := false }

def decodePrerollPacket (codec : AtracCodec σ α) (d : AtracDecoder σ) (offset : Nat) : Bool × AtracDecoder σ :=
  if offset + d.blockAlign > d.encoded.length then (false, d)
  else
    match d.context with
    | none => (false, d)
    | some context =>
      let out := codec.decodeFrame context (d.packet offset)
      (0 ≤ out.2.result, { d with context := some out.1 })

/-- The loop over the preroll frames: `n` of them, from `frame` on. -/
def preroll (codec : AtracCodec σ α) : Nat → Nat → AtracDecoder σ → Bool × AtracDecoder σ
  | 0, _, d => (true, d)
  | n + 1, frame, d =>
    let offset := d.track.dataOffset.toNat + frame * d.blockAlign
    if offset > 0xffffffff then (false, d)
    else
      match d.decodePrerollPacket codec offset with
      | (false, d) => (false, d)
      | (true, d) => preroll codec n (frame + 1) d

def seek (codec : AtracCodec σ α) (d : AtracDecoder σ) (sample : Nat) : Bool × AtracDecoder σ :=
  if d.track.blockAlign = 0 ∨ sample > d.track.endSample.toNat then (false, d)
  else
    let absoluteSample := d.track.initialSkipSamples + sample
    let frame := absoluteSample / d.track.samplesPerFrame
    let offset := d.track.dataOffset.toNat + frame * d.blockAlign
    if offset ≥ d.encoded.length then (false, d)
    else
      let firstPrerollFrame := if frame > 2 then frame - 2 else 0
      match preroll codec (frame - firstPrerollFrame) firstPrerollFrame (d.flush codec) with
      | (false, d) => (false, d)
      | (true, d) =>
        (true,
          { d with
            dataCursor := offset % 2 ^ 32
            decodedSamples := sample
            skipSamples := absoluteSample % d.track.samplesPerFrame
            finished := false })

def loopActive (d : AtracDecoder σ) : Bool :=
  d.loopCount ≠ 0 ∧ d.track.loopStart ≠ allDataOnMemory ∧ d.track.loopEnd ≠ allDataOnMemory ∧
    d.track.loopStart ≤ d.track.loopEnd

def limitOutputSamples (d : AtracDecoder σ) (available : Nat) : Nat :=
  if !d.loopActive ∨ d.decodedSamples > d.track.loopEnd.toNat then available
  else min available (d.track.loopEnd.toNat + 1 - d.decodedSamples)

/-- One loop fewer; a negative count is endless. -/
def leaveLoop (d : AtracDecoder σ) : AtracDecoder σ :=
  { d with loopCount := if d.loopCount > 0 then d.loopCount - 1 else d.loopCount }

def advanceOutputPosition (codec : AtracCodec σ α) (d : AtracDecoder σ) (sampleCount : Nat) :
    Bool × AtracDecoder σ :=
  let d := { d with decodedSamples := d.decodedSamples + sampleCount }
  if !d.loopActive ∨ d.decodedSamples ≤ d.track.loopEnd.toNat then (false, d)
  else
    match seek codec { d with loopPending := true } d.track.loopStart.toNat with
    | (false, d) => (false, d)
    | (true, d) => (true, leaveLoop { d with loopPending := false })

def endExclusive (d : AtracDecoder σ) : Nat := d.track.endSample.toNat + 1

/-- The samples up to the end, in 32 bits. -/
def remaining (d : AtracDecoder σ) : Nat := (d.endExclusive - d.decodedSamples) % 2 ^ 32

/-- A frame as it is written: from the sample `skipped` on. -/
def writeSamples (codec : AtracCodec σ α) (d : AtracDecoder σ) (frame : CodecFrame α) (skipped sampleCount : Nat) :
    List (BitVec 16 × BitVec 16) :=
  (List.range sampleCount).map fun index =>
    let left := frame.left (skipped + index)
    let right := if d.track.channels = 2 then frame.right (skipped + index) else left
    (codec.clamp left, codec.clamp right)

/-- The end of a decode, when the position has advanced. -/
def finishDecode (sampleCount : Nat) (output : List (BitVec 16 × BitVec 16)) (advanced : Bool × AtracDecoder σ) :
    Decoded × AtracDecoder σ :=
  let d := advanced.2
  let reachedEnd := !advanced.1 ∧ d.decodedSamples ≥ d.endExclusive ∧ d.loopCount = 0
  ({ result := success, sampleCount, output, reachedEnd }, { d with finished := reachedEnd })

/-- The rest of a decode, with the frame that the library gave. -/
def deliver (codec : AtracCodec σ α) (d : AtracDecoder σ) (frame : CodecFrame α) : Decoded × AtracDecoder σ :=
  let skipped := min d.skipSamples frame.count.toNat
  let d := { d with skipSamples := d.skipSamples - skipped }
  let sampleCount := d.limitOutputSamples (min (frame.count.toNat - skipped) d.remaining)
  let output := d.writeSamples codec frame skipped sampleCount
  finishDecode sampleCount output (d.advanceOutputPosition codec sampleCount)

def decodePacket (codec : AtracCodec σ α) (d : AtracDecoder σ) : Decoded × AtracDecoder σ :=
  if d.dataCursor + d.blockAlign > d.encoded.length then ({ result := noData }, d)
  else
    match d.context with
    | none => ({ result := badData }, d)
    | some context =>
      let out := codec.decodeFrame context (d.packet d.dataCursor)
      let d := { d with context := some out.1, dataCursor := (d.dataCursor + d.blockAlign) % 2 ^ 32 }
      if out.2.result < 0 ∨ out.2.count < 0 ∨ out.2.count > 4096 then
        ({ result := badData }, { d with internalError := BitVec.ofInt 32 out.2.result })
      else d.deliver codec out.2

/-- The track has ended: the next loop starts, or there is none. -/
def restart (codec : AtracCodec σ α) (d : AtracDecoder σ)
    (next : AtracDecoder σ → Decoded × AtracDecoder σ) : Decoded × AtracDecoder σ :=
  if d.loopCount ≠ 0 then next (d.leaveLoop.rewind codec)
  else ({ result := allDataDecoded, reachedEnd := true }, { d with finished := true })

def declaredEnd (d : AtracDecoder σ) : Nat := d.track.dataOffset.toNat + d.track.dataSize.toNat

def decodeAtCursor (codec : AtracCodec σ α) (d : AtracDecoder σ) : Decoded × AtracDecoder σ :=
  let availableEnd := min d.declaredEnd d.encoded.length
  if d.dataCursor + d.blockAlign > availableEnd then
    if availableEnd < d.declaredEnd then ({ result := noData }, d)
    else d.restart codec (decodePacket codec)
  else d.decodePacket codec

def decodeFromPosition (codec : AtracCodec σ α) (d : AtracDecoder σ) : Decoded × AtracDecoder σ :=
  if d.decodedSamples ≥ d.endExclusive then d.restart codec (decodeAtCursor codec) else d.decodeAtCursor codec

def decode (codec : AtracCodec σ α) (d : AtracDecoder σ) : Decoded × AtracDecoder σ :=
  if d.encoded.isEmpty ∨ d.track.blockAlign = 0 then ({ result := unsetData }, d)
  else if d.loopPending then
    match d.seek codec d.track.loopStart.toNat with
    | (false, d) => ({ result := noData }, d)
    | (true, d) => decodeFromPosition codec (leaveLoop { d with loopPending := false })
  else d.decodeFromPosition codec

def nextSamples (d : AtracDecoder σ) : Nat :=
  if d.finished then 0
  else d.limitOutputSamples (min (d.track.samplesPerFrame - d.skipSamples) d.remaining)

def remainingFrames (d : AtracDecoder σ) : Word :=
  if d.encoded.length ≥ d.declaredEnd then allDataOnMemory
  else if d.dataCursor ≥ d.encoded.length ∨ d.track.blockAlign = 0 then 0
  else BitVec.ofNat 32 ((d.encoded.length - d.dataCursor) / d.blockAlign)

/-- `stream_data_info`: where the guest may write, and how much. -/
def streamWindow (d : AtracDecoder σ) : Word × Nat :=
  if d.guestBufferSize = 0 ∨ d.encoded.length ≥ d.track.fileSize.toNat then (d.guestBuffer, 0)
  else
    let retainedBytes := d.encoded.length - d.dataCursor
    if retainedBytes ≥ d.guestBufferSize then (d.guestBuffer, 0)
    else
      let ringOffset := d.encoded.length % d.guestBufferSize
      let freeBytes := d.guestBufferSize - retainedBytes
      let contiguousBytes := d.guestBufferSize - ringOffset
      let fileBytes := d.track.fileSize.toNat - d.encoded.length
      (d.guestBuffer + BitVec.ofNat 32 ringOffset, min freeBytes (min contiguousBytes fileBytes))

def streamDataInfo (d : AtracDecoder σ) : AtracDecoder σ :=
  { d with pendingWritePointer := d.streamWindow.1, pendingWritableBytes := d.streamWindow.2 }

/-- `add_stream_data`; `mapped` gives the bytes behind a guest address for so many bytes. -/
def addStreamData (d : AtracDecoder σ) (mapped : Word → Nat → Option Bytes) (byteCount : Nat) :
    Word × AtracDecoder σ :=
  if byteCount > d.pendingWritableBytes then (badData, d)
  else if byteCount = 0 then (success, d)
  else
    match mapped d.pendingWritePointer byteCount with
    | none => (badData, d)
    | some source =>
      (success,
        { d with
          encoded := d.encoded ++ (List.range byteCount).map source
          pendingWritePointer := d.pendingWritePointer + BitVec.ofNat 32 byteCount
          pendingWritableBytes := d.pendingWritableBytes - byteCount })

end AtracDecoder

/-- The operations on a decoder. All but `rewind`, which the decoder calls itself, are stubs. -/
inductive AtracCall
  | decodeData
  | resetPlayPosition (sample : Word)
  | rewind
  | setLoopNum (count : Word)
  | getStreamDataInfo
  | addStreamData (mapped : Word → Nat → Option Bytes) (byteCount : Word)
  | getNextSample
  | getRemainFrame
  | getLoopStatus
  | getInternalErrorInfo
  | getSoundSample
  | getBitrate
  | getChannel
  | getMaxSample

/-- What the guest gets: the result in `v0`, the words that are written, and the samples. -/
structure AtracAnswer where
  result : Word := 0
  words : List Word := []
  output : List (BitVec 16 × BitVec 16) := []
deriving DecidableEq

namespace AtracDecoder
open Atrac

variable {σ α : Type}

/-- `sceAtracResetPlayPosition`. -/
def resetPlayPosition (codec : AtracCodec σ α) (d : AtracDecoder σ) (sample : Word) : Word × AtracDecoder σ :=
  if sample > d.track.endSample then (badSample, d)
  else
    match d.seek codec sample.toNat with
    | (false, d) => (badData, d)
    | (true, d) => (0, d)

/-- `sceAtracSetLoopNum`. -/
def setLoopNum (d : AtracDecoder σ) (count : Word) : Word × AtracDecoder σ :=
  if d.track.loopStart = allDataOnMemory then (noLoopInformation, d) else (0, { d with loopCount := count.toInt })

def step (codec : AtracCodec σ α) (d : AtracDecoder σ) : AtracCall → AtracAnswer × AtracDecoder σ
  | .decodeData =>
    let out := d.decode codec
    ({ result := out.1.result
       words := [BitVec.ofNat 32 out.1.sampleCount, if out.1.reachedEnd then 1 else 0, out.2.remainingFrames]
       output := out.1.output }, out.2)
  | .resetPlayPosition sample =>
    ({ result := (d.resetPlayPosition codec sample).1 }, (d.resetPlayPosition codec sample).2)
  | .rewind => ({}, d.rewind codec)
  | .setLoopNum count => ({ result := (d.setLoopNum count).1 }, (d.setLoopNum count).2)
  | .getStreamDataInfo =>
    ({ words := [d.streamWindow.1, BitVec.ofNat 32 d.streamWindow.2, BitVec.ofNat 32 d.encoded.length] },
      d.streamDataInfo)
  | .addStreamData mapped byteCount =>
    ({ result := (d.addStreamData mapped byteCount.toNat).1 }, (d.addStreamData mapped byteCount.toNat).2)
  | .getNextSample => ({ words := [BitVec.ofNat 32 d.nextSamples] }, d)
  | .getRemainFrame => ({ words := [d.remainingFrames] }, d)
  | .getLoopStatus =>
    ({ words := [BitVec.ofInt 32 d.loopCount, if d.track.loopStart = allDataOnMemory then 0 else 1] }, d)
  | .getInternalErrorInfo => ({ words := [d.internalError] }, d)
  | .getSoundSample => ({ words := [d.track.endSample, d.track.loopStart, d.track.loopEnd] }, d)
  | .getBitrate => ({ words := [d.track.bitrate] }, d)
  | .getChannel => ({ words := [d.track.channels] }, d)
  | .getMaxSample => ({ words := [BitVec.ofNat 32 d.track.samplesPerFrame] }, d)

end AtracDecoder

namespace AtracDecoder
open Atrac
variable {σ α : Type} {d d' e : AtracDecoder σ}

/-! ### Data that is accepted -/

theorem setData_eq_true {codec : AtracCodec σ α} {source : List Byte} {address : Word}
    (h : d.setData codec source address = (true, d')) :
    ∃ parsed c, parseRiff source = some parsed ∧
      (d.requestedCodecType = 0 ∨ d.requestedCodecType = parsed.codecType) ∧
      codec.alloc parsed.codecType parsed.channels parsed.blockAlign parsed.jointStereo = some c ∧
      d' = d.loaded parsed source address (some c) := by
  unfold setData at h
  split at h
  · cases h
  next parsed hparsed =>
  split at h
  · cases h
  next htype =>
  obtain ⟨hsome, rfl⟩ := Prod.mk.inj h
  obtain ⟨c, hc⟩ := Option.isSome_iff_exists.1 hsome
  refine ⟨parsed, c, hparsed, ?_, hc, by rw [hc]⟩
  by_cases hzero : d.requestedCodecType = 0
  · exact Or.inl hzero
  · exact Or.inr (not_not.1 fun hne => htype ⟨hzero, hne⟩)

theorem setDataAt_eq_success {codec : AtracCodec σ α} {mapped : Word → Nat → Option Bytes} {address size : Word}
    (h : d.setDataAt codec mapped address size = (success, d')) :
    ∃ source, source.length < 2 ^ 32 ∧ d.setData codec source address = (true, d') := by
  unfold setDataAt at h
  split at h
  · exact absurd (Prod.mk.inj h).1 (by decide)
  next bytes _ =>
  dsimp only at h
  split at h
  · exact absurd (Prod.mk.inj h).1 (by decide)
  split at h
  · exact absurd (Prod.mk.inj h).1 (by decide)
  refine ⟨(List.range size.toNat).map bytes, ?_, ?_⟩
  · rw [List.length_map, List.length_range]
    exact size.isLt
  · generalize d.setData codec ((List.range size.toNat).map bytes) address = out at h
    obtain ⟨accepted, e⟩ := out
    obtain ⟨hresult, rfl⟩ := Prod.mk.inj h
    cases accepted with
    | true => rfl
    | false =>
      change badData = success at hresult
      exact absurd hresult (by decide)

/-! ### What no decode changes -/

/-- The data of two decoders is the same, and where more of it may be written. Loops are only spent. -/
structure SameData (d d' : AtracDecoder σ) : Prop where
  requestedCodecType : d'.requestedCodecType = d.requestedCodecType
  track : d'.track = d.track
  guestBuffer : d'.guestBuffer = d.guestBuffer
  guestBufferSize : d'.guestBufferSize = d.guestBufferSize
  encoded : d'.encoded = d.encoded
  pendingWritePointer : d'.pendingWritePointer = d.pendingWritePointer
  pendingWritableBytes : d'.pendingWritableBytes = d.pendingWritableBytes
  loopCount : d'.loopCount = d.loopCount ∨ 0 ≤ d'.loopCount ∧ d'.loopCount ≤ d.loopCount

theorem SameData.refl (d : AtracDecoder σ) : d.SameData d := ⟨rfl, rfl, rfl, rfl, rfl, rfl, rfl, Or.inl rfl⟩

theorem SameData.trans (h : d.SameData d') (h' : d'.SameData e) : d.SameData e := by
  have hcount : e.loopCount = d.loopCount ∨ 0 ≤ e.loopCount ∧ e.loopCount ≤ d.loopCount := by
    have h₁ := h.loopCount
    have h₂ := h'.loopCount
    omega
  exact ⟨h'.1.trans h.1, h'.2.trans h.2, h'.3.trans h.3, h'.4.trans h.4, h'.5.trans h.5, h'.6.trans h.6,
    h'.7.trans h.7, hcount⟩

theorem sameData_leaveLoop (d : AtracDecoder σ) : d.SameData d.leaveLoop := by
  refine ⟨rfl, rfl, rfl, rfl, rfl, rfl, rfl, ?_⟩
  rw [leaveLoop]
  dsimp only
  split
  · omega
  · exact Or.inl rfl

theorem SameData.of_eq {r : Bool × AtracDecoder σ} {b : Bool} (h : d.SameData r.2) (heq : r = (b, e)) :
    d.SameData e := by
  rw [heq] at h
  exact h

theorem sameData_decodePrerollPacket (codec : AtracCodec σ α) (d : AtracDecoder σ) (offset : Nat) :
    d.SameData (d.decodePrerollPacket codec offset).2 := by
  rw [decodePrerollPacket]
  split
  · exact .refl d
  split
  · exact .refl d
  · exact ⟨rfl, rfl, rfl, rfl, rfl, rfl, rfl, Or.inl rfl⟩

theorem sameData_preroll (codec : AtracCodec σ α) (n f : Nat) (d : AtracDecoder σ) : d.SameData (preroll codec n f d).2 := by
  induction n generalizing f d with
  | zero => exact .refl d
  | succ n ih =>
    rw [preroll]
    split
    · exact .refl d
    have hpacket := sameData_decodePrerollPacket codec d (d.track.dataOffset.toNat + f * d.blockAlign)
    split
    · next heq => exact hpacket.of_eq heq
    · next heq => exact (hpacket.of_eq heq).trans (ih _ _)

theorem sameData_seek (codec : AtracCodec σ α) (d : AtracDecoder σ) (sample : Nat) : d.SameData (d.seek codec sample).2 := by
  rw [seek]
  split
  · exact .refl d
  dsimp only
  split
  · exact .refl d
  split
  · next hpreroll =>
    have h := (sameData_preroll codec _ _ (d.flush codec)).of_eq hpreroll
    exact ⟨h.1, h.2, h.3, h.4, h.5, h.6, h.7, h.8⟩
  · next hpreroll =>
    have h := (sameData_preroll codec _ _ (d.flush codec)).of_eq hpreroll
    exact ⟨h.1, h.2, h.3, h.4, h.5, h.6, h.7, h.8⟩

theorem sameData_advanceOutputPosition (codec : AtracCodec σ α) (d : AtracDecoder σ) (n : Nat) :
    d.SameData (d.advanceOutputPosition codec n).2 := by
  rw [advanceOutputPosition]
  dsimp only
  split
  · exact ⟨rfl, rfl, rfl, rfl, rfl, rfl, rfl, Or.inl rfl⟩
  have hseek := sameData_seek codec
    { d with decodedSamples := d.decodedSamples + n, loopPending := true } d.track.loopStart.toNat
  split
  · next heq =>
    have h := hseek.of_eq heq
    exact ⟨h.1, h.2, h.3, h.4, h.5, h.6, h.7, h.8⟩
  · next heq =>
    have h := hseek.of_eq heq
    refine SameData.trans ?_ (sameData_leaveLoop _)
    exact ⟨h.1, h.2, h.3, h.4, h.5, h.6, h.7, h.8⟩

theorem sameData_deliver (codec : AtracCodec σ α) (d : AtracDecoder σ) (frame : CodecFrame α) : d.SameData (d.deliver codec frame).2 := by
  have hadvance := sameData_advanceOutputPosition codec
    { d with skipSamples := d.skipSamples - min d.skipSamples frame.count.toNat }
  rw [deliver, finishDecode]
  have h := hadvance (limitOutputSamples
    { d with skipSamples := d.skipSamples - min d.skipSamples frame.count.toNat }
    (min (frame.count.toNat - min d.skipSamples frame.count.toNat) d.remaining))
  exact ⟨h.1, h.2, h.3, h.4, h.5, h.6, h.7, h.8⟩

theorem sameData_decodePacket (codec : AtracCodec σ α) (d : AtracDecoder σ) : d.SameData (d.decodePacket codec).2 := by
  rw [decodePacket]
  split
  · exact .refl d
  split
  · exact .refl d
  dsimp only
  split
  · exact ⟨rfl, rfl, rfl, rfl, rfl, rfl, rfl, Or.inl rfl⟩
  · next context _ _ =>
    have h := sameData_deliver codec
      { d with
        context := some (codec.decodeFrame context (d.packet d.dataCursor)).1
        dataCursor := (d.dataCursor + d.blockAlign) % 2 ^ 32 } (codec.decodeFrame context (d.packet d.dataCursor)).2
    exact ⟨h.1, h.2, h.3, h.4, h.5, h.6, h.7, h.8⟩

theorem sameData_restart (codec : AtracCodec σ α) {next : AtracDecoder σ → Decoded × AtracDecoder σ}
    (h : ∀ d : AtracDecoder σ, d.SameData (next d).2) (d : AtracDecoder σ) :
    d.SameData (d.restart codec next).2 := by
  rw [restart]
  split
  · refine (sameData_leaveLoop d).trans (SameData.trans ?_ (h _))
    exact ⟨rfl, rfl, rfl, rfl, rfl, rfl, rfl, Or.inl rfl⟩
  · exact ⟨rfl, rfl, rfl, rfl, rfl, rfl, rfl, Or.inl rfl⟩

theorem sameData_decodeAtCursor (codec : AtracCodec σ α) (d : AtracDecoder σ) : d.SameData (d.decodeAtCursor codec).2 := by
  rw [decodeAtCursor]
  split
  · split
    · exact .refl d
    · exact sameData_restart codec (sameData_decodePacket codec) d
  · exact sameData_decodePacket codec d

theorem sameData_decodeFromPosition (codec : AtracCodec σ α) (d : AtracDecoder σ) : d.SameData (d.decodeFromPosition codec).2 := by
  rw [decodeFromPosition]
  split
  · exact sameData_restart codec (sameData_decodeAtCursor codec) d
  · exact sameData_decodeAtCursor codec d

theorem sameData_decode (codec : AtracCodec σ α) (d : AtracDecoder σ) : d.SameData (d.decode codec).2 := by
  rw [decode]
  split
  · exact .refl d
  split
  · have hseek := sameData_seek codec d d.track.loopStart.toNat
    split
    · next heq => exact hseek.of_eq heq
    · next heq =>
      have h := hseek.of_eq heq
      refine SameData.trans (SameData.trans ?_ (sameData_leaveLoop _)) (sameData_decodeFromPosition codec _)
      exact ⟨h.1, h.2, h.3, h.4, h.5, h.6, h.7, h.8⟩
  · exact sameData_decodeFromPosition codec d

theorem sameData_resetPlayPosition (codec : AtracCodec σ α) (d : AtracDecoder σ) (sample : Word) :
    d.SameData (d.resetPlayPosition codec sample).2 := by
  rw [resetPlayPosition]
  split
  · exact .refl d
  have hseek := sameData_seek codec d sample.toNat
  split
  · next heq => exact hseek.of_eq heq
  · next heq => exact hseek.of_eq heq

end AtracDecoder

end Psprism
