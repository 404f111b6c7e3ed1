import Psprism.SasCore
import Psprism.State

/-!
# The SAS calls (`sas_state.hpp`, `stubs/audio/__sceSas*.cpp`)

The cores by their canonical addresses, and every call that a guest can make on them. A call gets its arguments in
registers and reads and writes the guest's memory; between two calls the guest does to both what it likes
(`SasCores.reach`). Of a voice the fields that nothing reads (`configured`, `indefinite`) are left out.
-/

namespace Psprism

namespace Sas

def invalidGrain : Word := 0x80420001
def invalidMaxVoices : Word := 0x80420002
def invalidOutputMode : Word := 0x80420003
def invalidSampleRate : Word := 0x80420004
def badAddress : Word := 0x80420005
def invalidVoice : Word := 0x80420010
def invalidNoiseFrequency : Word := 0x80420011
def invalidPitch : Word := 0x80420012
def invalidAdsrMode : Word := 0x80420013
def invalidParameter : Word := 0x80420014
def invalidLoop : Word := 0x80420015
def voicePaused : Word := 0x80420016
def invalidVolume : Word := 0x80420018
def invalidAdsr : Word := 0x80420019
def invalidPcmSize : Word := 0x8042001a
def invalidEffectType : Word := 0x80420020
def invalidEffectFeedback : Word := 0x80420021
def invalidEffectDelay : Word := 0x80420022
def invalidEffectVolume : Word := 0x80420023
def notInitialized : Word := 0x80420100

def coreSize : Nat := 3616

end Sas

/-! ### VAG samples -/

structure DecodedVag where
  samples : List Pcm := []
  loopStart : Nat := 0
  hasLoopStart : Bool := false
  hasLoopEnd : Bool := false

/-- The coefficients of a predictor. -/
def vagCoefficients : List (Int × Int) :=
  [(0, 0), (60, 0), (115, -52), (98, -55), (122, -60), (0, 0), (0, 0), (52, 0), (55, -2), (60, -125), (0, 0),
    (0, -91), (0, 0), (2, -216), (125, -6), (0, -151)]

/-- The signed half of a packed byte: the lower one first. -/
def vagNibble (packed : Byte) (index : Nat) : Int :=
  (if index % 2 = 0 then packed <<< 4 else packed &&& 0xf0).toInt >>> (4 : Nat)

/-- One of the 28 samples of a block, after the last two samples, the newer one first. -/
def vagSample (source : Bytes) (offset index : Nat) (previous : Int × Int) : Pcm :=
  let (c₁, c₂) := vagCoefficients.getD (source offset >>> 4).toNat (0, 0)
  let shift := (source offset &&& 0xf).toNat
  let sample := (vagNibble (source (offset + 2 + index / 2)) index * 4096) >>> shift
  clampSample (sample + (previous.1 * c₁ + previous.2 * c₂ + 32) >>> (6 : Nat))

def vagBlock (source : Bytes) (offset : Nat) (previous : Int × Int) : List Pcm × (Int × Int) :=
  (List.range 28).foldl (fun (samples, previous) index =>
    let sample := vagSample source offset index previous
    (samples ++ [sample], (sample.toInt, previous.1))) ([], previous)

/-- The loop over so many blocks. -/
def vagBlocks (source : Bytes) : Nat → Nat → Int × Int → DecodedVag → DecodedVag
  | 0, _, _, result => result
  | n + 1, offset, previous, result =>
    let flags := source (offset + 1)
    if flags = 7 then result
    else
      let result := if flags = 6 then { result with loopStart := result.samples.length, hasLoopStart := true } else result
      let (samples, previous) := vagBlock source offset previous
      let result := { result with samples := result.samples ++ samples }
      if flags = 3 then { result with hasLoopEnd := true }
      else if flags &&& 1 ≠ 0 then result
      else vagBlocks source n (offset + 16) previous result

def decodeVagDetails (source : Bytes) (size : Nat) : DecodedVag :=
  if size < 16 then {}
  else
    let offset :=
      if 0x30 ≤ size ∧ source 0 = 0x56 ∧ source 1 = 0x41 ∧ source 2 = 0x47 ∧ source 3 = 0x70 then 0x30 else 0
    vagBlocks source ((size - offset) / 16) offset (0, 0) {}

/-! ### Cores and voices -/

/-- `cores()`. -/
abbrev SasCores := Word → Option SasCore

namespace SasCores
variable (cores : SasCores)

def initializeCore (m : GuestMemory) (coreAddress grain voices outputMode sampleRate : Word) : SasCores × Word :=
  let canonical := canonicalAddress coreAddress
  if canonical &&& 0x3f ≠ 0 ∨ m.mappedAddress canonical Sas.coreSize = none then (cores, Sas.badAddress)
  else if voices = 0 ∨ voices.toNat > maxVoices then (cores, Sas.invalidMaxVoices)
  else if grain < 64 ∨ grain > 2048 ∨ grain &&& 0x1f ≠ 0 then (cores, Sas.invalidGrain)
  else if outputMode > 1 then (cores, Sas.invalidOutputMode)
  else if sampleRate ≠ 44100 then (cores, Sas.invalidSampleRate)
  else (Function.update cores canonical (some { grain := grain.toNat, outputMode := outputMode.toNat }), 0)

def updateCore (coreAddress : Word) (function : SasCore → SasCore × Word) : SasCores × Word :=
  match cores (canonicalAddress coreAddress) with
  | none => (cores, Sas.notInitialized)
  | some core => (Function.update cores (canonicalAddress coreAddress) (some (function core).1), (function core).2)

def updateVoice (coreAddress : Word) (voiceIndex : Int) (function : Voice → Voice × Word) : SasCores × Word :=
  if h : 0 ≤ voiceIndex ∧ voiceIndex < maxVoices then
    cores.updateCore coreAddress fun core =>
      let i : Fin maxVoices := ⟨voiceIndex.toNat, by omega⟩
      ({ core with voices := Function.update core.voices i (function (core.voices i)).1 }, (function (core.voices i)).2)
  else (cores, Sas.invalidVoice)

/-! ### The functions of `sas_state.hpp` -/

def setPause (coreAddress voiceMask : Word) (paused : Bool) : SasCores × Word :=
  cores.updateCore coreAddress fun core =>
    ({ core with
      voices := fun i => if voiceMask.getLsbD i then { core.voices i with paused := paused } else core.voices i }, 0)

end SasCores

namespace Voice

/-- What `set_voice` does to a voice. -/
def setVag (v : Voice) (decoded : DecodedVag) (sourceAddress : Word) (sourceSize : Int) (loop : Bool) : Voice × Word :=
  let reset := v.type ≠ .vag ∨ v.sourceAddress ≠ sourceAddress ∨ v.sourceSize ≠ sourceSize ∨ v.requestedLoop ≠ loop
  let v :=
    { v with
      type := .vag
      sourceAddress, sourceSize
      requestedLoop := loop
      loop := loop && decoded.hasLoopEnd
      loopStart := if decoded.hasLoopStart then decoded.loopStart else 0 }
  let v :=
    if reset then
      { v with samples := decoded.samples, position := 0, remainingSamples := decoded.samples.length }
    else v
  (if v.on then { v with playing := true } else v, 0)

/-- What `set_voice_pcm` does to a voice. -/
def setPcm (v : Voice) (samples : List Pcm) (sourceAddress : Word) (loopStart : Int) : Voice × Word :=
  ({ v with
    type := .pcm
    sourceAddress
    sourceSize := samples.length
    requestedLoop := 0 ≤ loopStart
    loop := 0 ≤ loopStart
    loopStart := loopStart.toNat
    samples
    position := 0
    remainingSamples := samples.length
    playing := true }, 0)

def keyOn (v : Voice) : Voice × Word :=
  if v.paused ∨ v.on then (v, Sas.voicePaused)
  else
    ({ v with
      position := 0
      remainingSamples := v.samples.length
      playing := true
      on := true
      envelopeHeight := if v.envelopeConfigured then 0 else maxEnvelopeHeight
      envelopePhase := if v.envelopeConfigured then .attack else .sustain }, 0)

def keyOff (v : Voice) : Voice × Word :=
  if v.paused ∨ !v.on then (v, Sas.voicePaused)
  else if v.envelopeConfigured ∧ v.releaseRate ≠ 0 then ({ v with on := false, envelopePhase := .release }, 0)
  else ({ v with on := false, playing := false, envelopeHeight := 0, envelopePhase := .off }, 0)

def setAdsrRates (mask : Word) (attack decay sustain release : Word) (v : Voice) : Voice × Word :=
  ({ v with
    attackRate := if mask.getLsbD 0 then attack.toNat else v.attackRate
    decayRate := if mask.getLsbD 1 then decay.toNat else v.decayRate
    sustainRate := if mask.getLsbD 2 then sustain.toNat else v.sustainRate
    releaseRate := if mask.getLsbD 3 then release.toNat else v.releaseRate
    envelopeConfigured := true }, 0)

end Voice

/-- The cast from the underlying type, of a value from 0 to 5. -/
def EnvelopeCurve.ofValue : Nat → EnvelopeCurve
  | 0 => .linearIncrease
  | 1 => .linearDecrease
  | 2 => .linearBent
  | 3 => .exponentDecrease
  | 4 => .exponentIncrease
  | _ => .direct

def simpleRate (value : Nat) : Nat :=
  let rateIndex := value % 0x80
  if rateIndex = 0x7f then 0 else max 1 (((7 - rateIndex % 4) <<< 26) >>> (rateIndex / 4))

def exponentRate (value : Nat) : Nat :=
  let rateIndex := value % 0x80
  if rateIndex = 0x7f then 0 else max 1 (((7 - rateIndex % 4) <<< 24) >>> (rateIndex / 4))

namespace Voice

def setAdsrCurves (mask : Word) (attack decay sustain release : Word) (v : Voice) : Voice × Word :=
  ({ v with
    attackCurve := if mask.getLsbD 0 then .ofValue attack.toNat else v.attackCurve
    decayCurve := if mask.getLsbD 1 then .ofValue decay.toNat else v.decayCurve
    sustainCurve := if mask.getLsbD 2 then .ofValue sustain.toNat else v.sustainCurve
    releaseCurve := if mask.getLsbD 3 then .ofValue release.toNat else v.releaseCurve
    envelopeConfigured := true }, 0)

/-- The release rate of `set_simple_adsr`. -/
def simpleReleaseRate (curve : EnvelopeCurve) (releaseIndex : Nat) : Nat :=
  if releaseIndex = 31 then 0
  else if curve = .linearDecrease then
    if releaseIndex = 30 then maxEnvelopeHeight else if releaseIndex = 29 then 1 else 0x10000000 >>> releaseIndex
  else if releaseIndex = 0 then 0x7fffffff else 0x80000000 >>> releaseIndex

/-- The two halves of a simple envelope, of 16 bits. -/
def setSimpleAdsr (env1 env2 : Nat) (v : Voice) : Voice × Word :=
  let decayIndex := env1 / 0x10 % 0x10
  let sustainCurve := EnvelopeCurve.ofValue (env2 / 0x4000 % 4)
  let releaseCurve : EnvelopeCurve := if env2.testBit 5 then .exponentDecrease else .linearDecrease
  ({ v with
    attackRate := simpleRate (env1 / 0x100)
    attackCurve := if env1.testBit 15 then .linearBent else .linearIncrease
    decayRate := if decayIndex = 0 then 0x7fffffff else 0x80000000 >>> decayIndex
    decayCurve := .exponentDecrease
    sustainLevel := (env1 % 0x10 + 1) <<< 26
    sustainCurve := sustainCurve
    sustainRate := if sustainCurve = .exponentDecrease then exponentRate (env2 / 0x40) else simpleRate (env2 / 0x40)
    releaseCurve := releaseCurve
    releaseRate := simpleReleaseRate releaseCurve (env2 % 0x20)
    envelopeConfigured := true }, 0)

def setSustainLevel (level : Word) (v : Voice) : Voice × Word :=
  ({ v with sustainLevel := level.toNat, envelopeConfigured := true }, 0)

end Voice

/-- `volume_valid`. -/
def volumeValid (volume : Int) : Prop := -maxVolume ≤ volume ∧ volume ≤ maxVolume

instance (volume : Int) : Decidable (volumeValid volume) := inferInstanceAs (Decidable (_ ∧ _))

namespace SasCores
variable (cores : SasCores)

def setVoice (coreAddress : Word) (voiceIndex : Int) (m : GuestMemory) (sourceAddress : Word) (sourceSize loop : Int) :
    SasCores × Word :=
  if voiceIndex < 0 ∨ voiceIndex ≥ maxVoices then (cores, Sas.invalidVoice)
  else if sourceSize ≤ 0 ∨ sourceSize % 16 ≠ 0 then (cores, Sas.invalidParameter)
  else if loop ≠ 0 ∧ loop ≠ 1 then (cores, Sas.invalidLoop)
  else
    match m.mappedAddress sourceAddress sourceSize.toNat with
    | none => (cores, Sas.invalidParameter)
    | some (r, offset) =>
      let decoded := decodeVagDetails (fun i => m.bytes r (offset + i)) sourceSize.toNat
      if decoded.samples.isEmpty then (cores, Sas.invalidParameter)
      else cores.updateVoice coreAddress voiceIndex fun v => v.setVag decoded sourceAddress sourceSize (loop ≠ 0)

def setVoicePcm (coreAddress : Word) (voiceIndex : Int) (m : GuestMemory) (sourceAddress : Word)
    (sampleCount loopStart : Int) : SasCores × Word :=
  if voiceIndex < 0 ∨ voiceIndex ≥ maxVoices then (cores, Sas.invalidVoice)
  else if sampleCount ≤ 0 ∨ sampleCount > 0x10000 then (cores, Sas.invalidPcmSize)
  else if loopStart ≥ sampleCount then (cores, Sas.invalidLoop)
  else
    match m.mappedAddress sourceAddress (sampleCount.toNat * 2) with
    | none => (cores, Sas.invalidParameter)
    | some (r, offset) =>
      let samples := (List.range sampleCount.toNat).map fun i => readU16 (m.bytes r) (offset + 2 * i)
      cores.updateVoice coreAddress voiceIndex fun v => v.setPcm samples sourceAddress loopStart

/-- `mix`, into the samples at an address of the guest. -/
def mix (m : GuestMemory) (coreAddress outputAddress : Word) (preserve : Option (Int × Int)) :
    SasCores × GuestMemory × Word :=
  match cores (canonicalAddress coreAddress) with
  | none => (cores, m, Sas.notInitialized)
  | some core =>
    let bytes := core.grain * core.channels * 2
    match m.mappedAddress outputAddress bytes with
    | none => (cores, m, Sas.invalidParameter)
    | some (r, offset) =>
      let out := core.mix (fun i => readU16 (m.bytes r) (offset + 2 * i)) preserve
      (Function.update cores (canonicalAddress coreAddress) (some out.2),
        m.setBytes r fun i =>
          if offset ≤ i ∧ i < offset + bytes then (out.1 ((i - offset) / 2) >>> (8 * ((i - offset) % 2))).setWidth 8
          else m.bytes r i, 0)

/-- The voices that satisfy a test, as bits. -/
def flags (core : SasCore) (test : Voice → Bool) : Word :=
  (List.finRange maxVoices).foldl (fun result i => if test (core.voices i) then result ||| ((1 : Word) <<< i.val) else result) 0

/-! ### The calls -/

/-- A call that returns a result in `$v0`. -/
def answer (s : State) (out : SasCores × Word) : SasCores × State := (out.1, s.setGpr 2 out.2)

/-- A call that looks whether the core is there. -/
def validateCore (coreAddress : Word) : SasCores × Word := cores.updateCore coreAddress fun core => (core, 0)

def sceSasCore (s : State) : SasCores × State :=
  let (cores, m, result) := cores.mix s.mem (s.gpr 4) (s.gpr 5) none
  (cores, { s with mem := m }.setGpr 2 result)

def sceSasCoreWithMix (s : State) : SasCores × State :=
  if ¬ volumeValid (s.gpr 6).toInt ∨ ¬ volumeValid (s.gpr 7).toInt then (cores, s.setGpr 2 Sas.invalidVolume)
  else
    let (cores, m, result) := cores.mix s.mem (s.gpr 4) (s.gpr 5) (some ((s.gpr 6).toInt, (s.gpr 7).toInt))
    (cores, { s with mem := m }.setGpr 2 result)

/-- `all_envelope_heights` writes the heights where it finds the core. -/
def sceSasGetAllEnvelopeHeights (s : State) : SasCores × State :=
  match s.mem.mappedAddress (s.gpr 5) (maxVoices * 4) with
  | none => (cores, s.setGpr 2 Sas.invalidParameter)
  | some (r, offset) =>
    match cores (canonicalAddress (s.gpr 4)) with
    | none => (cores, s.setGpr 2 Sas.notInitialized)
    | some core =>
      let m := s.mem.setBytes r fun i =>
        if h : offset ≤ i ∧ i < offset + maxVoices * 4 then
          (BitVec.ofNat 32 (core.voices ⟨(i - offset) / 4, by omega⟩).envelopeHeight
            >>> (8 * ((i - offset) % 4))).setWidth 8
        else s.mem.bytes r i
      (cores, { s with mem := m }.setGpr 2 0)

def sceSasGetEndFlag (s : State) : SasCores × State :=
  answer s (cores.updateCore (s.gpr 4) fun core => (core, flags core fun v => !v.playing))

def sceSasGetEnvelopeHeight (s : State) : SasCores × State :=
  answer s (cores.updateVoice (s.gpr 4) (s.gpr 5).toInt fun v => (v, BitVec.ofNat 32 v.envelopeHeight))

def sceSasGetGrain (s : State) : SasCores × State :=
  answer s (cores.updateCore (s.gpr 4) fun core => (core, BitVec.ofNat 32 core.grain))

def sceSasGetOutputmode (s : State) : SasCores × State :=
  answer s (cores.updateCore (s.gpr 4) fun core => (core, BitVec.ofNat 32 core.outputMode))

def sceSasGetPauseFlag (s : State) : SasCores × State :=
  answer s (cores.updateCore (s.gpr 4) fun core => (core, flags core (·.paused)))

def sceSasInit (s : State) : SasCores × State :=
  answer s (cores.initializeCore s.mem (s.gpr 4) (s.gpr 5) (s.gpr 6) (s.gpr 7) (s.gpr 8))

def sceSasRevEVOL (s : State) : SasCores × State :=
  if s.gpr 5 > 0x1000 ∨ s.gpr 6 > 0x1000 then (cores, s.setGpr 2 Sas.invalidEffectVolume)
  else answer s (cores.validateCore (s.gpr 4))

def sceSasRevParam (s : State) : SasCores × State :=
  let delay := (s.gpr 5).toInt
  let feedback := (s.gpr 6).toInt
  if delay < 0 ∨ delay ≥ 128 then (cores, s.setGpr 2 Sas.invalidEffectDelay)
  else if feedback < 0 ∨ feedback ≥ 128 then (cores, s.setGpr 2 Sas.invalidEffectFeedback)
  else answer s (cores.validateCore (s.gpr 4))

def sceSasRevType (s : State) : SasCores × State :=
  let type := (s.gpr 5).toInt
  if type < -1 ∨ type > 8 then (cores, s.setGpr 2 Sas.invalidEffectType)
  else answer s (cores.validateCore (s.gpr 4))

def sceSasRevVON (s : State) : SasCores × State := answer s (cores.validateCore (s.gpr 4))

def sceSasSetADSR (s : State) : SasCores × State :=
  let mask := s.gpr 6
  if (mask.getLsbD 0 ∧ (s.gpr 7).toInt < 0) ∨ (mask.getLsbD 1 ∧ (s.gpr 8).toInt < 0) ∨
      (mask.getLsbD 2 ∧ (s.gpr 9).toInt < 0) ∨ (mask.getLsbD 3 ∧ (s.gpr 10).toInt < 0) then
    (cores, s.setGpr 2 Sas.invalidAdsr)
  else
    answer s (cores.updateVoice (s.gpr 4) (s.gpr 5).toInt
      (Voice.setAdsrRates mask (s.gpr 7) (s.gpr 8) (s.gpr 9) (s.gpr 10)))

def sceSasSetADSRmode (s : State) : SasCores × State :=
  let mask := s.gpr 6
  let attack := s.gpr 7 &&& 0x7fffffff
  let decay := s.gpr 8 &&& 0x7fffffff
  let sustain := s.gpr 9 &&& 0x7fffffff
  let release := s.gpr 10 &&& 0x7fffffff
  if (mask.getLsbD 0 ∧ (attack > 5 ∨ attack &&& 1 ≠ 0)) ∨ (mask.getLsbD 1 ∧ (decay > 5 ∨ decay &&& 1 ≠ 1)) ∨
      (mask.getLsbD 2 ∧ sustain > 5) ∨ (mask.getLsbD 3 ∧ (release > 5 ∨ release &&& 1 ≠ 1)) then
    (cores, s.setGpr 2 Sas.invalidAdsrMode)
  else
    answer s (cores.updateVoice (s.gpr 4) (s.gpr 5).toInt (Voice.setAdsrCurves mask attack decay sustain release))

def sceSasSetGrain (s : State) : SasCores × State :=
  let grain := s.gpr 5
  if grain < 64 ∨ grain > 2048 ∨ grain &&& 0x1f ≠ 0 then (cores, s.setGpr 2 Sas.invalidGrain)
  else answer s (cores.updateCore (s.gpr 4) fun core => ({ core with grain := grain.toNat }, 0))

def sceSasSetKeyOff (s : State) : SasCores × State :=
  answer s (cores.updateVoice (s.gpr 4) (s.gpr 5).toInt Voice.keyOff)

def sceSasSetKeyOn (s : State) : SasCores × State :=
  answer s (cores.updateVoice (s.gpr 4) (s.gpr 5).toInt Voice.keyOn)

def sceSasSetNoise (s : State) : SasCores × State :=
  let frequency := (s.gpr 6).toInt
  if frequency < 0 ∨ frequency ≥ 64 then (cores, s.setGpr 2 Sas.invalidNoiseFrequency)
  else answer s (cores.updateVoice (s.gpr 4) (s.gpr 5).toInt fun v => ({ v with type := .noise }, 0))

def sceSasSetOutputmode (s : State) : SasCores × State :=
  let outputMode := s.gpr 5
  if outputMode > 1 then (cores, s.setGpr 2 Sas.invalidOutputMode)
  else answer s (cores.updateCore (s.gpr 4) fun core => ({ core with outputMode := outputMode.toNat }, 0))

def sceSasSetPause (s : State) : SasCores × State :=
  answer s (cores.setPause (s.gpr 4) (s.gpr 5) (s.gpr 6 ≠ 0))

def sceSasSetPitch (s : State) : SasCores × State :=
  let pitch := s.gpr 6
  if pitch > 0x4000 then (cores, s.setGpr 2 Sas.invalidPitch)
  else answer s (cores.updateVoice (s.gpr 4) (s.gpr 5).toInt fun v => ({ v with pitch := pitch.toNat }, 0))

def sceSasSetSL (s : State) : SasCores × State :=
  if s.gpr 6 > 0x40000000 then (cores, s.setGpr 2 Sas.invalidAdsr)
  else answer s (cores.updateVoice (s.gpr 4) (s.gpr 5).toInt (Voice.setSustainLevel (s.gpr 6)))

def sceSasSetSimpleADSR (s : State) : SasCores × State :=
  if (s.gpr 7).getLsbD 13 then (cores, s.setGpr 2 Sas.invalidAdsrMode)
  else
    answer s (cores.updateVoice (s.gpr 4) (s.gpr 5).toInt
      (Voice.setSimpleAdsr (s.gpr 6 &&& 0xffff).toNat (s.gpr 7 &&& 0xffff).toNat))

def sceSasSetVoice (s : State) : SasCores × State :=
  answer s (cores.setVoice (s.gpr 4) (s.gpr 5).toInt s.mem (s.gpr 6) (s.gpr 7).toInt (s.gpr 8).toInt)

def sceSasSetVoicePCM (s : State) : SasCores × State :=
  answer s (cores.setVoicePcm (s.gpr 4) (s.gpr 5).toInt s.mem (s.gpr 6) (s.gpr 7).toInt (s.gpr 8).toInt)

def sceSasSetVolume (s : State) : SasCores × State :=
  let left := (s.gpr 6).toInt
  let right := (s.gpr 7).toInt
  let effectLeft := (s.gpr 8).toInt
  let effectRight := (s.gpr 9).toInt
  if ¬ volumeValid left ∨ ¬ volumeValid right ∨ ¬ volumeValid effectLeft ∨ ¬ volumeValid effectRight then
    (cores, s.setGpr 2 Sas.invalidVolume)
  else
    answer s (cores.updateVoice (s.gpr 4) (s.gpr 5).toInt fun v =>
      ({ v with
        leftVolume := left, rightVolume := right
        effectLeftVolume := effectLeft, effectRightVolume := effectRight }, 0))

end SasCores

/-- The calls, by their names. -/
inductive SasCall
  | core | coreWithMix | getAllEnvelopeHeights | getEndFlag | getEnvelopeHeight | getGrain | getOutputmode
  | getPauseFlag | init | revEVOL | revParam | revType | revVON | setADSR | setADSRmode | setGrain | setKeyOff
  | setKeyOn | setNoise | setOutputmode | setPause | setPitch | setSL | setSimpleADSR | setVoice | setVoicePCM
  | setVolume
deriving DecidableEq

open SasCores in
def SasCall.run : SasCall → SasCores → State → SasCores × State
  | .core => sceSasCore
  | .coreWithMix => sceSasCoreWithMix
  | .getAllEnvelopeHeights => sceSasGetAllEnvelopeHeights
  | .getEndFlag => sceSasGetEndFlag
  | .getEnvelopeHeight => sceSasGetEnvelopeHeight
  | .getGrain => sceSasGetGrain
  | .getOutputmode => sceSasGetOutputmode
  | .getPauseFlag => sceSasGetPauseFlag
  | .init => sceSasInit
  | .revEVOL => sceSasRevEVOL
  | .revParam => sceSasRevParam
  | .revType => sceSasRevType
  | .revVON => sceSasRevVON
  | .setADSR => sceSasSetADSR
  | .setADSRmode => sceSasSetADSRmode
  | .setGrain => sceSasSetGrain
  | .setKeyOff => sceSasSetKeyOff
  | .setKeyOn => sceSasSetKeyOn
  | .setNoise => sceSasSetNoise
  | .setOutputmode => sceSasSetOutputmode
  | .setPause => sceSasSetPause
  | .setPitch => sceSasSetPitch
  | .setSL => sceSasSetSL
  | .setSimpleADSR => sceSasSetSimpleADSR
  | .setVoice => sceSasSetVoice
  | .setVoicePCM => sceSasSetVoicePCM
  | .setVolume => sceSasSetVolume

/-- The cores after some calls, each with the registers and the memory that the guest has then. -/
def SasCores.reach (calls : List (SasCall × State)) : SasCores :=
  calls.foldl (fun cores call => (call.1.run cores call.2).1) fun _ => none

end Psprism
