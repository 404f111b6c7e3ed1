import Mathlib.Algebra.BigOperators.Group.Finset.Basic
import Mathlib.Data.Fintype.Basic
import Psprism.Reloc

/-!
# The SAS core (`sas_state.hpp`)

A core mixes up to 32 voices. A voice is a list of samples that is played at a pitch, from a position in units
of a 4096th of a sample, through an envelope that takes one step for each frame. One mix plays `grain` frames
of every voice that is playing. A voice that runs past its end stops there; one whose envelope is released
goes on to the end of the mix, at height zero.
-/

namespace Psprism

/-- A 16-bit sample. -/
abbrev Pcm := BitVec 16

def maxEnvelopeHeight : Nat := 0x40000000
def maxVolume : Int := 0x1000
def maxVoices : Nat := 32

inductive EnvelopePhase
  | off | attack | decay | sustain | release
deriving DecidableEq

inductive EnvelopeCurve
  | linearIncrease | linearDecrease | linearBent | exponentDecrease | exponentIncrease | direct
deriving DecidableEq

inductive VoiceType
  | off | vag | pcm | noise
deriving DecidableEq

/-- The numbers are machine integers of 32 bits, and of 64 bits in `remainingSamples`, `position` and
`loopStart`. -/
structure Voice where
  playing : Bool := false
  on : Bool := false
  paused : Bool := false
  loop : Bool := false
  requestedLoop : Bool := false
  type : VoiceType := .off
  sourceAddress : Word := 0
  sourceSize : Int := 0
  remainingSamples : Nat := 0
  pitch : Nat := 0x1000
  envelopeHeight : Nat := 0
  leftVolume : Int := maxVolume
  rightVolume : Int := maxVolume
  effectLeftVolume : Int := 0
  effectRightVolume : Int := 0
  position : Nat := 0
  loopStart : Nat := 0
  envelopeConfigured : Bool := false
  envelopePhase : EnvelopePhase := .off
  attackRate : Nat := 0
  decayRate : Nat := 0
  sustainRate : Nat := 0
  releaseRate : Nat := 0
  sustainLevel : Nat := maxEnvelopeHeight
  attackCurve : EnvelopeCurve := .linearIncrease
  decayCurve : EnvelopeCurve := .linearDecrease
  sustainCurve : EnvelopeCurve := .linearDecrease
  releaseCurve : EnvelopeCurve := .linearDecrease
  samples : List Pcm := []

structure SasCore where
  grain : Nat
  outputMode : Nat
  voices : Fin maxVoices → Voice := fun _ => {}

/-- The samples from an address on. -/
abbrev PcmBuffer := Nat → Pcm

def clampSample (sample : Int) : Pcm := BitVec.ofInt 16 (max (-32768) (min sample 32767))

/-- `maxEnvelopeHeight - height` in 32 bits. -/
def envelopeDistance (height : Nat) : Nat := (maxEnvelopeHeight + 2 ^ 32 - height) % 2 ^ 32

def walkEnvelopeCurve (height : Nat) (curve : EnvelopeCurve) (rate : Nat) : Nat :=
  match curve with
  | .linearIncrease => min maxEnvelopeHeight (height + rate)
  | .linearDecrease => height - rate
  | .linearBent =>
    let adjustedRate := if height ≤ maxEnvelopeHeight * 3 / 4 then rate else rate / 4
    min maxEnvelopeHeight (height + adjustedRate)
  | .exponentDecrease =>
    let delta := (envelopeDistance height * rate) >>> 32
    let reduction := (rate + 3) / 4
    let next : Int := height + delta - reduction
    (max 0 (min next maxEnvelopeHeight)).toNat
  | .exponentIncrease =>
    let delta := ((envelopeDistance height * rate) >>> 32) + 0x4000
    min maxEnvelopeHeight (height + delta)
  | .direct => min rate maxEnvelopeHeight

namespace Voice

def advanceEnvelope (v : Voice) : Voice :=
  if !v.envelopeConfigured then { v with envelopeHeight := maxEnvelopeHeight }
  else
    match v.envelopePhase with
    | .attack =>
      let height := walkEnvelopeCurve v.envelopeHeight v.attackCurve v.attackRate
      { v with
        envelopeHeight := height
        envelopePhase := if height ≥ maxEnvelopeHeight then .decay else .attack }
    | .decay =>
      let height := walkEnvelopeCurve v.envelopeHeight v.decayCurve v.decayRate
      if height ≤ v.sustainLevel then { v with envelopeHeight := v.sustainLevel, envelopePhase := .sustain }
      else { v with envelopeHeight := height }
    | .sustain =>
      { v with envelopeHeight := walkEnvelopeCurve v.envelopeHeight v.sustainCurve v.sustainRate }
    | .release =>
      let height := walkEnvelopeCurve v.envelopeHeight v.releaseCurve v.releaseRate
      if height = 0 then
        { v with
          envelopeHeight := 0, envelopePhase := .off, playing := false, on := false, remainingSamples := 0 }
      else { v with envelopeHeight := height }
    | .off => { v with envelopeHeight := 0 }

/-- Where a loop goes on. -/
def loopIndex (v : Voice) : Nat := min v.loopStart (v.samples.length - 1)

def sampleAt (v : Voice) (index : Nat) : Int := (v.samples.getD index 0).toInt

/-- The sample at a position whose sample index is `index`, between that sample and the next one. -/
def interpolate (v : Voice) (index : Nat) : Int :=
  let nextIndex :=
    if index + 1 < v.samples.length then index + 1 else if v.loop then v.loopIndex else index
  let fraction : Int := (v.position % 0x1000 : Nat)
  v.sampleAt index + ((v.sampleAt nextIndex - v.sampleAt index) * fraction) >>> (12 : Nat)

def playFrame (v : Voice) (index : Nat) : Int × Voice :=
  let interpolated := v.interpolate index
  let v := v.advanceEnvelope
  (((interpolated * v.envelopeHeight) >>> (30 : Nat)).bmod (2 ^ 32), { v with position := v.position + v.pitch })

/-- The next frame: the sample before the volumes, and the voice after it. There is none past the end. -/
def frame (v : Voice) : Option (Int × Voice) :=
  let index := v.position >>> 12
  if index < v.samples.length then some (v.playFrame index)
  else if !v.loop then none
  else some (playFrame { v with position := v.loopIndex <<< 12 } v.loopIndex)

/-- A voice that has run past its end. -/
def finished (v : Voice) : Voice :=
  { v with playing := false, on := false, envelopeHeight := 0, remainingSamples := 0 }

/-- The loop over the frames of one voice. The samples are fewer when the voice ends. -/
def mixFrames : Nat → Voice → List Int × Voice
  | 0, v => ([], v)
  | n + 1, v =>
    match v.frame with
    | none => ([], v.finished)
    | some (sample, v') =>
      let rest := mixFrames n v'
      (sample :: rest.1, rest.2)

theorem mixFrames_of_none {v : Voice} (h : v.frame = none) (n : Nat) : mixFrames (n + 1) v = ([], v.finished) := by
  rw [mixFrames, h]

theorem mixFrames_of_some {v w : Voice} {sample : Int} (h : v.frame = some (sample, w)) (n : Nat) :
    mixFrames (n + 1) v = (sample :: (mixFrames n w).1, (mixFrames n w).2) := by
  rw [mixFrames, h]

def mixVoice (n : Nat) (v : Voice) : List Int × Voice :=
  if !v.playing ∨ v.paused ∨ v.samples.isEmpty then ([], v)
  else
    let out := mixFrames n v
    (out.1, { out.2 with remainingSamples := out.2.samples.length - (out.2.position >>> 12) })

/-- The volume of an output channel. -/
def volume (v : Voice) : Nat → Int
  | 0 => v.leftVolume
  | 1 => v.rightVolume
  | 2 => v.effectLeftVolume
  | _ => v.effectRightVolume

/-- What the voice adds to a side of a frame. -/
def contribution (n : Nat) (v : Voice) (frame side : Nat) : Int :=
  ((v.mixVoice n).1.getD frame 0 * v.volume side) >>> (12 : Nat)

end Voice

namespace SasCore

def channels (core : SasCore) : Nat := if core.outputMode = 0 then 2 else 4

def outputIndex (core : SasCore) (frame side : Nat) : Nat :=
  if core.channels = 4 then side * core.grain + frame else frame * core.channels + side

/-- The frames and sides of a mix, in the order of its loops. -/
def slots (core : SasCore) : List (Nat × Nat) :=
  (List.range core.grain).flatMap fun frame => (List.range core.channels).map fun side => (frame, side)

/-- What `__sceSasCoreWithMix` keeps of the output, at a volume for each side. -/
def preserved (core : SasCore) (output : PcmBuffer) (preserve : Option (Int × Int)) (frame side : Nat) : Int :=
  match preserve with
  | none => 0
  | some (left, right) =>
    ((output (core.outputIndex frame side)).toInt * if side % 2 = 0 then left else right) >>> (12 : Nat)

/-- A cell of the mix buffer after all voices. -/
def mixed (core : SasCore) (output : PcmBuffer) (preserve : Option (Int × Int)) (frame side : Nat) : Int :=
  core.preserved output preserve frame side +
    ∑ i, (core.voices i).contribution core.grain frame side

/-- `mix`, of a core that is there and an output that is mapped. -/
def mix (core : SasCore) (output : PcmBuffer) (preserve : Option (Int × Int)) : PcmBuffer × SasCore :=
  (core.slots.foldl
    (fun out slot => Function.update out (core.outputIndex slot.1 slot.2)
      (clampSample (core.mixed output preserve slot.1 slot.2))) output,
    { core with voices := fun i => ((core.voices i).mixVoice core.grain).2 })

end SasCore

end Psprism
