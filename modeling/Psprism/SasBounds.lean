import Psprism.SasMix
import Psprism.SasRun

/-!
# Bounds of the SAS voices

Whatever calls are made, in whatever order, the height of an envelope stays between zero and the maximum, the rates and
the sustain level stay under theirs and the volumes stay valid: every call keeps the bounds of every voice
(`SasCores.Bounded.run`), so they hold after any calls (`SasCores.reach_bounded`).
-/

namespace Psprism

/-! ### What a voice keeps -/

/-- The curves of an attack. -/
def EnvelopeCurve.Rising (curve : EnvelopeCurve) : Prop :=
  curve = .linearIncrease ∨ curve = .linearBent ∨ curve = .exponentIncrease

/-- The curves of a decay or a release. -/
def EnvelopeCurve.Falling (curve : EnvelopeCurve) : Prop :=
  curve = .linearDecrease ∨ curve = .exponentDecrease ∨ curve = .direct

/-- The envelope that a voice is configured with. -/
structure Envelope where
  attackRate : Nat
  decayRate : Nat
  sustainRate : Nat
  releaseRate : Nat
  sustainLevel : Nat
  attackCurve : EnvelopeCurve
  decayCurve : EnvelopeCurve
  sustainCurve : EnvelopeCurve
  releaseCurve : EnvelopeCurve
deriving DecidableEq

def Voice.envelope (v : Voice) : Envelope :=
  ⟨v.attackRate, v.decayRate, v.sustainRate, v.releaseRate, v.sustainLevel, v.attackCurve, v.decayCurve,
    v.sustainCurve, v.releaseCurve⟩

structure Envelope.Valid (e : Envelope) : Prop where
  attackRate : e.attackRate < 2 ^ 31
  decayRate : e.decayRate < 2 ^ 31
  sustainRate : e.sustainRate < 2 ^ 31
  releaseRate : e.releaseRate < 2 ^ 31
  sustainLevel : e.sustainLevel ≤ maxEnvelopeHeight
  attackCurve : e.attackCurve.Rising
  decayCurve : e.decayCurve.Falling
  releaseCurve : e.releaseCurve.Falling

structure Voice.Bounded (v : Voice) : Prop where
  height : v.envelopeHeight ≤ maxEnvelopeHeight
  envelope : v.envelope.Valid
  volume : ∀ side, volumeValid (v.volume side)

theorem walkEnvelopeCurve_le {height : Nat} (h : height ≤ maxEnvelopeHeight) (curve : EnvelopeCurve) (rate : Nat) :
    walkEnvelopeCurve height curve rate ≤ maxEnvelopeHeight := by
  cases curve with
  | linearIncrease => exact Nat.min_le_left _ _
  | linearDecrease => exact (Nat.sub_le _ _).trans h
  | linearBent => exact Nat.min_le_left _ _
  | exponentDecrease =>
    rw [walkEnvelopeCurve]
    omega
  | exponentIncrease => exact Nat.min_le_left _ _
  | direct => exact Nat.min_le_right _ _

namespace Voice
variable {v : Voice}

theorem Bounded.advanceEnvelope (h : v.Bounded) : v.advanceEnvelope.Bounded := by
  have hwalk (curve : EnvelopeCurve) (rate : Nat) := walkEnvelopeCurve_le h.height curve rate
  rw [Voice.advanceEnvelope]
  split
  · exact ⟨le_rfl, h.envelope, h.volume⟩
  split
  · exact ⟨hwalk _ _, h.envelope, h.volume⟩
  · dsimp only
    split
    · exact ⟨h.envelope.sustainLevel, h.envelope, h.volume⟩
    · exact ⟨hwalk _ _, h.envelope, h.volume⟩
  · exact ⟨hwalk _ _, h.envelope, h.volume⟩
  · dsimp only
    split
    · exact ⟨Nat.zero_le _, h.envelope, h.volume⟩
    · exact ⟨hwalk _ _, h.envelope, h.volume⟩
  · exact ⟨Nat.zero_le _, h.envelope, h.volume⟩

theorem Bounded.frame (h : v.Bounded) {x : Int} {w : Voice} (hframe : v.frame = some (x, w)) : w.Bounded := by
  obtain ⟨position, index, heq⟩ := frame_eq_some hframe
  obtain ⟨-, rfl⟩ := Prod.mk.inj heq
  have hmoved : Bounded { v with position } := ⟨h.height, h.envelope, h.volume⟩
  obtain ⟨hheight, henvelope, hvolume⟩ := hmoved.advanceEnvelope
  exact ⟨hheight, henvelope, hvolume⟩

theorem Bounded.mixFrames (h : v.Bounded) (n : Nat) : (mixFrames n v).2.Bounded := by
  induction n generalizing v with
  | zero => exact h
  | succ n ih =>
    cases hframe : v.frame with
    | none =>
      rw [mixFrames_of_none hframe]
      exact ⟨Nat.zero_le _, h.envelope, h.volume⟩
    | some out =>
      rw [mixFrames_of_some hframe]
      exact ih (h.frame hframe)

theorem Bounded.mixVoice (h : v.Bounded) (n : Nat) : (v.mixVoice n).2.Bounded := by
  rw [Voice.mixVoice]
  split
  · exact h
  · obtain ⟨hheight, henvelope, hvolume⟩ := h.mixFrames n
    exact ⟨hheight, henvelope, hvolume⟩

end Voice

namespace Voice
variable {v : Voice}

theorem bounded_default : Bounded {} := by
  refine ⟨Nat.zero_le _, ?_, fun side => ?_⟩
  · exact ⟨by decide, by decide, by decide, by decide, le_rfl, .inl rfl, .inl rfl, .inl rfl⟩
  · match side with
    | 0 => exact ⟨by decide, le_rfl⟩
    | 1 => exact ⟨by decide, le_rfl⟩
    | 2 => exact ⟨by decide, by decide⟩
    | _ + 3 => exact show volumeValid 0 from ⟨by decide, by decide⟩

theorem Bounded.setVag (h : v.Bounded) (decoded : DecodedVag) (sourceAddress : Word) (sourceSize : Int)
    (loop : Bool) : (v.setVag decoded sourceAddress sourceSize loop).1.Bounded := by
  unfold Voice.setVag
  dsimp only
  split_ifs <;> exact ⟨h.height, h.envelope, h.volume⟩

theorem Bounded.setPcm (h : v.Bounded) (samples : List Pcm) (sourceAddress : Word) (loopStart : Int) :
    (v.setPcm samples sourceAddress loopStart).1.Bounded :=
  ⟨h.height, h.envelope, h.volume⟩

theorem Bounded.keyOn (h : v.Bounded) : v.keyOn.1.Bounded := by
  rw [Voice.keyOn]
  split_ifs
  · exact h
  · exact ⟨Nat.zero_le _, h.envelope, h.volume⟩
  · exact ⟨le_rfl, h.envelope, h.volume⟩

theorem Bounded.keyOff (h : v.Bounded) : v.keyOff.1.Bounded := by
  rw [Voice.keyOff]
  split_ifs
  · exact h
  · exact ⟨h.height, h.envelope, h.volume⟩
  · exact ⟨Nat.zero_le _, h.envelope, h.volume⟩

theorem Bounded.setAdsrRates (h : v.Bounded) {mask attack decay sustain release : Word}
    (hattack : mask.getLsbD 0 = true → attack.toNat < 2 ^ 31) (hdecay : mask.getLsbD 1 = true → decay.toNat < 2 ^ 31)
    (hsustain : mask.getLsbD 2 = true → sustain.toNat < 2 ^ 31)
    (hrelease : mask.getLsbD 3 = true → release.toNat < 2 ^ 31) :
    (v.setAdsrRates mask attack decay sustain release).1.Bounded := by
  have he := h.envelope
  refine ⟨h.height, ⟨?_, ?_, ?_, ?_, he.sustainLevel, he.attackCurve, he.decayCurve, he.releaseCurve⟩, h.volume⟩
  · exact iteInduction (motive := (· < 2 ^ 31)) hattack fun _ => he.attackRate
  · exact iteInduction (motive := (· < 2 ^ 31)) hdecay fun _ => he.decayRate
  · exact iteInduction (motive := (· < 2 ^ 31)) hsustain fun _ => he.sustainRate
  · exact iteInduction (motive := (· < 2 ^ 31)) hrelease fun _ => he.releaseRate

theorem Bounded.setAdsrCurves (h : v.Bounded) {mask attack decay sustain release : Word}
    (hattack : mask.getLsbD 0 = true → (EnvelopeCurve.ofValue attack.toNat).Rising)
    (hdecay : mask.getLsbD 1 = true → (EnvelopeCurve.ofValue decay.toNat).Falling)
    (hrelease : mask.getLsbD 3 = true → (EnvelopeCurve.ofValue release.toNat).Falling) :
    (v.setAdsrCurves mask attack decay sustain release).1.Bounded := by
  have he := h.envelope
  refine ⟨h.height, ⟨he.attackRate, he.decayRate, he.sustainRate, he.releaseRate, he.sustainLevel, ?_, ?_, ?_⟩,
    h.volume⟩
  · exact iteInduction hattack fun _ => he.attackCurve
  · exact iteInduction hdecay fun _ => he.decayCurve
  · exact iteInduction hrelease fun _ => he.releaseCurve

theorem simpleRate_lt (value : Nat) : simpleRate value < 2 ^ 31 := by
  rw [simpleRate]
  split_ifs
  · decide
  · have hle : ((7 - value % 0x80 % 4) <<< 26) >>> (value % 0x80 / 4) ≤ (7 - value % 0x80 % 4) <<< 26 := by
      rw [Nat.shiftRight_eq_div_pow]
      exact Nat.div_le_self _ _
    rw [Nat.shiftLeft_eq] at hle ⊢
    omega

theorem exponentRate_lt (value : Nat) : exponentRate value < 2 ^ 31 := by
  rw [exponentRate]
  split_ifs
  · decide
  · have hle : ((7 - value % 0x80 % 4) <<< 24) >>> (value % 0x80 / 4) ≤ (7 - value % 0x80 % 4) <<< 24 := by
      rw [Nat.shiftRight_eq_div_pow]
      exact Nat.div_le_self _ _
    rw [Nat.shiftLeft_eq] at hle ⊢
    omega

theorem shiftRight_lt {i : Nat} (h : i ≠ 0) : 0x80000000 >>> i < 2 ^ 31 := by
  rw [Nat.shiftRight_eq_div_pow]
  exact Nat.div_lt_self (by decide) (Nat.one_lt_two_pow h)

theorem simpleReleaseRate_lt (curve : EnvelopeCurve) (releaseIndex : Nat) :
    simpleReleaseRate curve releaseIndex < 2 ^ 31 := by
  rw [simpleReleaseRate]
  split_ifs
  · decide
  · decide
  · decide
  · rw [Nat.shiftRight_eq_div_pow]
    exact (Nat.div_le_self _ _).trans_lt (by decide)
  · decide
  · exact shiftRight_lt ‹_›

theorem Bounded.setSimpleAdsr (h : v.Bounded) (env1 env2 : Nat) : (v.setSimpleAdsr env1 env2).1.Bounded := by
  refine ⟨h.height, ⟨simpleRate_lt _, ?_, ?_, simpleReleaseRate_lt _ _, ?_, ?_, .inr (.inl rfl), ?_⟩, h.volume⟩
  · change (if _ then _ else _) < _
    split_ifs with hindex
    · decide
    · exact shiftRight_lt hindex
  · exact iteInduction (motive := (· < 2 ^ 31)) (fun _ => exponentRate_lt _) fun _ => simpleRate_lt _
  · change (env1 % 0x10 + 1) <<< 26 ≤ maxEnvelopeHeight
    rw [Nat.shiftLeft_eq, maxEnvelopeHeight]
    omega
  · exact iteInduction (fun _ => .inr (.inl rfl)) fun _ => .inl rfl
  · exact iteInduction (fun _ => .inr (.inl rfl)) fun _ => .inl rfl

theorem Bounded.setSustainLevel (h : v.Bounded) {level : Word} (hlevel : level.toNat ≤ maxEnvelopeHeight) :
    (v.setSustainLevel level).1.Bounded :=
  ⟨h.height, { h.envelope with sustainLevel := hlevel }, h.volume⟩

end Voice

theorem toNat_lt_of_toInt {w : Word} (h : ¬ w.toInt < 0) : w.toNat < 2 ^ 31 := by
  rw [BitVec.toInt_eq_toNat_cond] at h
  split at h <;> omega

namespace EnvelopeCurve

theorem le_five {w : Word} (h : ¬ w > 5) : w = 0 ∨ w = 1 ∨ w = 2 ∨ w = 3 ∨ w = 4 ∨ w = 5 := by bv_omega

/-- An even value is the one of a rising curve. -/
theorem ofValue_rising {w : Word} (h : ¬ (w > 5 ∨ w &&& 1 ≠ 0)) : (ofValue w.toNat).Rising := by
  obtain ⟨hle, heven⟩ := not_or.1 h
  rcases le_five hle with rfl | rfl | rfl | rfl | rfl | rfl
  · exact .inl rfl
  · exact absurd (by decide) heven
  · exact .inr (.inl rfl)
  · exact absurd (by decide) heven
  · exact .inr (.inr rfl)
  · exact absurd (by decide) heven

theorem ofValue_falling {w : Word} (h : ¬ (w > 5 ∨ w &&& 1 ≠ 1)) : (ofValue w.toNat).Falling := by
  obtain ⟨hle, hodd⟩ := not_or.1 h
  rcases le_five hle with rfl | rfl | rfl | rfl | rfl | rfl
  · exact absurd (by decide) hodd
  · exact .inl rfl
  · exact absurd (by decide) hodd
  · exact .inr (.inl rfl)
  · exact absurd (by decide) hodd
  · exact .inr (.inr rfl)

end EnvelopeCurve

def SasCore.Bounded (core : SasCore) : Prop := ∀ i, (core.voices i).Bounded

def SasCores.Bounded (cores : SasCores) : Prop := ∀ address core, cores address = some core → core.Bounded

namespace SasCores
variable {cores : SasCores}

theorem Bounded.update (h : cores.Bounded) (address : Word) {core : SasCore} (hcore : core.Bounded) :
    Bounded (Function.update cores address (some core)) := by
  intro address' core' hcore'
  by_cases haddress : address' = address
  · rw [haddress, Function.update_self] at hcore'
    exact Option.some.inj hcore' ▸ hcore
  · rw [Function.update_of_ne haddress] at hcore'
    exact h address' core' hcore'

theorem Bounded.updateCore (h : cores.Bounded) (address : Word) {function : SasCore → SasCore × Word}
    (hfunction : ∀ core : SasCore, core.Bounded → (function core).1.Bounded) :
    (cores.updateCore address function).1.Bounded := by
  rw [SasCores.updateCore]
  split
  · exact h
  next hcore => exact h.update _ (hfunction _ (h _ _ hcore))

theorem Bounded.updateVoice (h : cores.Bounded) (address : Word) (index : Int) {function : Voice → Voice × Word}
    (hfunction : ∀ v : Voice, v.Bounded → (function v).1.Bounded) :
    (cores.updateVoice address index function).1.Bounded := by
  rw [SasCores.updateVoice]
  split
  · refine h.updateCore _ fun core hcore i => ?_
    dsimp only
    rw [Function.update_apply]
    exact iteInduction (fun _ => hfunction _ (hcore _)) fun _ => hcore i
  · exact h

theorem Bounded.validateCore (h : cores.Bounded) (address : Word) : (cores.validateCore address).1.Bounded :=
  h.updateCore _ fun _ hcore => hcore

theorem Bounded.setVoice (h : cores.Bounded) (address : Word) (index : Int) (m : GuestMemory) (sourceAddress : Word)
    (sourceSize loop : Int) : (cores.setVoice address index m sourceAddress sourceSize loop).1.Bounded := by
  unfold SasCores.setVoice
  split_ifs
  · exact h
  · exact h
  · exact h
  split
  · exact h
  · dsimp only
    split_ifs
    · exact h
    · exact h.updateVoice _ _ fun v hv => hv.setVag ..

theorem Bounded.setVoicePcm (h : cores.Bounded) (address : Word) (index : Int) (m : GuestMemory)
    (sourceAddress : Word) (sampleCount loopStart : Int) :
    (cores.setVoicePcm address index m sourceAddress sampleCount loopStart).1.Bounded := by
  unfold SasCores.setVoicePcm
  split_ifs
  · exact h
  · exact h
  · exact h
  split
  · exact h
  · exact h.updateVoice _ _ fun v hv => hv.setPcm ..

theorem Bounded.initializeCore (h : cores.Bounded) (m : GuestMemory) (coreAddress grain voices outputMode
    sampleRate : Word) : (cores.initializeCore m coreAddress grain voices outputMode sampleRate).1.Bounded := by
  unfold SasCores.initializeCore
  dsimp only
  split_ifs
  · exact h
  · exact h
  · exact h
  · exact h
  · exact h
  · exact h.update _ fun _ => Voice.bounded_default

theorem Bounded.mix (h : cores.Bounded) (m : GuestMemory) (coreAddress outputAddress : Word)
    (preserve : Option (Int × Int)) : (cores.mix m coreAddress outputAddress preserve).1.Bounded := by
  unfold SasCores.mix
  split
  · exact h
  next hcore =>
  dsimp only
  split
  · exact h
  · exact h.update _ fun i => (h _ _ hcore i).mixVoice _

/-- A call that is refused under a condition. -/
theorem Bounded.unless (h : cores.Bounded) {refused : Prop} [Decidable refused] {s : State} {out : SasCores × State}
    (hout : ¬ refused → out.1.Bounded) : (if refused then (cores, s) else out).1.Bounded := by
  split_ifs with hrefused
  · exact h
  · exact hout hrefused

theorem Bounded.setAdsr (h : cores.Bounded) (s : State) : (cores.sceSasSetADSR s).1.Bounded := by
  refine h.unless fun hvalid => ?_
  simp only [not_or, not_and] at hvalid
  obtain ⟨hattack, hdecay, hsustain, hrelease⟩ := hvalid
  exact h.updateVoice _ _ fun v hv => hv.setAdsrRates (fun hm => toNat_lt_of_toInt (hattack hm))
    (fun hm => toNat_lt_of_toInt (hdecay hm)) (fun hm => toNat_lt_of_toInt (hsustain hm))
    fun hm => toNat_lt_of_toInt (hrelease hm)

theorem Bounded.setAdsrMode (h : cores.Bounded) (s : State) : (cores.sceSasSetADSRmode s).1.Bounded := by
  refine h.unless fun hvalid => ?_
  rw [not_or, not_or, not_or, not_and, not_and, not_and, not_and] at hvalid
  obtain ⟨hattack, hdecay, -, hrelease⟩ := hvalid
  exact h.updateVoice _ _ fun v hv => hv.setAdsrCurves (fun hm => EnvelopeCurve.ofValue_rising (hattack hm))
    (fun hm => EnvelopeCurve.ofValue_falling (hdecay hm)) fun hm => EnvelopeCurve.ofValue_falling (hrelease hm)

/-- No call takes a voice out of its bounds. -/
theorem Bounded.run (h : cores.Bounded) (call : SasCall) (s : State) : (call.run cores s).1.Bounded := by
  cases call with
  | core => exact h.mix _ _ _ _
  | coreWithMix => exact h.unless fun _ => h.mix _ _ _ _
  | getAllEnvelopeHeights =>
    change (sceSasGetAllEnvelopeHeights cores s).1.Bounded
    unfold sceSasGetAllEnvelopeHeights
    split
    · exact h
    split <;> exact h
  | getEndFlag => exact h.updateCore _ fun _ hcore => hcore
  | getEnvelopeHeight => exact h.updateVoice _ _ fun _ hv => hv
  | getGrain => exact h.updateCore _ fun _ hcore => hcore
  | getOutputmode => exact h.updateCore _ fun _ hcore => hcore
  | getPauseFlag => exact h.updateCore _ fun _ hcore => hcore
  | init => exact h.initializeCore _ _ _ _ _ _
  | revEVOL => exact h.unless fun _ => h.validateCore _
  | revParam => exact h.unless fun _ => h.unless fun _ => h.validateCore _
  | revType => exact h.unless fun _ => h.validateCore _
  | revVON => exact h.validateCore _
  | setADSR => exact h.setAdsr s
  | setADSRmode => exact h.setAdsrMode s
  | setGrain => exact h.unless fun _ => h.updateCore _ fun _ hcore => hcore
  | setKeyOff => exact h.updateVoice _ _ fun _ hv => hv.keyOff
  | setKeyOn => exact h.updateVoice _ _ fun _ hv => hv.keyOn
  | setNoise => exact h.unless fun _ => h.updateVoice _ _ fun _ hv => ⟨hv.height, hv.envelope, hv.volume⟩
  | setOutputmode => exact h.unless fun _ => h.updateCore _ fun _ hcore => hcore
  | setPause =>
    refine h.updateCore _ fun core hcore i => iteInduction (fun _ => ?_) fun _ => hcore i
    exact ⟨(hcore i).height, (hcore i).envelope, (hcore i).volume⟩
  | setPitch => exact h.unless fun _ => h.updateVoice _ _ fun _ hv => ⟨hv.height, hv.envelope, hv.volume⟩
  | setSL =>
    refine h.unless fun hlevel => h.updateVoice _ _ fun _ hv => hv.setSustainLevel ?_
    exact Nat.le_of_not_lt hlevel
  | setSimpleADSR => exact h.unless fun _ => h.updateVoice _ _ fun _ hv => hv.setSimpleAdsr ..
  | setVoice => exact h.setVoice _ _ _ _ _ _
  | setVoicePCM => exact h.setVoicePcm _ _ _ _ _ _
  | setVolume =>
    refine h.unless fun hvolume => ?_
    simp only [not_or, not_not] at hvolume
    obtain ⟨hleft, hright, heffectLeft, heffectRight⟩ := hvolume
    refine h.updateVoice _ _ fun _ hv => ⟨hv.height, hv.envelope, fun side => ?_⟩
    match side with
    | 0 => exact hleft
    | 1 => exact hright
    | 2 => exact heffectLeft
    | _ + 3 => exact heffectRight

theorem reach_bounded (calls : List (SasCall × State)) : (reach calls).Bounded := by
  rw [reach]
  refine List.foldlRecOn calls _ (fun _ _ h => nomatch h) fun cores h call _ => h.run call.1 call.2

end SasCores

/-! ### A guest -/

/-- The arguments of a call, in a memory of 8 KiB whose bytes are zero. -/
def sasGuest (arguments : List Word) : State :=
  { gpr := fun r => if r < 4 then 0 else arguments.getD (r.toNat - 4) 0
    mem := { memory := ⟨some fun _ => 0, 0x2000⟩, memoryBase := 0x08800000 } }

/-- The arguments of a call, in a memory with samples in it. -/
def trioGuest (arguments : List Word) : State :=
  { sasGuest arguments with
    mem :=
      { memory := ⟨some fun i => if i % 2 = 0 then 0 else BitVec.ofNat 8 (0x40 + 7 * i), 0x2000⟩
        memoryBase := 0x08800000 } }

/-- Three voices are keyed on and mixed. The first comes to its decay, the second is keyed off, to be released along the
exponential curve, and the third is in its attack along the bent curve. -/
def trioCalls : List (SasCall × State) :=
  [(.init, trioGuest [0x08800000, 64, 32, 1, 44100]),
    (.setVoicePCM, trioGuest [0x08800000, 0, 0x08801000, 3, 0]),
    (.setADSR, trioGuest [0x08800000, 0, 15, 0x30000000, 0x100000, 0x1000, 0x1000]),
    (.setADSRmode, trioGuest [0x08800000, 0, 15, 2, 3, 3, 3]),
    (.setSL, trioGuest [0x08800000, 0, 0x20000000]),
    (.setVolume, trioGuest [0x08800000, 0, 0x1000, 0xfffff000, 0x800, 0]),
    (.setKeyOn, trioGuest [0x08800000, 0]),
    (.setVoicePCM, trioGuest [0x08800000, 1, 0x08801100, 200, 0xffffffff]),
    (.setPitch, trioGuest [0x08800000, 1, 0x1800]),
    (.setADSR, trioGuest [0x08800000, 1, 9, 0x20000000, 0, 0, 0x40000000]),
    (.setADSRmode, trioGuest [0x08800000, 1, 8, 0, 0, 0, 3]),
    (.setKeyOn, trioGuest [0x08800000, 1]),
    (.setVoicePCM, trioGuest [0x08800000, 2, 0x08801400, 5, 2]),
    (.setADSR, trioGuest [0x08800000, 2, 1, 0x400000]),
    (.setADSRmode, trioGuest [0x08800000, 2, 1, 2]),
    (.setKeyOn, trioGuest [0x08800000, 2]),
    (.core, trioGuest [0x08800000, 0x08801800]),
    (.setKeyOff, trioGuest [0x08800000, 1])]

/-- What a voice plays, and where its envelope is. -/
def Voice.stage (v : Voice) : Bool × EnvelopePhase × Nat := (v.playing, v.envelopePhase, v.envelopeHeight)

end Psprism
