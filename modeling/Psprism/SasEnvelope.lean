import Psprism.SasBounds

/-!
# Progress of the SAS envelopes

A step of an attack raises an envelope and a step of a release lowers it, whatever calls have been made, so that a voice
whose key is off ends (`envelope_progress`). The direct curve makes no such steps: it sets the height to the rate, and a
release along it goes on for as long as there are samples.
-/

namespace Psprism

section
variable {height rate : Nat} {curve : EnvelopeCurve}

/-! ### One step -/

/-- The exponential curves move by less than a quarter of the rate. -/
theorem exponent_delta (h : height ≤ maxEnvelopeHeight) (rate : Nat) :
    4 * ((envelopeDistance height * rate) >>> 32) ≤ rate ∧
      (0 < height → 0 < rate → 4 * ((envelopeDistance height * rate) >>> 32) < rate) := by
  rw [maxEnvelopeHeight] at h
  have hdistance : envelopeDistance height = 2 ^ 30 - height := by
    rw [envelopeDistance, maxEnvelopeHeight]
    omega
  have hdelta : (envelopeDistance height * rate) >>> 32 * 2 ^ 32 ≤ envelopeDistance height * rate := by
    rw [Nat.shiftRight_eq_div_pow]
    exact Nat.div_mul_le_self _ _
  generalize (envelopeDistance height * rate) >>> 32 = delta at hdelta ⊢
  refine ⟨?_, fun hheight hrate => ?_⟩
  · have hproduct : envelopeDistance height * rate ≤ 2 ^ 30 * rate := Nat.mul_le_mul_right rate (by omega)
    omega
  · have hproduct : envelopeDistance height * rate < 2 ^ 30 * rate := Nat.mul_lt_mul_of_pos_right (by omega) hrate
    omega

/-- A rising curve rises, if it is not the upper quarter of the bent one at a rate below four. -/
theorem walkEnvelopeCurve_rises (hcurve : curve.Rising) (hrate : rate ≠ 0)
    (hbent : curve = .linearBent → 4 ≤ rate ∨ height ≤ maxEnvelopeHeight * 3 / 4) (h : height < maxEnvelopeHeight) :
    height < walkEnvelopeCurve height curve rate := by
  rcases hcurve with rfl | rfl | rfl
  · exact Nat.lt_min.2 ⟨h, by omega⟩
  · refine Nat.lt_min.2 ⟨h, ?_⟩
    rcases hbent rfl with hfour | hlow
    · split_ifs <;> omega
    · rw [if_pos hlow]
      omega
  · exact Nat.lt_min.2 ⟨h, by omega⟩

/-- A falling curve falls, if it is not the direct one. -/
theorem walkEnvelopeCurve_falls (hcurve : curve.Falling) (hdirect : curve ≠ .direct) (hrate : rate ≠ 0)
    (h : height ≤ maxEnvelopeHeight) : walkEnvelopeCurve height curve rate ≤ height - 1 := by
  rcases hcurve with rfl | rfl | rfl
  · rw [walkEnvelopeCurve]
    omega
  · obtain ⟨hle, hlt⟩ := exponent_delta h rate
    rw [walkEnvelopeCurve]
    generalize (envelopeDistance height * rate) >>> 32 = delta at hle hlt ⊢
    omega
  · exact absurd rfl hdirect

end

/-! ### A whole release -/

namespace Voice
variable {v w : Voice} {x : Int}

/-- The voices between two frames of a core that calls have made. -/
def Reached (v : Voice) : Prop :=
  ∃ calls address core i n, SasCores.reach calls address = some core ∧ n ≤ core.grain ∧
    (n = 0 ∨ (core.voices i).playing = true ∧ (core.voices i).paused = false ∧ (core.voices i).samples ≠ []) ∧
    v = (mixFrames n (core.voices i)).2

theorem Reached.bounded (h : v.Reached) : v.Bounded := by
  obtain ⟨calls, address, core, i, n, hcore, -, -, rfl⟩ := h
  exact (SasCores.reach_bounded calls address core hcore i).mixFrames n

theorem advanceEnvelope_attack (hconfigured : v.envelopeConfigured = true) (hphase : v.envelopePhase = .attack) :
    v.advanceEnvelope.envelopeHeight = walkEnvelopeCurve v.envelopeHeight v.attackCurve v.attackRate := by
  simp [advanceEnvelope, hconfigured, hphase]

theorem advanceEnvelope_release (hconfigured : v.envelopeConfigured = true) (hphase : v.envelopePhase = .release) :
    let height := walkEnvelopeCurve v.envelopeHeight v.releaseCurve v.releaseRate
    (height = 0 → v.advanceEnvelope.envelopeHeight = 0 ∧ v.advanceEnvelope.playing = false) ∧
      (height ≠ 0 → v.advanceEnvelope = { v with envelopeHeight := height }) := by
  intro height
  have hadvance : v.advanceEnvelope =
      if height = 0 then
        { v with
          envelopeHeight := 0, envelopePhase := .off, playing := false, on := false, remainingSamples := 0 }
      else { v with envelopeHeight := height } := by
    rw [advanceEnvelope, if_neg (by simp [hconfigured]), hphase]
  rw [hadvance]
  refine ⟨fun h => ?_, fun h => if_neg h⟩
  rw [if_pos h]
  exact ⟨rfl, rfl⟩

/-- A released voice that falls. -/
structure Releasing (v : Voice) : Prop where
  bounded : v.Bounded
  configured : v.envelopeConfigured = true
  phase : v.envelopePhase = .release
  rate : v.releaseRate ≠ 0
  curve : v.releaseCurve ≠ .direct

theorem Releasing.walk_le (h : v.Releasing) :
    walkEnvelopeCurve v.envelopeHeight v.releaseCurve v.releaseRate ≤ v.envelopeHeight - 1 :=
  walkEnvelopeCurve_falls h.bounded.envelope.releaseCurve h.curve h.rate h.bounded.height

theorem Releasing.advanceEnvelope_le (h : v.Releasing) :
    v.advanceEnvelope.envelopeHeight ≤ v.envelopeHeight - 1 := by
  obtain ⟨hzero, hfall⟩ := advanceEnvelope_release h.configured h.phase
  by_cases hheight : walkEnvelopeCurve v.envelopeHeight v.releaseCurve v.releaseRate = 0
  · rw [(hzero hheight).1]
    exact Nat.zero_le _
  · rw [hfall hheight]
    exact h.walk_le

/-- With a frame the voice ends, or it goes on at a lower height. -/
theorem Releasing.frame (h : v.Releasing) (hframe : v.frame = some (x, w)) :
    w.playing = false ∨ w.Releasing ∧ w.envelopeHeight < v.envelopeHeight := by
  have hw := h.bounded.frame hframe
  obtain ⟨position, index, heq⟩ := frame_eq_some hframe
  obtain ⟨-, rfl⟩ := Prod.mk.inj heq
  have hmoved : Releasing { v with position } :=
    ⟨⟨h.bounded.height, h.bounded.envelope, h.bounded.volume⟩, h.configured, h.phase, h.rate, h.curve⟩
  obtain ⟨hzero, hfall⟩ := advanceEnvelope_release hmoved.configured hmoved.phase
  by_cases hheight : walkEnvelopeCurve v.envelopeHeight v.releaseCurve v.releaseRate = 0
  · exact Or.inl (hzero hheight).2
  · have hadvance := hfall hheight
    have hle := h.walk_le
    refine Or.inr ⟨⟨hw, ?_, ?_, ?_, ?_⟩, ?_⟩ <;> dsimp only <;> rw [hadvance]
    · exact h.configured
    · exact h.phase
    · exact h.rate
    · exact h.curve
    · dsimp only
      omega

/-- A released voice ends, within as many frames as its height and one. -/
theorem Releasing.ends (h : v.Releasing) : ∃ n ≤ v.envelopeHeight + 1, (mixFrames n v).2.playing = false := by
  induction hheight : v.envelopeHeight using Nat.strong_induction_on generalizing v with
  | _ height ih =>
    cases hframe : v.frame with
    | none =>
      refine ⟨1, Nat.le_add_left 1 height, ?_⟩
      rw [mixFrames_of_none hframe]
      rfl
    | some out =>
      obtain ⟨x, w⟩ := out
      rcases h.frame hframe with hplaying | ⟨hw, hlt⟩
      · refine ⟨1, Nat.le_add_left 1 height, ?_⟩
        rw [mixFrames_of_some hframe]
        exact hplaying
      · obtain ⟨n, hn, hend⟩ := ih w.envelopeHeight (hheight ▸ hlt) hw rfl
        refine ⟨n + 1, by omega, ?_⟩
        rw [mixFrames_of_some hframe]
        exact hend

/-- A voice that loops has a frame. -/
theorem frame_of_loop (h : v.loop = true) : ∃ position index, v.frame = some (playFrame { v with position } index) := by
  rw [Voice.frame]
  split_ifs with hindex hloop
  · exact ⟨v.position, _, rfl⟩
  · simp [h] at hloop
  · exact ⟨_, _, rfl⟩

theorem advanceEnvelope_direct (hconfigured : v.envelopeConfigured = true) (hphase : v.envelopePhase = .release)
    (hrate : v.releaseRate ≠ 0) (hcurve : v.releaseCurve = .direct) :
    v.advanceEnvelope = { v with envelopeHeight := min v.releaseRate maxEnvelopeHeight } := by
  have hwalk : walkEnvelopeCurve v.envelopeHeight v.releaseCurve v.releaseRate = min v.releaseRate maxEnvelopeHeight := by
    rw [hcurve, walkEnvelopeCurve]
  rw [← hwalk]
  refine (advanceEnvelope_release hconfigured hphase).2 ?_
  rw [hwalk]
  exact Nat.ne_of_gt (Nat.lt_min.2 ⟨Nat.pos_of_ne_zero hrate, by decide⟩)

/-- A release along the direct curve of a voice that loops goes on. -/
theorem mixFrames_direct (hconfigured : v.envelopeConfigured = true) (hphase : v.envelopePhase = .release)
    (hrate : v.releaseRate ≠ 0) (hcurve : v.releaseCurve = .direct) (hloop : v.loop = true) (n : Nat) :
    (Voice.mixFrames n v).2.playing = v.playing := by
  induction n generalizing v with
  | zero => rfl
  | succ n ih =>
    obtain ⟨position, index, hframe⟩ := frame_of_loop hloop
    have hadvance := advanceEnvelope_direct (v := { v with position }) hconfigured hphase hrate hcurve
    rw [Voice.mixFrames, hframe]
    dsimp only
    rw [playFrame, hadvance]
    exact ih hconfigured hphase hrate hcurve hloop

/-- The attack of a voice that loops, along the linear curve. -/
theorem mixFrames_linear (hconfigured : v.envelopeConfigured = true) (hphase : v.envelopePhase = .attack)
    (hcurve : v.attackCurve = .linearIncrease) (hloop : v.loop = true) (n : Nat)
    (h : v.envelopeHeight + n * v.attackRate < maxEnvelopeHeight) :
    ∃ position, (Voice.mixFrames n v).2 =
      { v with envelopeHeight := v.envelopeHeight + n * v.attackRate, position } := by
  induction n generalizing v with
  | zero =>
    refine ⟨v.position, ?_⟩
    rw [Nat.zero_mul]
    rfl
  | succ n ih =>
    rw [Nat.succ_mul] at h
    obtain ⟨position, index, hframe⟩ := frame_of_loop hloop
    have hadvance : advanceEnvelope { v with position } =
        { v with position, envelopeHeight := v.envelopeHeight + v.attackRate } := by
      have hheight : v.envelopeHeight + v.attackRate < maxEnvelopeHeight := by omega
      rw [Voice.advanceEnvelope, if_neg (by simp [hconfigured]), hphase]
      dsimp only
      rw [hcurve, walkEnvelopeCurve, Nat.min_eq_right hheight.le, if_neg (Nat.not_le_of_lt hheight), ← hcurve, ← hphase]
    rw [Voice.mixFrames, hframe]
    dsimp only
    rw [playFrame, hadvance]
    obtain ⟨position', hrest⟩ := ih (v := { v with
      position := position + v.pitch, envelopeHeight := v.envelopeHeight + v.attackRate }) hconfigured hphase hcurve hloop
        (by dsimp only; omega)
    refine ⟨position', hrest.trans ?_⟩
    dsimp only
    rw [Nat.succ_mul, Nat.add_assoc, Nat.add_comm (n * v.attackRate)]

/-- The steps of an attack and of a release. -/
structure Progresses (v : Voice) : Prop where
  attack : v.envelopePhase = .attack → v.attackRate ≠ 0 →
    (v.attackCurve = .linearBent → 4 ≤ v.attackRate ∨ v.envelopeHeight ≤ maxEnvelopeHeight * 3 / 4) →
      v.envelopeHeight < maxEnvelopeHeight → v.envelopeHeight < v.advanceEnvelope.envelopeHeight
  release : v.envelopePhase = .release → v.releaseRate ≠ 0 → v.releaseCurve ≠ .direct →
    (0 < v.envelopeHeight → v.advanceEnvelope.envelopeHeight < v.envelopeHeight) ∧
      ∃ n ≤ v.envelopeHeight + 1, (Voice.mixFrames n v).2.playing = false
  direct : v.envelopePhase = .release → v.releaseRate ≠ 0 → v.releaseCurve = .direct →
    v.advanceEnvelope = { v with envelopeHeight := min v.releaseRate maxEnvelopeHeight }

end Voice

/-- Of a voice whose envelope a call has set, whatever calls came before: a step of the attack raises the height until
the maximum, but where the bent curve takes a quarter of a rate below four; a step of a release with a rate lowers it
until zero, where the voice ends, but along the direct curve, which sets the height to the rate and goes on. -/
theorem envelope_progress {v : Voice} (hv : v.Reached) (hconfigured : v.envelopeConfigured = true) : v.Progresses := by
  have hbounded := hv.bounded
  refine ⟨fun hphase hrate hbent hheight => ?_, fun hphase hrate hcurve => ?_, fun hphase hrate hcurve => ?_⟩
  · rw [Voice.advanceEnvelope_attack hconfigured hphase]
    exact walkEnvelopeCurve_rises hbounded.envelope.attackCurve hrate hbent hheight
  · have hreleasing : v.Releasing := ⟨hbounded, hconfigured, hphase, hrate, hcurve⟩
    refine ⟨fun hheight => ?_, hreleasing.ends⟩
    have := hreleasing.advanceEnvelope_le
    omega
  · exact Voice.advanceEnvelope_direct hconfigured hphase hrate hcurve

/-- The calls that key a voice on and off, to be released along the direct curve. -/
def directCalls : List (SasCall × State) :=
  [(.init, sasGuest [0x08800000, 64, 32, 0, 44100]),
    (.setVoicePCM, sasGuest [0x08800000, 0, 0x08801000, 1, 0]),
    (.setADSR, sasGuest [0x08800000, 0, 9, 1, 0, 0, 1]),
    (.setADSRmode, sasGuest [0x08800000, 0, 8, 0, 0, 0, 5]),
    (.setKeyOn, sasGuest [0x08800000, 0]),
    (.setKeyOff, sasGuest [0x08800000, 0])]

def directVoice : Voice :=
  { playing := true, loop := true, requestedLoop := true, type := .pcm, sourceAddress := 0x08801000, sourceSize := 1
    remainingSamples := 1, envelopeConfigured := true, envelopePhase := .release, attackRate := 1, releaseRate := 1
    releaseCurve := .direct, samples := [0] }

theorem reach_direct : ∃ core, SasCores.reach directCalls 0x08800000 = some core ∧ core.grain = 64 ∧
    core.voices ⟨0, by decide⟩ = directVoice :=
  ⟨_, rfl, rfl, rfl⟩

/-- The voice after some frames of the next mix. -/
theorem directVoice_reached {n : Nat} (hn : n ≤ 64) : (Voice.mixFrames n directVoice).2.Reached := by
  obtain ⟨core, hcore, hgrain, hvoice⟩ := reach_direct
  refine ⟨directCalls, 0x08800000, core, ⟨0, by decide⟩, n, hcore, hn.trans_eq hgrain.symm, ?_, ?_⟩
  · rw [hvoice]
    exact Or.inr ⟨rfl, rfl, List.cons_ne_nil _ _⟩
  · rw [hvoice]

/-- A voice after the first two frames of the next mix. -/
def SasCore.voiceAhead (core : SasCore) (i : Fin maxVoices) : Voice := (Voice.mixFrames 2 (core.voices i)).2

/-- An attack along the bent curve, a release along the exponential curve and one along the direct curve, between two
frames of a mix. -/
theorem envelope_progress_trio :
    (∃ v : Voice, v.stage = (true, .attack, 0x10800000) ∧ v.attackCurve = .linearBent ∧
      v.envelopeHeight < v.advanceEnvelope.envelopeHeight) ∧
    (∃ v : Voice, v.stage = (true, .release, 0x24000000) ∧ v.releaseCurve = .exponentDecrease ∧
      v.advanceEnvelope.envelopeHeight < v.envelopeHeight ∧
        ∃ n ≤ v.envelopeHeight + 1, (Voice.mixFrames n v).2.playing = false) ∧
    ∃ v : Voice, v.stage = (true, .release, 1) ∧ v.releaseCurve = .direct ∧
      v.advanceEnvelope = { v with envelopeHeight := 1 } := by
  have htrio : ((SasCores.reach trioCalls 0x08800000).any fun core => core.grain = 64 ∧
      (∀ i : Fin maxVoices, i.val < 3 → (core.voices i).playing = true ∧ (core.voices i).paused = false ∧
        (core.voices i).samples ≠ [] ∧ (core.voiceAhead i).envelopeConfigured = true) ∧
      ((core.voiceAhead ⟨2, by decide⟩).stage = (true, .attack, 0x10800000) ∧
        (core.voiceAhead ⟨2, by decide⟩).attackCurve = .linearBent ∧
        (core.voiceAhead ⟨2, by decide⟩).attackRate = 0x400000) ∧
      (core.voiceAhead ⟨1, by decide⟩).stage = (true, .release, 0x24000000) ∧
        (core.voiceAhead ⟨1, by decide⟩).releaseCurve = .exponentDecrease ∧
        (core.voiceAhead ⟨1, by decide⟩).releaseRate = 0x40000000) = true := by
    decide +kernel
  obtain ⟨core, hcore, htrio⟩ := (Option.any_eq_true _ _).1 htrio
  obtain ⟨hgrain, hvoices, ⟨hattack, hbent, hattackRate⟩, hrelease, hexponent, hreleaseRate⟩ := of_decide_eq_true htrio
  have hreached (i : Fin maxVoices) (hi : i.val < 3) : (core.voiceAhead i).Reached :=
    ⟨trioCalls, 0x08800000, core, i, 2, hcore, by omega,
      Or.inr ⟨(hvoices i hi).1, (hvoices i hi).2.1, (hvoices i hi).2.2.1⟩, rfl⟩
  have hprogresses (i : Fin maxVoices) (hi : i.val < 3) : (core.voiceAhead i).Progresses :=
    envelope_progress (hreached i hi) (hvoices i hi).2.2.2
  refine ⟨⟨_, hattack, hbent, ?_⟩, ⟨_, hrelease, hexponent, ?_⟩, _, rfl, rfl,
    (envelope_progress (directVoice_reached (n := 1) (by decide)) rfl).direct rfl (by decide) rfl⟩
  · have hheight : (core.voiceAhead ⟨2, by decide⟩).envelopeHeight = 0x10800000 := congrArg (·.2.2) hattack
    refine (hprogresses ⟨2, by decide⟩ (by decide)).attack (congrArg (·.2.1) hattack) ?_ (fun _ => Or.inl ?_) ?_
    · rw [hattackRate]
      decide
    · rw [hattackRate]
      decide
    · rw [hheight]
      decide
  · have hheight : (core.voiceAhead ⟨1, by decide⟩).envelopeHeight = 0x24000000 := congrArg (·.2.2) hrelease
    have hfalls := (hprogresses ⟨1, by decide⟩ (by decide)).release (congrArg (·.2.1) hrelease)
      (by rw [hreleaseRate]; decide) (by rw [hexponent]; decide)
    exact ⟨hfalls.1 (by rw [hheight]; decide), hfalls.2⟩

/-- The calls that set the bent curve and a rate of one in an attack, above three quarters of the maximum. -/
def bentCalls : List (SasCall × State) :=
  [(.init, sasGuest [0x08800000, 64, 32, 0, 44100]),
    (.setVoicePCM, sasGuest [0x08800000, 0, 0x08801000, 1, 0]),
    (.setADSR, sasGuest [0x08800000, 0, 1, 0xc00001]),
    (.setKeyOn, sasGuest [0x08800000, 0]),
    (.core, sasGuest [0x08800000, 0x08801000]),
    (.setADSR, sasGuest [0x08800000, 0, 1, 1]),
    (.setADSRmode, sasGuest [0x08800000, 0, 1, 2])]

/-- The voice before the mix. -/
def linearVoice : Voice :=
  { playing := true, on := true, loop := true, requestedLoop := true, type := .pcm, sourceAddress := 0x08801000
    sourceSize := 1, remainingSamples := 1, envelopeConfigured := true, envelopePhase := .attack
    attackRate := 0xc00001, samples := [0] }

theorem reach_bent : ∃ core, SasCores.reach bentCalls 0x08800000 = some core ∧ core.voices ⟨0, by decide⟩ =
    (Voice.setAdsrCurves 1 2 0 0 0 (Voice.setAdsrRates 1 1 0 0 0 (linearVoice.mixVoice 64).2).1).1 :=
  ⟨_, rfl, rfl⟩

/-- The height stays where it is in an attack along the bent curve at a rate of one, and in a release along the direct
one, which goes on. -/
theorem envelope_stays :
    (∃ v : Voice, v.Reached ∧ v.envelopeConfigured = true ∧ v.envelopePhase = .attack ∧ v.attackRate ≠ 0 ∧
      v.envelopeHeight < maxEnvelopeHeight ∧ ¬ v.envelopeHeight < v.advanceEnvelope.envelopeHeight) ∧
    ∃ v : Voice, v.Reached ∧ v.envelopeConfigured = true ∧ v.envelopePhase = .release ∧ v.releaseRate ≠ 0 ∧
      0 < v.envelopeHeight ∧ ¬ v.advanceEnvelope.envelopeHeight < v.envelopeHeight ∧
        ∀ n, (Voice.mixFrames n v).2.playing = true := by
  constructor
  · obtain ⟨core, hcore, hvoice⟩ := reach_bent
    obtain ⟨position, hlinear⟩ := Voice.mixFrames_linear (v := linearVoice) rfl rfl rfl rfl 64 (by decide)
    have hmix : (linearVoice.mixVoice 64).2 =
        { linearVoice with envelopeHeight := 0x30000040, position, remainingSamples := 1 - (position >>> 12) } := by
      rw [Voice.mixVoice, if_neg (by decide)]
      dsimp only
      rw [hlinear]
      rfl
    rw [hmix] at hvoice
    refine ⟨_, ⟨bentCalls, 0x08800000, core, ⟨0, by decide⟩, 0, hcore, Nat.zero_le _, Or.inl rfl, rfl⟩, ?_⟩
    rw [Voice.mixFrames, hvoice]
    have hlow : 0x30000040 < maxEnvelopeHeight := by decide
    have hstays : ¬ 0x30000040 < walkEnvelopeCurve 0x30000040 .linearBent 1 := by decide
    exact ⟨rfl, rfl, Nat.one_ne_zero, hlow, hstays⟩
  · refine ⟨_, directVoice_reached (n := 1) (by decide), rfl, rfl, by decide, by decide, by decide, fun n => ?_⟩
    exact Voice.mixFrames_direct rfl rfl (by decide) rfl rfl n

end Psprism
