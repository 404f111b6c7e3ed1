import Mathlib.Algebra.BigOperators.Fin
import Mathlib.Algebra.Order.Ring.Abs
import Mathlib.Algebra.Order.Ring.Int
import Psprism.SasBounds

/-!
# No overflow in a mix

`advance_envelope` and `mix` with every signed operation checked, the sums in a buffer as the loops make them: for a core
that any calls may have made, the checked mix comes to what `SasCore.mix` says (`sas_bounded`).
-/

namespace Psprism

/-! ### Checked arithmetic -/

/-- A signed result of 32 bits; `none` is an overflow. -/
def checkedInt32 (x : Int) : Option Int := if -2 ^ 31 ≤ x ∧ x < 2 ^ 31 then some x else none

def checkedInt64 (x : Int) : Option Int := if -2 ^ 63 ≤ x ∧ x < 2 ^ 63 then some x else none

theorem checkedInt32_bind {α : Type} {x : Int} (h : -2 ^ 31 ≤ x) (h' : x < 2 ^ 31) (f : Int → Option α) :
    (checkedInt32 x >>= f) = f x := by
  rw [checkedInt32, if_pos ⟨h, h'⟩]
  rfl

theorem checkedInt64_bind {α : Type} {x : Int} (h : -2 ^ 63 ≤ x) (h' : x < 2 ^ 63) (f : Int → Option α) :
    (checkedInt64 x >>= f) = f x := by
  rw [checkedInt64, if_pos ⟨h, h'⟩]
  rfl

/-- The signed arithmetic of `walk_envelope_curve` is that of one curve. -/
def walkEnvelopeCurveChecked (height : Nat) (curve : EnvelopeCurve) (rate : Nat) : Option Nat :=
  if curve = .exponentDecrease then do
    let height' ← checkedInt64 height
    let delta ← checkedInt64 ((envelopeDistance height * rate) >>> 32 : Nat)
    let reduction ← checkedInt64 ((rate + 3) / 4 : Nat)
    let sum ← checkedInt64 (height' + delta)
    let next ← checkedInt64 (sum - reduction)
    return (max 0 (min next maxEnvelopeHeight)).toNat
  else some (walkEnvelopeCurve height curve rate)

namespace Voice

def advanceEnvelopeChecked (v : Voice) : Option Voice :=
  if !v.envelopeConfigured then some { v with envelopeHeight := maxEnvelopeHeight }
  else
    match v.envelopePhase with
    | .attack =>
      (walkEnvelopeCurveChecked v.envelopeHeight v.attackCurve v.attackRate).map fun height =>
        { v with
          envelopeHeight := height
          envelopePhase := if height ≥ maxEnvelopeHeight then .decay else .attack }
    | .decay =>
      (walkEnvelopeCurveChecked v.envelopeHeight v.decayCurve v.decayRate).map fun height =>
        if height ≤ v.sustainLevel then { v with envelopeHeight := v.sustainLevel, envelopePhase := .sustain }
        else { v with envelopeHeight := height }
    | .sustain =>
      (walkEnvelopeCurveChecked v.envelopeHeight v.sustainCurve v.sustainRate).map fun height =>
        { v with envelopeHeight := height }
    | .release =>
      (walkEnvelopeCurveChecked v.envelopeHeight v.releaseCurve v.releaseRate).map fun height =>
        if height = 0 then
          { v with
            envelopeHeight := 0, envelopePhase := .off, playing := false, on := false, remainingSamples := 0 }
        else { v with envelopeHeight := height }
    | .off => some { v with envelopeHeight := 0 }

def playFrameChecked (v : Voice) (index : Nat) : Option (Int × Voice) := do
  let nextIndex :=
    if index + 1 < v.samples.length then index + 1 else if v.loop then v.loopIndex else index
  let fraction : Int := (v.position % 0x1000 : Nat)
  let difference ← checkedInt32 (v.sampleAt nextIndex - v.sampleAt index)
  let product ← checkedInt32 (difference * fraction)
  let interpolated ← checkedInt32 (v.sampleAt index + product >>> (12 : Nat))
  let v ← v.advanceEnvelopeChecked
  let scaled ← checkedInt64 (interpolated * v.envelopeHeight)
  let sample ← checkedInt32 (scaled >>> (30 : Nat))
  return (sample, { v with position := v.position + v.pitch })

/-- `some none` is a voice past its end. -/
def frameChecked (v : Voice) : Option (Option (Int × Voice)) :=
  let index := v.position >>> 12
  if index < v.samples.length then (v.playFrameChecked index).map some
  else if !v.loop then some none
  else (playFrameChecked { v with position := v.loopIndex <<< 12 } v.loopIndex).map some

end Voice

/-- `mix_buffer`, by frame and side. -/
abbrev MixBuffer := Nat → Nat → Int

def MixBuffer.set (mixed : MixBuffer) (frame side : Nat) (x : Int) : MixBuffer :=
  Function.update mixed frame (Function.update (mixed frame) side x)

namespace Voice

/-- A frame of the voice, added to one side. -/
def addSide (v : Voice) (frame : Nat) (sample : Int) (mixed : MixBuffer) (side : Nat) : Option MixBuffer := do
  let product ← checkedInt32 (sample * v.volume side)
  let sum ← checkedInt64 (mixed frame side + product >>> (12 : Nat))
  return mixed.set frame side sum

def addSample (v : Voice) (channels frame : Nat) (sample : Int) (mixed : MixBuffer) : Option MixBuffer :=
  (List.range channels).foldlM (v.addSide frame sample) mixed

def mixFramesChecked (channels : Nat) : Nat → Nat → Voice → MixBuffer → Option (MixBuffer × Voice)
  | _, 0, v, mixed => some (mixed, v)
  | frame, n + 1, v, mixed => do
    match ← v.frameChecked with
    | none => return (mixed, v.finished)
    | some (sample, v) =>
      let mixed ← v.addSample channels frame sample mixed
      mixFramesChecked channels (frame + 1) n v mixed

def mixVoiceChecked (v : Voice) (grain channels : Nat) (mixed : MixBuffer) : Option (MixBuffer × Voice) :=
  if !v.playing ∨ v.paused ∨ v.samples.isEmpty then some (mixed, v)
  else
    (mixFramesChecked channels 0 grain v mixed).map fun out =>
      (out.1, { out.2 with remainingSamples := out.2.samples.length - (out.2.position >>> 12) })

end Voice

namespace SasCore
variable (core : SasCore)

def preserveSlot (output : PcmBuffer) (left right : Int) (mixed : MixBuffer) (slot : Nat × Nat) :
    Option MixBuffer := do
  let product ← checkedInt32
    ((output (core.outputIndex slot.1 slot.2)).toInt * if slot.2 % 2 = 0 then left else right)
  return mixed.set slot.1 slot.2 (product >>> (12 : Nat))

def preservedChecked (output : PcmBuffer) (preserve : Option (Int × Int)) : Option MixBuffer :=
  match preserve with
  | none => some fun _ _ => 0
  | some (left, right) => core.slots.foldlM (core.preserveSlot output left right) fun _ _ => 0

/-- A turn of the loop over the voices. -/
def mixTurn (out : MixBuffer × (Fin maxVoices → Voice)) (i : Fin maxVoices) :
    Option (MixBuffer × (Fin maxVoices → Voice)) := do
  let (mixed, voice) ← (out.2 i).mixVoiceChecked core.grain core.channels out.1
  return (mixed, Function.update out.2 i voice)

/-- `mix` with its loops over a buffer. -/
def mixChecked (output : PcmBuffer) (preserve : Option (Int × Int)) : Option (PcmBuffer × SasCore) := do
  let mixed ← core.preservedChecked output preserve
  let out ← (List.finRange maxVoices).foldlM core.mixTurn (mixed, core.voices)
  return (core.slots.foldl
    (fun output slot => Function.update output (core.outputIndex slot.1 slot.2)
      (clampSample (out.1 slot.1 slot.2))) output, { core with voices := out.2 })

end SasCore

/-! ### One frame -/

theorem abs_mul_le {a b c d : Int} (ha : |a| ≤ c) (hb : |b| ≤ d) : |a * b| ≤ c * d := by
  rw [abs_mul]
  exact mul_le_mul ha hb (abs_nonneg b) ((abs_nonneg a).trans ha)

/-- A product with a fraction of `2 ^ k` lies between the number and zero. -/
theorem shiftRight_between (a : Int) {b k : Nat} (h : b ≤ 2 ^ k) :
    min a 0 ≤ (a * b) >>> k ∧ (a * b) >>> k ≤ max a 0 := by
  have hpos : (0 : Int) < (2 ^ k : Nat) := Int.natCast_pos.2 (Nat.two_pow_pos k)
  have hb : (b : Int) ≤ (2 ^ k : Nat) := Int.ofNat_le.2 h
  have hb' : (0 : Int) ≤ b := Int.natCast_nonneg b
  rw [Int.shiftRight_eq_div_pow]
  rcases Int.le_total 0 a with ha | ha
  · rw [min_eq_right ha, max_eq_left ha]
    exact ⟨Int.ediv_nonneg (Int.mul_nonneg ha hb') hpos.le,
      Int.ediv_le_of_le_mul hpos (Int.mul_le_mul_of_nonneg_left hb ha)⟩
  · rw [min_eq_left ha, max_eq_right ha]
    exact ⟨Int.le_ediv_of_mul_le hpos (Int.mul_le_mul_of_nonpos_left ha hb),
      Int.ediv_le_of_le_mul hpos (by rw [Int.zero_mul]; exact Int.mul_nonpos_of_nonpos_of_nonneg ha hb')⟩

theorem walkEnvelopeCurveChecked_eq {height rate : Nat} (h : height ≤ maxEnvelopeHeight) (hrate : rate < 2 ^ 31)
    (curve : EnvelopeCurve) : walkEnvelopeCurveChecked height curve rate = some (walkEnvelopeCurve height curve rate) := by
  rw [walkEnvelopeCurveChecked]
  split_ifs with hcurve
  · subst hcurve
    have hdelta : (envelopeDistance height * rate) >>> 32 < 2 ^ 31 := by
      rw [Nat.shiftRight_eq_div_pow]
      refine Nat.div_lt_of_lt_mul ?_
      exact Nat.mul_lt_mul'' (Nat.mod_lt _ (Nat.two_pow_pos 32)) hrate
    rw [maxEnvelopeHeight] at h
    rw [walkEnvelopeCurve]
    generalize (envelopeDistance height * rate) >>> 32 = delta at hdelta ⊢
    have hreduction : (rate + 3) / 4 < 2 ^ 31 := by omega
    generalize (rate + 3) / 4 = reduction at hreduction ⊢
    rw [checkedInt64_bind (by omega) (by omega), checkedInt64_bind (by omega) (by omega),
      checkedInt64_bind (by omega) (by omega), checkedInt64_bind (by omega) (by omega),
      checkedInt64_bind (by omega) (by omega)]
    rfl
  · rfl

namespace Voice
variable {v w : Voice} {x : Int}

theorem Bounded.advanceEnvelopeChecked_eq (h : v.Bounded) : v.advanceEnvelopeChecked = some v.advanceEnvelope := by
  have hwalk (curve : EnvelopeCurve) (rate : Nat) (hrate : rate < 2 ^ 31) :=
    walkEnvelopeCurveChecked_eq h.height hrate curve
  have he := h.envelope
  rw [advanceEnvelopeChecked, Voice.advanceEnvelope]
  by_cases hconfigured : (!v.envelopeConfigured) = true
  · rw [if_pos hconfigured, if_pos hconfigured]
  rw [if_neg hconfigured, if_neg hconfigured]
  cases v.envelopePhase with
  | attack =>
    dsimp only
    rw [hwalk v.attackCurve v.attackRate he.attackRate]
    rfl
  | decay =>
    dsimp only
    rw [hwalk v.decayCurve v.decayRate he.decayRate]
    rfl
  | sustain =>
    dsimp only
    rw [hwalk v.sustainCurve v.sustainRate he.sustainRate]
    rfl
  | release =>
    dsimp only
    rw [hwalk v.releaseCurve v.releaseRate he.releaseRate]
    rfl
  | off => rfl

theorem sampleAt_bounds (v : Voice) (index : Nat) : -2 ^ 15 ≤ v.sampleAt index ∧ v.sampleAt index < 2 ^ 15 :=
  ⟨BitVec.le_toInt _, BitVec.toInt_lt⟩

/-- A frame computes what its definition says, and its sample fits 16 bits. -/
theorem Bounded.playFrameChecked_eq (h : v.Bounded) (index : Nat) :
    v.playFrameChecked index = some (v.playFrame index) ∧
      -2 ^ 15 ≤ (v.playFrame index).1 ∧ (v.playFrame index).1 < 2 ^ 15 := by
  have hfirst := v.sampleAt_bounds index
  have hsecond := v.sampleAt_bounds (if index + 1 < v.samples.length then index + 1 else
    if v.loop then v.loopIndex else index)
  rw [playFrameChecked, playFrame, interpolate]
  dsimp only
  generalize v.sampleAt (if index + 1 < v.samples.length then index + 1 else
    if v.loop then v.loopIndex else index) = second at hsecond ⊢
  generalize v.sampleAt index = first at hfirst ⊢
  have hfraction : v.position % 0x1000 < 2 ^ 12 := Nat.mod_lt _ (by decide)
  generalize v.position % 0x1000 = fraction at hfraction ⊢
  obtain ⟨hlow, hhigh⟩ := shiftRight_between (second - first) hfraction.le
  have hproduct : |(second - first) * (fraction : Int)| ≤ 2 ^ 16 * 2 ^ 12 :=
    abs_mul_le (abs_le.2 ⟨by omega, by omega⟩) (abs_le.2 ⟨by omega, by omega⟩)
  rw [abs_le] at hproduct
  have hinterpolated : -2 ^ 15 ≤ first + ((second - first) * fraction) >>> (12 : Nat) ∧
      first + ((second - first) * fraction) >>> (12 : Nat) < 2 ^ 15 := ⟨by omega, by omega⟩
  rw [checkedInt32_bind (by omega) (by omega), checkedInt32_bind (by omega) (by omega),
    checkedInt32_bind (by omega) (by omega), h.advanceEnvelopeChecked_eq, Option.bind_eq_bind, Option.bind_some]
  generalize first + ((second - first) * fraction) >>> (12 : Nat) = interpolated at hinterpolated ⊢
  have hheight := h.advanceEnvelope.height
  rw [maxEnvelopeHeight] at hheight
  obtain ⟨hlow', hhigh'⟩ := shiftRight_between (k := 30) interpolated hheight
  have hscaled : |interpolated * (v.advanceEnvelope.envelopeHeight : Int)| ≤ 2 ^ 15 * 2 ^ 30 :=
    abs_mul_le (abs_le.2 ⟨by omega, by omega⟩) (abs_le.2 ⟨by omega, by omega⟩)
  rw [abs_le] at hscaled
  generalize (interpolated * (v.advanceEnvelope.envelopeHeight : Int)) = scaled at hscaled hlow' hhigh' ⊢
  rw [checkedInt64_bind (by omega) (by omega), checkedInt32_bind (by omega) (by omega),
    Int.bmod_eq_of_le_mul_two (by omega) (by omega)]
  exact ⟨rfl, by omega, by omega⟩

theorem Bounded.frameChecked_eq (h : v.Bounded) : v.frameChecked = some v.frame := by
  rw [frameChecked, Voice.frame]
  split_ifs
  · rw [(h.playFrameChecked_eq _).1]
    rfl
  · rfl
  · have hmoved : Bounded { v with position := v.loopIndex <<< 12 } := ⟨h.height, h.envelope, h.volume⟩
    rw [(hmoved.playFrameChecked_eq _).1]
    rfl

theorem Bounded.frame_sample (h : v.Bounded) (hframe : v.frame = some (x, w)) : |x| ≤ 2 ^ 15 := by
  obtain ⟨position, index, heq⟩ := frame_eq_some hframe
  obtain ⟨rfl, -⟩ := Prod.mk.inj heq
  have hmoved : Bounded { v with position } := ⟨h.height, h.envelope, h.volume⟩
  obtain ⟨-, hlow, hhigh⟩ := hmoved.playFrameChecked_eq index
  exact abs_le.2 ⟨hlow, hhigh.le⟩

theorem Bounded.mixFrames_sample (h : v.Bounded) (n : Nat) : ∀ x ∈ (Voice.mixFrames n v).1, |x| ≤ 2 ^ 15 := by
  induction n generalizing v with
  | zero => exact fun x hx => absurd hx List.not_mem_nil
  | succ n ih =>
    cases hframe : v.frame with
    | none =>
      rw [mixFrames_of_none hframe]
      exact fun x hx => absurd hx List.not_mem_nil
    | some out =>
      rw [mixFrames_of_some hframe]
      intro x hx
      rcases List.mem_cons.1 hx with rfl | hx
      · exact h.frame_sample hframe
      · exact ih (h.frame hframe) x hx

end Voice

/-! ### The frames of a voice -/

/-- A sample at a volume. -/
theorem volume_bounds {sample volume : Int} (hsample : |sample| ≤ 2 ^ 15) (hvolume : volumeValid volume) :
    |sample * volume| ≤ 2 ^ 27 ∧ |(sample * volume) >>> (12 : Nat)| ≤ 2 ^ 15 := by
  have hproduct : |sample * volume| ≤ 2 ^ 15 * 2 ^ 12 := abs_mul_le hsample (abs_le.2 hvolume)
  refine ⟨hproduct, ?_⟩
  rw [Int.shiftRight_eq_div_pow]
  rw [abs_le] at hproduct ⊢
  omega

namespace Voice
variable {v w : Voice} {x : Int} {mixed : MixBuffer} {frame : Nat}

theorem addSide_eq (hvolume : ∀ side, volumeValid (v.volume side)) (hx : |x| ≤ 2 ^ 15) {side : Nat}
    (hmixed : |mixed frame side| ≤ 2 ^ 62) :
    v.addSide frame x mixed side =
      some (mixed.set frame side (mixed frame side + (x * v.volume side) >>> (12 : Nat))) := by
  obtain ⟨hproduct, hshare⟩ := volume_bounds hx (hvolume side)
  rw [abs_le] at hproduct hshare hmixed
  rw [addSide, checkedInt32_bind (by omega) (by omega), checkedInt64_bind (by omega) (by omega)]
  rfl

/-- The sums of one frame: a side after the other. -/
theorem addSample_eq (hvolume : ∀ side, volumeValid (v.volume side)) (hx : |x| ≤ 2 ^ 15)
    (hmixed : ∀ side, |mixed frame side| ≤ 2 ^ 62) (channels : Nat) :
    v.addSample channels frame x mixed = some fun f side =>
      mixed f side + if f = frame ∧ side < channels then (x * v.volume side) >>> (12 : Nat) else 0 := by
  rw [addSample]
  induction channels with
  | zero => simp
  | succ n ih =>
    rw [List.range_succ, List.foldlM_append, ih, Option.bind_eq_bind, Option.bind_some, List.foldlM_cons]
    rw [addSide_eq hvolume hx (by simpa using hmixed n), Option.bind_eq_bind, Option.bind_some, List.foldlM_nil]
    refine congrArg some ?_
    funext f side
    simp only [MixBuffer.set, Function.update_apply]
    rcases eq_or_ne f frame with rfl | hf
    · rcases eq_or_ne side n with rfl | hside
      · simp
      · have hlt : side < n + 1 ↔ side < n := by omega
        simp only [if_true, true_and, Function.update_of_ne hside, hlt]
    · simp [hf]

/-- The frames of a voice, added from a frame on. -/
theorem Bounded.mixFramesChecked_eq (h : v.Bounded) (channels n : Nat)
    (hmixed : ∀ f, frame ≤ f → ∀ side, |mixed f side| ≤ 2 ^ 62) :
    mixFramesChecked channels frame n v mixed =
      some ((fun f side => mixed f side + if frame ≤ f ∧ side < channels then
        ((Voice.mixFrames n v).1.getD (f - frame) 0 * v.volume side) >>> (12 : Nat) else 0),
          (Voice.mixFrames n v).2) := by
  induction n generalizing v frame mixed with
  | zero =>
    refine congrArg some (Prod.ext (funext fun f => funext fun side => ?_) rfl)
    simp [Voice.mixFrames]
  | succ n ih =>
    rw [mixFramesChecked, h.frameChecked_eq, Option.bind_eq_bind, Option.bind_some, Voice.mixFrames]
    cases hframe : v.frame with
    | none =>
      refine congrArg some (Prod.ext (funext fun f => funext fun side => ?_) rfl)
      simp
    | some out =>
      obtain ⟨x, w⟩ := out
      have hw := h.frame hframe
      dsimp only
      rw [addSample_eq hw.volume (h.frame_sample hframe) (hmixed frame le_rfl), Option.bind_eq_bind, Option.bind_some,
        ih hw]
      · refine congrArg some (Prod.ext (funext fun f => funext fun side => ?_) rfl)
        dsimp only
        rw [(Keeps.frame hframe).volume]
        rcases Nat.lt_trichotomy f frame with hf | rfl | hf
        · simp [Nat.ne_of_lt hf, Nat.not_le_of_lt hf, Nat.not_le_of_lt (Nat.lt_succ_of_lt hf)]
        · simp
        · obtain ⟨k, rfl⟩ := Nat.exists_eq_add_of_lt hf
          have hnext : frame + k + 1 - (frame + 1) = k := by omega
          have hthis : frame + k + 1 - frame = k + 1 := by omega
          rw [hnext, hthis, List.getD_cons_succ]
          simp [Nat.add_assoc]
      · intro f hf side
        simp only [Nat.ne_of_gt hf, false_and, if_false, Int.add_zero]
        exact hmixed f (Nat.le_of_lt hf) side

/-- What a voice adds to the buffer is its contribution. -/
theorem Bounded.mixVoiceChecked_eq (h : v.Bounded) (grain channels : Nat)
    (hmixed : ∀ f side, |mixed f side| ≤ 2 ^ 62) :
    v.mixVoiceChecked grain channels mixed =
      some ((fun f side => mixed f side + if side < channels then v.contribution grain f side else 0),
        (v.mixVoice grain).2) := by
  rw [mixVoiceChecked]
  split_ifs with hidle
  · refine congrArg some (Prod.ext (funext fun f => funext fun side => ?_) ?_)
    · dsimp only
      rw [contribution, Voice.mixVoice, if_pos hidle]
      simp
    · rw [Voice.mixVoice, if_pos hidle]
  · rw [h.mixFramesChecked_eq channels grain fun f _ => hmixed f]
    refine congrArg some (Prod.ext (funext fun f => funext fun side => ?_) ?_)
    · dsimp only
      rw [contribution, Voice.mixVoice, if_neg hidle, Nat.sub_zero]
      simp
    · rw [Voice.mixVoice, if_neg hidle]

theorem Bounded.contribution_le (h : v.Bounded) (grain f side : Nat) : |v.contribution grain f side| ≤ 2 ^ 15 := by
  refine (volume_bounds ?_ (h.volume side)).2
  have hsample : ∀ x ∈ (v.mixVoice grain).1, |x| ≤ 2 ^ 15 := by
    rw [Voice.mixVoice]
    split_ifs
    · exact fun x hx => absurd hx List.not_mem_nil
    · exact h.mixFrames_sample grain
  rcases Nat.lt_or_ge f (v.mixVoice grain).1.length with hf | hf
  · rw [List.getD_eq_getElem _ _ hf]
    exact hsample _ (List.getElem_mem hf)
  · rw [List.getD_eq_default _ _ hf]
    decide

end Voice

/-! ### All voices -/

namespace SasCore
variable {core : SasCore} {output : PcmBuffer} {preserve : Option (Int × Int)}

theorem preserveSlot_eq {left right : Int} (hleft : volumeValid left) (hright : volumeValid right) (mixed : MixBuffer)
    (slot : Nat × Nat) :
    core.preserveSlot output left right mixed slot =
      some (mixed.set slot.1 slot.2 (core.preserved output (some (left, right)) slot.1 slot.2)) := by
  have hvolume : volumeValid (if slot.2 % 2 = 0 then left else right) := iteInduction (fun _ => hleft) fun _ => hright
  have hsample : |(output (core.outputIndex slot.1 slot.2)).toInt| ≤ 2 ^ 15 :=
    abs_le.2 ⟨BitVec.le_toInt _, BitVec.toInt_lt.le⟩
  obtain ⟨hproduct, -⟩ := volume_bounds hsample hvolume
  rw [abs_le] at hproduct
  rw [preserveSlot, checkedInt32_bind (by omega) (by omega)]
  rfl

/-- The preserved samples are of 16 bits or one more. -/
theorem preserved_le (hpreserve : ∀ volumes ∈ preserve, volumeValid volumes.1 ∧ volumeValid volumes.2) (f side : Nat) :
    |core.preserved output preserve f side| ≤ 2 ^ 15 := by
  cases preserve with
  | none => exact show |(0 : Int)| ≤ 2 ^ 15 by decide
  | some volumes =>
    obtain ⟨hleft, hright⟩ := hpreserve volumes rfl
    refine (volume_bounds (abs_le.2 ⟨BitVec.le_toInt _, BitVec.toInt_lt.le⟩) ?_).2
    exact iteInduction (fun _ => hleft) fun _ => hright

theorem preservedChecked_eq (hpreserve : ∀ volumes ∈ preserve, volumeValid volumes.1 ∧ volumeValid volumes.2) :
    core.preservedChecked output preserve = some fun f side =>
      if (f, side) ∈ core.slots then core.preserved output preserve f side else 0 := by
  cases preserve with
  | none =>
    refine congrArg some (funext fun f => funext fun side => ?_)
    exact (ite_self 0).symm
  | some volumes =>
    obtain ⟨left, right⟩ := volumes
    obtain ⟨hleft, hright⟩ := hpreserve _ rfl
    rw [preservedChecked]
    -- the slots written so far
    have hslots (l : List (Nat × Nat)) (mixed : MixBuffer) :
        l.foldlM (core.preserveSlot output left right) mixed = some fun f side =>
          if (f, side) ∈ l then core.preserved output (some (left, right)) f side else mixed f side := by
      induction l generalizing mixed with
      | nil => simp
      | cons slot l ih =>
        rw [List.foldlM_cons, preserveSlot_eq hleft hright, Option.bind_eq_bind, Option.bind_some, ih]
        refine congrArg some (funext fun f => funext fun side => ?_)
        by_cases hslot : (f, side) = slot
        · subst hslot
          simp [MixBuffer.set]
        · have hset : mixed.set slot.1 slot.2 (core.preserved output (some (left, right)) slot.1 slot.2) f side =
              mixed f side := by
            rw [Prod.ext_iff, not_and] at hslot
            rcases eq_or_ne f slot.1 with hf | hf
            · have hside : side ≠ slot.2 := hslot hf
              simp [MixBuffer.set, hf, hside]
            · simp [MixBuffer.set, hf]
          rw [hset]
          simp [hslot]
    exact hslots _ _

/-- The loop over some voices, no voice twice: the buffer grows by `2 ^ 15` with each. -/
theorem mixTurn_foldlM {l : List (Fin maxVoices)} (hl : l.Nodup) {mixed : MixBuffer} {voices : Fin maxVoices → Voice}
    (hvoices : ∀ i, (voices i).Bounded) (hmixed : ∀ f side, |mixed f side| + l.length * 2 ^ 15 ≤ 2 ^ 62) :
    l.foldlM core.mixTurn (mixed, voices) =
      some ((fun f side => mixed f side + if side < core.channels then
        (l.map fun i => (voices i).contribution core.grain f side).sum else 0),
          fun i => if i ∈ l then ((voices i).mixVoice core.grain).2 else voices i) := by
  induction l generalizing mixed voices with
  | nil => simp
  | cons i l ih =>
    obtain ⟨hi, hnodup⟩ := List.nodup_cons.1 hl
    simp only [List.length_cons, Nat.cast_add, Nat.cast_one] at hmixed
    have hroom (f side : Nat) : |mixed f side| ≤ 2 ^ 62 := by
      have := hmixed f side
      omega
    have hturn : core.mixTurn (mixed, voices) i = some
        ((fun f side => mixed f side +
          if side < core.channels then (voices i).contribution core.grain f side else 0),
          Function.update voices i ((voices i).mixVoice core.grain).2) := by
      rw [mixTurn, (hvoices i).mixVoiceChecked_eq _ _ hroom]
      rfl
    rw [List.foldlM_cons, hturn, Option.bind_eq_bind, Option.bind_some, ih hnodup]
    · have hrest (j : Fin maxVoices) (hj : j ∈ l) :
          Function.update voices i ((voices i).mixVoice core.grain).2 j = voices j :=
        Function.update_of_ne (ne_of_mem_of_not_mem hj hi) ..
      refine congrArg some (Prod.ext (funext fun f => funext fun side => ?_) (funext fun j => ?_))
      · dsimp only
        rw [List.map_congr_left fun j hj => by rw [hrest j hj], List.map_cons, List.sum_cons]
        split_ifs
        · rw [Int.add_assoc]
        · rw [Int.add_zero]
      · dsimp only
        rcases eq_or_ne j i with rfl | hj
        · simp [hi]
        · simp [hj]
    · intro j
      rw [Function.update_apply]
      exact iteInduction (fun _ => (hvoices i).mixVoice _) fun _ => hvoices j
    · intro f side
      have hcontribution := (hvoices i).contribution_le core.grain f side
      have := hmixed f side
      split_ifs
      · have hsum := abs_add_le (mixed f side) ((voices i).contribution core.grain f side)
        omega
      · rw [Int.add_zero]
        omega

/-- The mix of a core in its bounds: no signed operation leaves its type. -/
theorem Bounded.mixChecked_eq (h : core.Bounded) (output : PcmBuffer)
    (hpreserve : ∀ volumes ∈ preserve, volumeValid volumes.1 ∧ volumeValid volumes.2) :
    core.mixChecked output preserve = some (core.mix output preserve) := by
  have hkept (f side : Nat) :
      |if (f, side) ∈ core.slots then core.preserved output preserve f side else 0| ≤ 2 ^ 15 :=
    iteInduction (motive := fun x : Int => |x| ≤ 2 ^ 15) (fun _ => preserved_le hpreserve f side) fun _ => by decide
  rw [mixChecked, preservedChecked_eq hpreserve, Option.bind_eq_bind, Option.bind_some,
    mixTurn_foldlM (List.nodup_finRange maxVoices) h, Option.bind_eq_bind, Option.bind_some, mix]
  · refine congrArg some (Prod.ext ?_ ?_)
    · refine List.foldl_ext _ _ _ fun out slot hslot => ?_
      have hside := (mem_slots.1 hslot).2
      dsimp only
      rw [if_pos hslot, if_pos hside, mixed, Fin.sum_univ_def]
    · simp
  · intro f side
    have := hkept f side
    rw [List.length_finRange, maxVoices]
    omega

end SasCore

/-- Whatever calls have been made, the height of every voice stays between zero and the maximum, after every frame of
a mix too, and no signed number that a mix computes leaves its type. -/
theorem sas_bounded (calls : List (SasCall × State)) {address : Word} {core : SasCore}
    (hcore : SasCores.reach calls address = some core) :
    (∀ i n, (Voice.mixFrames n (core.voices i)).2.envelopeHeight ≤ maxEnvelopeHeight) ∧
      ∀ output preserve, (∀ volumes ∈ preserve, volumeValid volumes.1 ∧ volumeValid volumes.2) →
        core.mixChecked output preserve = some (core.mix output preserve) := by
  have hbounded : core.Bounded := SasCores.reach_bounded calls address core hcore
  exact ⟨fun i n => ((hbounded i).mixFrames n).height, fun output _ hpreserve => hbounded.mixChecked_eq output hpreserve⟩

/-- Three voices that play, in their decay, their release and their attack, and the first sample of their next mix. -/
theorem sas_bounded_trio :
    ∃ core, SasCores.reach trioCalls 0x08800000 = some core ∧
      ((core.voices ⟨0, by decide⟩).stage = (true, .decay, 1057609300) ∧
        (core.voices ⟨1, by decide⟩).stage = (true, .release, maxEnvelopeHeight) ∧
        (core.voices ⟨2, by decide⟩).stage = (true, .attack, 0x10000000) ∧
        (core.mix (fun _ => 0x100) (some (0x1000, 0x800))).1 0 = 0x1a32) ∧
      (∀ i n, (Voice.mixFrames n (core.voices i)).2.envelopeHeight ≤ maxEnvelopeHeight) ∧
      ∀ output preserve, (∀ volumes ∈ preserve, volumeValid volumes.1 ∧ volumeValid volumes.2) →
        core.mixChecked output preserve = some (core.mix output preserve) := by
  have hvalues : (SasCores.reach trioCalls 0x08800000).map (fun core =>
      ((core.voices ⟨0, by decide⟩).stage, (core.voices ⟨1, by decide⟩).stage, (core.voices ⟨2, by decide⟩).stage,
        (core.mix (fun _ => 0x100) (some (0x1000, 0x800))).1 0)) =
      some ((true, .decay, 1057609300), (true, .release, maxEnvelopeHeight), (true, .attack, 0x10000000), 0x1a32) := by
    decide +kernel
  obtain ⟨core, hcore, hvalues⟩ := Option.map_eq_some_iff.1 hvalues
  obtain ⟨hfirst, hvalues⟩ := Prod.mk.inj hvalues
  obtain ⟨hsecond, hvalues⟩ := Prod.mk.inj hvalues
  obtain ⟨hthird, hmix⟩ := Prod.mk.inj hvalues
  exact ⟨core, hcore, ⟨hfirst, hsecond, hthird, hmix⟩, sas_bounded trioCalls hcore⟩

end Psprism
