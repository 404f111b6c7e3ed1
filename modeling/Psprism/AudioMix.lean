import Mathlib.Algebra.Order.BigOperators.Group.Finset
import Mathlib.Data.Finset.Lattice.Fold
import Mathlib.Order.Lattice.Nat
import Psprism.AudioEngine
import Psprism.SasCore

/-!
# What the audio device plays (`audio_engine.cpp`)

The callback of `AudioEngine.lean` with the samples it mixes: 32-bit sums over the channels, cut off at 16 bits in
the end. However submits, resets and callbacks interleave, the sums never overflow, each callback plays the sum of
what the channels gave it, and what a channel gives over all callbacks is what was delivered of it.
-/

namespace Psprism
open Interleaving History

structure StereoFrame where
  left : BitVec 16 := 0
  right : BitVec 16 := 0
deriving DecidableEq

/-- A callback that is over: what each channel gave, what was written to the device, and the return value. -/
structure Callback where
  given : Nat → List StereoFrame
  output : List StereoFrame
  consumed : Nat

/-- `mix` are the first `frame_count` frames of `mix_samples_`; `given` is what the channels gave to the callback
that runs. -/
structure AudioMix where
  engine : AudioEngine StereoFrame
  mix : List (Word × Word) := []
  given : Nat → List StereoFrame := fun _ => []
  consumed : Nat := 0
  played : List Callback := []

/-- The loop that adds the frames of a channel. -/
def accumulate : List (Word × Word) → List StereoFrame → List (Word × Word)
  | sum :: sums, frame :: frames =>
    (sum.1 + frame.left.signExtend 32, sum.2 + frame.right.signExtend 32) :: accumulate sums frames
  | sums, _ => sums

def clampFrame (sum : Word × Word) : StereoFrame := ⟨clampSample sum.1.toInt, clampSample sum.2.toInt⟩

namespace AudioMix

def create : AudioMix := { engine := AudioEngine.create {} }

/-- What a step of the callback does besides moving indices. -/
def follow (s : AudioMix) (engine : AudioEngine StereoFrame) : AudioMix :=
  match s.engine.consumer, engine.consumer with
  | .idle, .atChannel _ frameCount =>
    { s with engine, mix := List.replicate frameCount (0, 0), given := fun _ => [], consumed := 0 }
  | .loaded c _ _ _, .mixed _ _ _ frames =>
    { s with
      engine
      mix := accumulate s.mix frames
      given := Function.update s.given c frames
      consumed := max s.consumed frames.length }
  | .atChannel _ _, .idle =>
    { s with engine, given := fun _ => [], played := ⟨s.given, s.mix.map clampFrame, s.consumed⟩ :: s.played }
  | _, _ => { s with engine }

def step (s : AudioMix) (a : AudioAction StereoFrame) : Option AudioMix := (s.engine.step a).map s.follow

end AudioMix

/-- A sample of a channel, and silence behind its last frame. -/
def sampleAt (side : StereoFrame → BitVec 16) (frames : List StereoFrame) (i : Nat) : Int :=
  (frames[i]?.map fun frame => (side frame).toInt).getD 0

/-- The frame at `i` of all channels together. -/
def mixdown (given : Nat → List StereoFrame) (i : Nat) : StereoFrame where
  left := clampSample (∑ c ∈ Finset.range channelCount, sampleAt StereoFrame.left (given c) i)
  right := clampSample (∑ c ∈ Finset.range channelCount, sampleAt StereoFrame.right (given c) i)

/-- The callback played the mix of what it was given. -/
structure Callback.Sound (callback : Callback) : Prop where
  output : callback.output = (List.range callback.output.length).map (mixdown callback.given)
  within : ∀ c, (callback.given c).length ≤ callback.output.length
  consumed : callback.consumed = (Finset.range channelCount).sup fun c => (callback.given c).length

/-- The frames that were delivered, in their order. -/
def AudioEngine.deliveries {F : Type} : List (AudioEvent F) → List F
  | [] => []
  | .delivered frames :: older => deliveries older ++ frames
  | _ :: older => deliveries older

/-- The frames that the callback has mixed and not yet counted as delivered. -/
def Consumer.held {F : Type} (c : Nat) : Consumer F → List F
  | .mixed c' _ _ frames => if c' = c then frames else []
  | _ => []

/-! ### Sums -/

section
variable {side : StereoFrame → BitVec 16} {frames : List StereoFrame} {given : Nat → List StereoFrame} {i k n : Nat}

theorem sampleAt_bounds (side : StereoFrame → BitVec 16) (frames : List StereoFrame) (i : Nat) :
    -32768 ≤ sampleAt side frames i ∧ sampleAt side frames i ≤ 32767 := by
  unfold sampleAt
  cases frames[i]? with
  | none => simp
  | some frame =>
    have hlo := BitVec.le_toInt (side frame)
    have hhi := BitVec.toInt_lt (x := side frame)
    simp
    omega

theorem sum_bounds (side : StereoFrame → BitVec 16) (given : Nat → List StereoFrame) (i k : Nat) :
    -32768 * (k : Int) ≤ ∑ c ∈ Finset.range k, sampleAt side (given c) i ∧
      ∑ c ∈ Finset.range k, sampleAt side (given c) i ≤ 32767 * (k : Int) := by
  induction k with
  | zero => simp
  | succ k ih =>
    have hlast := sampleAt_bounds side (given k) i
    rw [Finset.sum_range_succ]
    push_cast
    omega

/-- The sum over the first `k` channels, in 32 bits. -/
def sumAt (given : Nat → List StereoFrame) (k i : Nat) : Word × Word :=
  (BitVec.ofInt 32 (∑ c ∈ Finset.range k, sampleAt StereoFrame.left (given c) i),
    BitVec.ofInt 32 (∑ c ∈ Finset.range k, sampleAt StereoFrame.right (given c) i))

theorem toInt_sum (side : StereoFrame → BitVec 16) (given : Nat → List StereoFrame) (i : Nat) :
    (BitVec.ofInt 32 (∑ c ∈ Finset.range channelCount, sampleAt side (given c) i)).toInt =
      ∑ c ∈ Finset.range channelCount, sampleAt side (given c) i := by
  have hbounds := sum_bounds side given i channelCount
  unfold channelCount at *
  rw [BitVec.toInt_ofInt]
  exact Int.bmod_eq_of_le (by omega) (by omega)

theorem clampFrame_sumAt (given : Nat → List StereoFrame) (i : Nat) :
    clampFrame (sumAt given channelCount i) = mixdown given i := by
  rw [clampFrame, sumAt, mixdown, toInt_sum, toInt_sum]

theorem getElem?_accumulate (sums : List (Word × Word)) (frames : List StereoFrame) (i : Nat) :
    (accumulate sums frames)[i]? = sums[i]?.map fun sum =>
      (sum.1 + BitVec.ofInt 32 (sampleAt StereoFrame.left frames i),
        sum.2 + BitVec.ofInt 32 (sampleAt StereoFrame.right frames i)) := by
  induction sums generalizing frames i with
  | nil => cases frames <;> rfl
  | cons sum sums ih =>
    cases frames with
    | nil => simp [accumulate, sampleAt]
    | cons frame frames =>
      cases i with
      | zero => rfl
      | succ i => exact ih frames i

/-- One channel more. -/
theorem accumulate_sumAt (given : Nat → List StereoFrame) (k n : Nat) :
    accumulate ((List.range n).map (sumAt given k)) (given k) = (List.range n).map (sumAt given (k + 1)) := by
  refine List.ext_getElem? fun i => ?_
  rw [getElem?_accumulate, List.getElem?_map, List.getElem?_map, Option.map_map]
  by_cases hi : i < n
  · rw [List.getElem?_range hi]
    simp [sumAt, Finset.sum_range_succ, BitVec.ofInt_add]
  · rw [List.getElem?_eq_none (by simpa using hi)]
    rfl

theorem sumAt_congr {given' : Nat → List StereoFrame} (h : ∀ c < k, given' c = given c) :
    sumAt given' k = sumAt given k := by
  funext i
  have hsum (side : StereoFrame → BitVec 16) : ∑ c ∈ Finset.range k, sampleAt side (given' c) i =
      ∑ c ∈ Finset.range k, sampleAt side (given c) i :=
    Finset.sum_congr rfl fun c hc => by rw [h c (Finset.mem_range.1 hc)]
  rw [sumAt, sumAt, hsum, hsum]

theorem sumAt_succ_of_nil (h : given k = []) : sumAt given (k + 1) = sumAt given k := by
  funext i
  simp [sumAt, Finset.sum_range_succ, h, sampleAt]

end

/-! ### The engine below -/

namespace AudioEngine
variable {F : Type} {s s' : AudioEngine F} {ch ch' : Channel F} {q : Index}

theorem deliveries_produce (h : produce ch = some (ch', q)) : deliveries ch'.log = deliveries ch.log := by
  unfold produce at h
  split at h
  case h_1 => cases h
  case h_10 =>
    split_ifs at h
    · obtain ⟨rfl, rfl⟩ := Prod.mk.inj (Option.some.inj h)
      rfl
    · obtain ⟨rfl, rfl⟩ := Prod.mk.inj (Option.some.inj h)
      rfl
  all_goals
    obtain ⟨rfl, rfl⟩ := Prod.mk.inj (Option.some.inj h)
    rfl

theorem deliveries_setChannel {c : Nat} {ch : Channel F} (h : deliveries ch.log = deliveries (s.channels c).log)
    (c' : Nat) : deliveries ((s.setChannel c ch).channels c').log = deliveries (s.channels c').log := by
  show deliveries (Function.update s.channels c ch c').log = _
  by_cases hc : c' = c
  · subst hc
    rw [Function.update_self, h]
  · rw [Function.update_of_ne hc]

theorem begin_spec {c : Nat} {producer : Producer F} (h : s.begin c producer = some s') :
    s'.consumer = s.consumer ∧ ∀ c, deliveries (s'.channels c).log = deliveries (s.channels c).log := by
  unfold begin at h
  split at h
  · obtain rfl := Option.some.inj h
    exact ⟨rfl, deliveries_setChannel rfl⟩
  · cases h

/-- Only the callback moves the callback, apart from the call that begins it, and only it delivers. -/
theorem step_cases {a : AudioAction F} (h : s.step a = some s') :
    (s'.consumer = s.consumer ∧ ∀ c, deliveries (s'.channels c).log = deliveries (s.channels c).log) ∨
      (s.consumer = .idle ∧ ∃ n, s' = { s with consumer := .atChannel 0 n }) ∨ s.advance = some s' := by
  cases a with
  | submit c frames blocking =>
    simp only [step] at h
    split_ifs at h
    · exact .inl (Option.some.inj h ▸ ⟨rfl, fun _ => rfl⟩)
    · exact .inl (begin_spec h)
  | resetChannel c =>
    simp only [step] at h
    split_ifs at h
    · exact .inl (Option.some.inj h ▸ ⟨rfl, fun _ => rfl⟩)
    · exact .inl (begin_spec h)
  | consume n =>
    simp only [step] at h
    split at h
    · rename_i hidle
      split_ifs at h
      · exact .inl (Option.some.inj h ▸ ⟨rfl, fun _ => rfl⟩)
      · exact .inr (.inl ⟨hidle, n, (Option.some.inj h).symm⟩)
    · cases h
  | producer c =>
    obtain ⟨⟨ch, q⟩, hproduce, rfl⟩ := Option.map_eq_some_iff.1 h
    exact .inl ⟨rfl, deliveries_setChannel (deliveries_produce hproduce)⟩
  | consumer => exact .inr (.inr h)

end AudioEngine

/-! ### The callback -/

/-- How many channels have given their frames, and how many frames the device wants. -/
def Consumer.stage {F : Type} : Consumer F → Option (Nat × Nat)
  | .idle => none
  | .atChannel c n | .loadedWrite c n _ | .loaded c n _ _ => some (c, n)
  | .mixed c n _ _ | .stored c n _ => some (c + 1, n)

def Consumer.InRange {F : Type} : Consumer F → Prop
  | .idle => True
  | .atChannel c _ => c ≤ channelCount
  | .loadedWrite c _ _ | .loaded c _ _ _ | .mixed c _ _ _ | .stored c _ _ => c < channelCount

namespace AudioMix

/-- The sums over the first `k` channels. -/
structure Mixing (s : AudioMix) (k n : Nat) : Prop where
  mix : s.mix = (List.range n).map (sumAt s.given k)
  rest : ∀ c, k ≤ c → s.given c = []
  within : ∀ c, (s.given c).length ≤ n
  consumed : s.consumed = (Finset.range k).sup fun c => (s.given c).length

structure Inv (s : AudioMix) : Prop where
  played : ∀ callback ∈ s.played, callback.Sound
  streams : ∀ c, (s.played.reverse.flatMap fun callback => callback.given c) ++ s.given c =
    AudioEngine.deliveries (s.engine.channels c).log ++ s.engine.consumer.held c
  inRange : s.engine.consumer.InRange
  idle : s.engine.consumer.stage = none → s.given = fun _ => []
  mixing : ∀ k n, s.engine.consumer.stage = some (k, n) → s.Mixing k n

variable {s s' : AudioMix} {k n : Nat}

theorem Mixing.skip (h : s.Mixing k n) : s.Mixing (k + 1) n := by
  have hnil := h.rest k le_rfl
  refine ⟨?_, fun c hc => h.rest c (by omega), h.within, ?_⟩
  · rw [sumAt_succ_of_nil hnil]
    exact h.mix
  · rw [Finset.range_add_one, Finset.sup_insert, hnil, List.length_nil]
    exact h.consumed.trans (bot_sup_eq _).symm

theorem Mixing.add (h : s.Mixing k n) {frames : List StereoFrame} (hframes : frames.length ≤ n)
    (hmix : s'.mix = accumulate s.mix frames) (hgiven : s'.given = Function.update s.given k frames)
    (hconsumed : s'.consumed = max s.consumed frames.length) : s'.Mixing (k + 1) n := by
  have hsame : ∀ c < k, s'.given c = s.given c := fun c hc => by
    rw [hgiven, Function.update_of_ne (by omega)]
  have hnew : s'.given k = frames := by rw [hgiven, Function.update_self]
  refine ⟨?_, fun c hc => ?_, fun c => ?_, ?_⟩
  · rw [hmix, h.mix, ← sumAt_congr hsame, ← hnew, accumulate_sumAt]
  · rw [hgiven, Function.update_of_ne (by omega)]
    exact h.rest c (by omega)
  · by_cases hc : c = k
    · rw [hc, hnew]
      exact hframes
    · rw [hgiven, Function.update_of_ne hc]
      exact h.within c
  · rw [hconsumed, h.consumed, Finset.range_add_one, Finset.sup_insert, hnew, max_comm]
    refine congrArg (max _) (Finset.sup_congr rfl fun c hc => ?_)
    rw [hsame c (Finset.mem_range.1 hc)]

theorem Mixing.sound (h : s.Mixing channelCount n) :
    (⟨s.given, s.mix.map clampFrame, s.consumed⟩ : Callback).Sound := by
  have houtput : s.mix.map clampFrame = (List.range n).map (mixdown s.given) := by
    rw [h.mix, List.map_map]
    exact List.map_congr_left fun i _ => clampFrame_sumAt s.given i
  refine ⟨?_, fun c => ?_, h.consumed⟩
  · show s.mix.map clampFrame = _
    rw [houtput, List.length_map, List.length_range]
  · show _ ≤ (s.mix.map clampFrame).length
    rw [houtput, List.length_map, List.length_range]
    exact h.within c

theorem Mixing.of_engine (h : s.Mixing k n) (engine : AudioEngine StereoFrame) : Mixing { s with engine } k n :=
  ⟨h.mix, h.rest, h.within, h.consumed⟩

/-- A step of the engine that mixes nothing. -/
theorem Inv.move (h : s.Inv) {engine : AudioEngine StereoFrame}
    (hstreams : ∀ c, AudioEngine.deliveries (engine.channels c).log ++ engine.consumer.held c =
      AudioEngine.deliveries (s.engine.channels c).log ++ s.engine.consumer.held c)
    (hrange : engine.consumer.InRange) (hidle : engine.consumer.stage = none → s.given = fun _ => [])
    (hmixing : ∀ k n, engine.consumer.stage = some (k, n) → s.Mixing k n) : Inv { s with engine } :=
  ⟨h.played, fun c => (h.streams c).trans (hstreams c).symm, hrange, hidle,
    fun k n hstage => (hmixing k n hstage).of_engine engine⟩

/-- The callback goes on to a point at which it has mixed as much. -/
theorem Inv.keep (h : s.Inv) {engine : AudioEngine StereoFrame} (hchannels : engine.channels = s.engine.channels)
    (hstage : engine.consumer.stage = s.engine.consumer.stage)
    (hheld : ∀ c, engine.consumer.held c = s.engine.consumer.held c) (hrange : engine.consumer.InRange) :
    Inv { s with engine } := by
  refine h.move (fun c => by rw [hchannels, hheld]) hrange ?_ ?_
  · rw [hstage]
    exact h.idle
  · rw [hstage]
    exact h.mixing

theorem follow_engine (s : AudioMix) (engine : AudioEngine StereoFrame) : (s.follow engine).engine = engine := by
  unfold follow
  split <;> rfl

theorem follow_of_same {engine : AudioEngine StereoFrame} (h : engine.consumer = s.engine.consumer) :
    s.follow engine = { s with engine } := by
  unfold follow
  rw [h]
  cases s.engine.consumer <;> rfl

/-- The callback begins. -/
theorem Inv.begin (h : s.Inv) (hidle : s.engine.consumer = .idle) (n : Nat) :
    (s.follow { s.engine with consumer := .atChannel 0 n }).Inv := by
  have hgiven := h.idle (by rw [hidle]; rfl)
  have hstreams := h.streams
  simp only [hidle, hgiven] at hstreams
  have hfollow : s.follow { s.engine with consumer := .atChannel 0 n } =
      { s with
        engine := { s.engine with consumer := .atChannel 0 n }
        mix := List.replicate n (0, 0), given := fun _ => [], consumed := 0 } := by
    unfold follow
    rw [hidle]
  rw [hfollow]
  refine ⟨h.played, hstreams, Nat.zero_le _, fun hnone => (by cases hnone), fun k n' hstage => ?_⟩
  obtain ⟨rfl, rfl⟩ := Prod.mk.inj (Option.some.inj hstage)
  refine ⟨?_, fun _ _ => rfl, fun _ => Nat.zero_le _, rfl⟩
  refine List.ext_getElem (by simp) fun i hi hi' => ?_
  simp [sumAt]

/-- All channels have been asked. -/
theorem Inv.finish (h : s.Inv) (hconsumer : s.engine.consumer = .atChannel channelCount n) :
    (s.follow { s.engine with consumer := .idle }).Inv := by
  have hfollow : s.follow { s.engine with consumer := .idle } =
      { s with
        engine := { s.engine with consumer := .idle }
        given := fun _ => [], played := ⟨s.given, s.mix.map clampFrame, s.consumed⟩ :: s.played } := by
    unfold follow
    rw [hconsumer]
  have hstreams := h.streams
  rw [hconsumer] at hstreams
  rw [hfollow]
  refine ⟨List.forall_mem_cons.2 ⟨?_, h.played⟩, fun c => ?_, trivial, fun _ => rfl, fun k n hstage => ?_⟩
  · exact (h.mixing channelCount n (by rw [hconsumer]; rfl)).sound
  · show (List.reverse (_ :: s.played)).flatMap _ ++ [] = _
    rw [List.reverse_cons, List.flatMap_append, List.flatMap_singleton, List.append_nil]
    exact hstreams c
  · cases hstage

/-- The frames of a channel are mixed. -/
theorem Inv.mixed {c : Nat} {w r : Index} {frames : List StereoFrame} (h : s.Inv)
    (hconsumer : s.engine.consumer = .loaded c n w r) (hframes : frames.length ≤ n) :
    (s.follow { s.engine with consumer := .mixed c n r frames }).Inv := by
  have hfollow : s.follow { s.engine with consumer := .mixed c n r frames } =
      { s with
        engine := { s.engine with consumer := .mixed c n r frames }
        mix := accumulate s.mix frames
        given := Function.update s.given c frames
        consumed := max s.consumed frames.length } := by
    unfold follow
    rw [hconsumer]
  have hmixing := h.mixing c n (by rw [hconsumer]; rfl)
  have hstreams := h.streams
  have hrange := h.inRange
  rw [hconsumer] at hstreams hrange
  rw [hfollow]
  refine ⟨h.played, fun c' => ?_, hrange, fun hnone => (by cases hnone), fun k n' hstage => ?_⟩
  · have hbefore := hstreams c'
    show _ ++ Function.update s.given c frames c' = _ ++ (if c = c' then frames else [])
    by_cases hc : c = c'
    · subst hc
      rw [hmixing.rest c le_rfl] at hbefore
      rw [Function.update_self, if_pos rfl, ← List.append_nil (List.flatMap _ _), hbefore]
      exact congrArg (· ++ frames) (List.append_nil _)
    · rw [Function.update_of_ne (Ne.symm hc), if_neg hc]
      exact hbefore
  · obtain ⟨rfl, rfl⟩ := Prod.mk.inj (Option.some.inj hstage)
    exact hmixing.add hframes rfl rfl rfl

theorem Inv.step (h : s.Inv) {a : AudioAction StereoFrame} (hstep : s.step a = some s') : s'.Inv := by
  obtain ⟨engine, hengine, rfl⟩ := Option.map_eq_some_iff.1 hstep
  rcases AudioEngine.step_cases hengine with ⟨hconsumer, hlogs⟩ | ⟨hidle, n, rfl⟩ | hadvance
  · rw [follow_of_same hconsumer]
    refine h.move (fun c => by rw [hconsumer, hlogs]) ?_ ?_ ?_ <;> rw [hconsumer]
    · exact h.inRange
    · exact h.idle
    · exact h.mixing
  · exact h.begin hidle n
  · have hrange := h.inRange
    have hmixing := h.mixing
    unfold AudioEngine.advance at hadvance
    cases hconsumer : s.engine.consumer with
    | idle => simp [hconsumer] at hadvance
    | atChannel c n =>
      rw [hconsumer] at hrange
      simp only [hconsumer] at hadvance
      split_ifs at hadvance with hc
      · obtain rfl := Option.some.inj hadvance
        rw [show s.follow _ = { s with engine := _ } from by unfold follow; rw [hconsumer]]
        exact h.keep rfl (by rw [hconsumer]; rfl) (fun c' => by rw [hconsumer]; rfl) hc
      · obtain rfl := Option.some.inj hadvance
        obtain rfl : c = channelCount := le_antisymm hrange (not_lt.1 hc)
        exact h.finish hconsumer
    | loadedWrite c n w =>
      rw [hconsumer] at hrange
      simp only [hconsumer] at hadvance
      split_ifs at hadvance with hempty
      · obtain rfl := Option.some.inj hadvance
        rw [show s.follow _ = { s with engine := _ } from by unfold follow; rw [hconsumer]]
        refine h.move (fun c' => by rw [hconsumer]; rfl) hrange (fun hnone => by cases hnone) fun k n' hstage => ?_
        obtain ⟨rfl, rfl⟩ := Prod.mk.inj (Option.some.inj hstage)
        exact (hmixing c n (by rw [hconsumer]; rfl)).skip
      · obtain rfl := Option.some.inj hadvance
        rw [show s.follow _ = { s with engine := _ } from by unfold follow; rw [hconsumer]]
        exact h.keep rfl (by rw [hconsumer]; rfl) (fun c' => by rw [hconsumer]; rfl) hrange
    | loaded c n w r =>
      simp only [hconsumer] at hadvance
      obtain rfl := Option.some.inj hadvance
      refine h.mixed hconsumer ?_
      rw [List.length_map, List.length_range]
      exact min_le_left _ _
    | mixed c n r frames =>
      rw [hconsumer] at hrange
      simp only [hconsumer] at hadvance
      obtain rfl := Option.some.inj hadvance
      rw [show s.follow _ = { s with engine := _ } from by unfold follow; rw [hconsumer]]
      refine h.move (fun c' => ?_) hrange (fun hnone => by cases hnone)
        fun k n' hstage => hmixing k n' (by rw [hconsumer]; exact hstage)
      rw [hconsumer]
      show AudioEngine.deliveries (Function.update s.engine.channels c _ c').log ++ [] =
        _ ++ (if c = c' then frames else [])
      by_cases hc : c = c'
      · subst hc
        rw [Function.update_self, if_pos rfl, List.append_nil]
        rfl
      · rw [Function.update_of_ne (Ne.symm hc), if_neg hc]
    | stored c n consumed =>
      rw [hconsumer] at hrange
      simp only [hconsumer] at hadvance
      obtain rfl := Option.some.inj hadvance
      rw [show s.follow _ = { s with engine := _ } from by unfold follow; rw [hconsumer]]
      exact h.keep rfl (by rw [hconsumer]; rfl) (fun c' => by rw [hconsumer]; rfl) hrange

theorem inv_create : create.Inv :=
  ⟨by simp [create], fun _ => rfl, trivial, fun _ => rfl, fun k n hstage => (by cases hstage)⟩

end AudioMix

/-- However submits, resets and callbacks interleave: the engine below runs as without the samples, each callback
plays the clamped sum of what the channels gave it, and what a channel gave to all callbacks, one after the other,
is what was delivered of it. -/
theorem audioMix_plays (actions : List (AudioAction StereoFrame)) (s : AudioMix)
    (hrun : run AudioMix.step AudioMix.create actions = some s) :
    run AudioEngine.step (AudioEngine.create {}) actions = some s.engine ∧
      (∀ callback ∈ s.played, callback.Sound) ∧
      ∀ c, (s.played.reverse.flatMap fun callback => callback.given c) ++ s.given c =
        AudioEngine.deliveries (s.engine.channels c).log ++ s.engine.consumer.held c := by
  have h : s.Inv := run_invariant (fun _ _ _ h hstep => AudioMix.Inv.step h hstep) AudioMix.inv_create hrun
  have hbelow : ∃ engine,
      run AudioEngine.step (AudioEngine.create {}) (actions.flatMap fun a => [a]) = some engine ∧
        s.engine = engine := by
    refine run_simulated (R := fun s engine => s.engine = engine) (fun s a s' engine hs hstep => ?_) rfl hrun
    obtain ⟨engine', hengine, rfl⟩ := Option.map_eq_some_iff.1 hstep
    exact ⟨engine', run_cons_eq_some.2 ⟨engine', hs ▸ hengine, rfl⟩, AudioMix.follow_engine _ _⟩
  obtain ⟨engine, hengine, rfl⟩ := hbelow
  rw [List.flatMap_singleton'] at hengine
  exact ⟨hengine, h.played, h.streams⟩

/-- Two channels, and a reset of the first after one callback. -/
theorem audioMix_plays_two :
    let actions : List (AudioAction StereoFrame) :=
      .submit 0 [⟨30000, 1⟩, ⟨7, 2⟩] true :: List.replicate 8 (.producer 0) ++
        .submit 1 [⟨10000, 5⟩] true :: List.replicate 8 (.producer 1) ++
        .consume 1 :: List.replicate 25 .consumer ++
        .resetChannel 0 :: List.replicate 4 (.producer 0) ++
        .consume 1 :: List.replicate 19 .consumer
    ∃ s, run AudioMix.step AudioMix.create actions = some s ∧
      s.played.map Callback.output = [[⟨0, 0⟩], [⟨32767, 6⟩]] ∧ ∀ callback ∈ s.played, callback.Sound := by
  intro actions
  obtain ⟨s, hrun⟩ : ∃ s, run AudioMix.step AudioMix.create actions = some s :=
    Option.isSome_iff_exists.1 (by decide)
  have hplayed : (run AudioMix.step AudioMix.create actions).map (fun s => s.played.map Callback.output) =
      some [[⟨0, 0⟩], [⟨32767, 6⟩]] := by
    decide
  rw [hrun] at hplayed
  exact ⟨s, hrun, Option.some.inj hplayed, (audioMix_plays actions s hrun).2.1⟩

/-! ### Channels that are not reset -/

namespace AudioEngine
variable {F : Type} {s s' : AudioEngine F} {ch ch' : Channel F} {q : Index}

/-- The frames that were submitted, in their order. -/
def submissions : List (AudioEvent F) → List F
  | [] => []
  | .submitted frames :: older => submissions older ++ frames
  | _ :: older => submissions older

theorem submissions_eq {log : List (AudioEvent F)} (h : Entries InOrder log) (hkept : .discarded ∉ log) :
    submissions log = deliveries log ++ pending log := by
  induction log with
  | nil => rfl
  | cons event older ih =>
    obtain ⟨horder, h⟩ := entries_cons.1 h
    have hbefore := ih h fun hmem => hkept (List.mem_cons_of_mem _ hmem)
    cases event with
    | submitted frames =>
      show submissions older ++ frames = deliveries older ++ (pending older ++ frames)
      rw [hbefore, List.append_assoc]
    | delivered frames =>
      show submissions older = (deliveries older ++ frames) ++ (pending older).drop frames.length
      obtain ⟨rest, hrest⟩ := horder
      rw [hbefore, ← hrest, List.drop_left, List.append_assoc]
    | discarded => exact absurd List.mem_cons_self hkept

/-- The call that holds the mutex is no reset. -/
def Producer.Submits : Producer F → Prop
  | .resetting | .resetLoadedWrite _ | .resetLoaded _ _ | .discarded _ => False
  | _ => True

structure Unreset (ch : Channel F) : Prop where
  producer : Producer.Submits ch.producer
  log : .discarded ∉ ch.log

theorem Unreset.produce (h : Unreset ch) (hstep : AudioEngine.produce ch = some (ch', q)) : Unreset ch' := by
  have hproducer := h.producer
  have hlog := h.log
  unfold AudioEngine.produce at hstep
  cases hp : ch.producer with
  | idle => simp [hp] at hstep
  | asking frames blocking again | ready frames | copying frames w | copied frames w | submitted count =>
    simp only [hp, Option.some.injEq, Prod.mk.injEq] at hstep
    obtain ⟨rfl, -⟩ := hstep
    exact ⟨trivial, by simpa using hlog⟩
  | asked frames blocking again w =>
    simp only [hp, Option.some.injEq, Prod.mk.injEq] at hstep
    obtain ⟨rfl, -⟩ := hstep
    refine ⟨?_, hlog⟩
    dsimp only
    split_ifs <;> trivial
  | resetting | resetLoadedWrite w | resetLoaded w r | discarded count =>
    rw [hp] at hproducer
    cases hproducer

theorem unreset_setChannel (h : ∀ c, Unreset (s.channels c)) {c : Nat} (hch : Unreset ch) (c' : Nat) :
    Unreset ((s.setChannel c ch).channels c') := by
  show Unreset (Function.update s.channels c ch c')
  by_cases hc : c' = c
  · subst hc
    rwa [Function.update_self]
  · rw [Function.update_of_ne hc]
    exact h c'

theorem unreset_advance (h : ∀ c, Unreset (s.channels c)) (hstep : s.advance = some s') (c : Nat) :
    Unreset (s'.channels c) := by
  unfold advance at hstep
  cases hconsumer : s.consumer with
  | idle => simp [hconsumer] at hstep
  | mixed target n r frames =>
    simp only [hconsumer] at hstep
    obtain rfl := Option.some.inj hstep
    refine unreset_setChannel h ?_ c
    exact ⟨(h target).producer, by simpa using (h target).log⟩
  | atChannel target n | loadedWrite target n w =>
    simp only [hconsumer] at hstep
    split_ifs at hstep <;> exact Option.some.inj hstep ▸ h c
  | loaded target n w r | stored target n consumed =>
    simp only [hconsumer] at hstep
    exact Option.some.inj hstep ▸ h c

/-- No reset is ever under way when none is called. -/
theorem unreset_step (h : ∀ c, Unreset (s.channels c)) {a : AudioAction F} (ha : ∀ c, a ≠ .resetChannel c)
    (hstep : s.step a = some s') (c : Nat) : Unreset (s'.channels c) := by
  cases a with
  | submit target frames blocking =>
    simp only [step] at hstep
    split_ifs at hstep
    · exact Option.some.inj hstep ▸ h c
    unfold begin at hstep
    split at hstep
    · obtain rfl := Option.some.inj hstep
      refine unreset_setChannel h ?_ c
      exact ⟨trivial, (h target).log⟩
    · cases hstep
  | resetChannel target => exact absurd rfl (ha target)
  | consume n =>
    simp only [step] at hstep
    split at hstep
    · split_ifs at hstep <;> exact Option.some.inj hstep ▸ h c
    · cases hstep
  | producer target =>
    obtain ⟨⟨ch, q⟩, hproduce, rfl⟩ := Option.map_eq_some_iff.1 hstep
    exact unreset_setChannel h ((h target).produce hproduce) c
  | consumer => exact unreset_advance h hstep c

theorem resetsAlone_of_unreset (h : ∀ c, Unreset (s.channels c)) (a : AudioAction F) : s.ResetsAlone a := by
  cases a with
  | producer c =>
    have hproducer := (h c).producer
    unfold ResetsAlone Undisturbed
    cases hp : (s.channels c).producer with
    | resetLoaded w r =>
      rw [hp] at hproducer
      cases hproducer
    | _ => simp only [hp]
  | _ => trivial

end AudioEngine

/-- Without resets: what the device has played of a channel is the beginning of what was submitted to it, and what
is left is in the ring. -/
theorem audioMix_lossless (actions : List (AudioAction StereoFrame)) (s : AudioMix)
    (hrun : run AudioMix.step AudioMix.create actions = some s) (hresets : ∀ c, .resetChannel c ∉ actions)
    (c : Nat) :
    ∃ rest, AudioEngine.submissions (s.engine.channels c).log =
        (s.played.reverse.flatMap fun callback => callback.given c) ++ s.given c ++ rest ∧
      rest <:+ AudioEngine.pending (s.engine.channels c).log ∧ rest.length ≤ maximumFramesPerChannel := by
  have hguarded : Guarded AudioMix.step (fun _ a => ∀ c, a ≠ AudioAction.resetChannel c) AudioMix.create actions :=
    Guarded.of_mem fun a ha _ c hc => hresets c (hc ▸ ha)
  have h : s.Inv ∧ s.engine.Inv ∧ ∀ c, AudioEngine.Unreset (s.engine.channels c) := by
    refine run_guarded (P := fun s => s.Inv ∧ s.engine.Inv ∧ ∀ c, AudioEngine.Unreset (s.engine.channels c))
      (fun s a s' h ha hstep => ?_) ?_ hguarded hrun
    · obtain ⟨hmix, hengine, hunreset⟩ := h
      refine ⟨hmix.step hstep, ?_⟩
      obtain ⟨engine, hbelow, rfl⟩ := Option.map_eq_some_iff.1 hstep
      rw [AudioMix.follow_engine]
      exact ⟨hengine.step (AudioEngine.resetsAlone_of_unreset hunreset a) hbelow,
        AudioEngine.unreset_step hunreset ha hbelow⟩
    · exact ⟨AudioMix.inv_create, AudioEngine.inv_create _, fun _ => ⟨trivial, List.not_mem_nil⟩⟩
  obtain ⟨hmix, hengine, hunreset⟩ := h
  have hsubmitted := AudioEngine.submissions_eq (hengine.channels c).inOrder (hunreset c).log
  have hheld : s.engine.consumer.held c <+: AudioEngine.pending (s.engine.channels c).log := by
    have hconsumer := hengine.consumer
    cases hc : s.engine.consumer with
    | mixed c' n r frames =>
      rw [hc] at hconsumer
      show (if c' = c then frames else []) <+: _
      split_ifs with heq
      · exact heq ▸ hconsumer.2.2
      · exact List.nil_prefix
    | _ => exact List.nil_prefix
  obtain ⟨rest, hrest⟩ := hheld
  refine ⟨rest, ?_, ⟨_, hrest⟩, ?_⟩
  · rw [hsubmitted, hmix.streams, ← hrest, List.append_assoc]
  · have hfits := (hengine.channels c).fits
    rw [← hrest, List.length_append] at hfits
    omega

/-- Two channels in one callback of three frames: a sum that is cut off, and a channel that ends first. -/
theorem audioMix_lossless_two :
    let submit (c : Nat) (frames : List StereoFrame) : List (AudioAction StereoFrame) :=
      .submit c frames true :: List.replicate 8 (.producer c)
    let actions := submit 0 [⟨30000, 1⟩, ⟨30000, 2⟩] ++ submit 1 [⟨10000, 5⟩] ++
      .consume 3 :: List.replicate 25 .consumer
    ∃ s, run AudioMix.step AudioMix.create actions = some s ∧
      s.played.map Callback.output = [[⟨32767, 6⟩, ⟨30000, 2⟩, ⟨0, 0⟩]] ∧
      ∃ rest, AudioEngine.submissions (s.engine.channels 0).log =
        (s.played.reverse.flatMap fun callback => callback.given 0) ++ s.given 0 ++ rest := by
  intro submit actions
  obtain ⟨s, hrun⟩ : ∃ s, run AudioMix.step AudioMix.create actions = some s :=
    Option.isSome_iff_exists.1 (by decide)
  have hplayed : (run AudioMix.step AudioMix.create actions).map (fun s => s.played.map Callback.output) =
      some [[⟨32767, 6⟩, ⟨30000, 2⟩, ⟨0, 0⟩]] := by
    decide
  rw [hrun] at hplayed
  obtain ⟨rest, hrest, -⟩ := audioMix_lossless actions s hrun (by simp [actions, submit]) 0
  exact ⟨s, hrun, Option.some.inj hplayed, rest, hrest⟩

end Psprism
