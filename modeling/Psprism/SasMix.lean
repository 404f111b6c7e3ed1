import Mathlib.Data.List.GetD
import Psprism.SasCore

/-!
# Mixing in parts

To mix `n` frames and then `m` gives the frames of one mix of `n + m`, and voices that look alike from outside
(`SasCore.mix_add`). A voice that ends is not mixed again. A voice whose envelope is released goes on in the
one mix and stays where it is in the two: it is silent in both, at different positions.
-/

namespace Psprism

theorem mul_add_inj {c a b a' b' : Nat} (hb : b < c) (hb' : b' < c) (h : a * c + b = a' * c + b') :
    a = a' ∧ b = b' := by
  have hmod := congrArg (· % c) h
  have hdiv := congrArg (· / c) h
  simp only [Nat.mul_add_mod_of_lt hb, Nat.mul_add_mod_of_lt hb'] at hmod
  have hpos := Nat.zero_lt_of_lt hb
  simp only [Nat.mul_comm _ c, Nat.mul_add_div hpos, Nat.div_eq_of_lt hb, Nat.div_eq_of_lt hb'] at hdiv
  exact ⟨hdiv, hmod⟩

section
variable {ι α : Type*} {key : ι → Nat} {value : ι → α}

theorem foldl_update_of_ne {l : List ι} {k : Nat} (h : ∀ i ∈ l, key i ≠ k) (out : Nat → α) :
    l.foldl (fun out i => Function.update out (key i) (value i)) out k = out k := by
  induction l generalizing out with
  | nil => rfl
  | cons i l ih =>
    rw [List.foldl_cons, ih fun j hj => h j (List.mem_cons_of_mem i hj)]
    exact Function.update_of_ne (h i List.mem_cons_self).symm ..

/-- What is written to places that differ stands there. -/
theorem foldl_update_of_mem (key : ι → Nat) (value : ι → α) {l : List ι}
    (hinj : ∀ i ∈ l, ∀ j ∈ l, key i = key j → i = j) {i : ι} (hi : i ∈ l) (out : Nat → α) :
    l.foldl (fun out i => Function.update out (key i) (value i)) out (key i) = value i := by
  induction l generalizing out with
  | nil => cases hi
  | cons j l ih =>
    rw [List.foldl_cons]
    by_cases hmem : i ∈ l
    · exact ih (fun a ha b hb => hinj a (List.mem_cons_of_mem j ha) b (List.mem_cons_of_mem j hb)) hmem _
    obtain rfl := (List.mem_cons.1 hi).resolve_right hmem
    rw [foldl_update_of_ne, Function.update_self]
    intro a ha hkey
    exact hmem (hinj a (List.mem_cons_of_mem i ha) i List.mem_cons_self hkey ▸ ha)
end

namespace Voice
variable {v w : Voice} {n m : Nat} {x : Int}

/-- What no mix changes. -/
structure Keeps (v w : Voice) : Prop where
  paused : w.paused = v.paused
  samples : w.samples = v.samples
  volume : w.volume = v.volume

theorem Keeps.trans {u : Voice} (h : v.Keeps w) (h' : w.Keeps u) : v.Keeps u :=
  ⟨h'.paused.trans h.paused, h'.samples.trans h.samples, h'.volume.trans h.volume⟩

theorem keeps_advanceEnvelope (v : Voice) : v.Keeps v.advanceEnvelope := by
  rw [advanceEnvelope]
  split
  · exact ⟨rfl, rfl, rfl⟩
  split
  · exact ⟨rfl, rfl, rfl⟩
  · dsimp only
    split <;> exact ⟨rfl, rfl, rfl⟩
  · exact ⟨rfl, rfl, rfl⟩
  · dsimp only
    split <;> exact ⟨rfl, rfl, rfl⟩
  · exact ⟨rfl, rfl, rfl⟩

/-- A voice whose envelope is released. -/
structure Silent (v : Voice) : Prop where
  playing : v.playing = false
  on : v.on = false
  configured : v.envelopeConfigured = true
  phase : v.envelopePhase = .off
  height : v.envelopeHeight = 0

theorem Silent.advanceEnvelope (h : v.Silent) : v.advanceEnvelope.Silent := by
  rw [Voice.advanceEnvelope, if_neg (by rw [h.configured]; exact Bool.false_ne_true), h.phase]
  exact ⟨h.playing, h.on, h.configured, rfl, rfl⟩

theorem advanceEnvelope_playing (h : v.playing = true) :
    v.advanceEnvelope.playing = true ∨ v.advanceEnvelope.Silent := by
  rw [advanceEnvelope]
  split
  · exact Or.inl h
  next hconfigured =>
  rw [Bool.not_eq_true', Bool.not_eq_false] at hconfigured
  split
  · exact Or.inl h
  · dsimp only
    split <;> exact Or.inl h
  · exact Or.inl h
  · dsimp only
    split
    · exact Or.inr ⟨rfl, rfl, hconfigured, rfl, rfl⟩
    · exact Or.inl h
  · exact Or.inl h

/-- A frame is played at some index, from a position that the loop may have moved. -/
theorem frame_eq_some (h : v.frame = some (x, w)) :
    ∃ position index, (x, w) = playFrame { v with position } index := by
  rw [frame] at h
  split at h
  · exact ⟨v.position, _, (Option.some.inj h).symm⟩
  split at h
  · cases h
  · exact ⟨_, _, (Option.some.inj h).symm⟩

theorem Keeps.frame (h : v.frame = some (x, w)) : v.Keeps w := by
  obtain ⟨position, index, heq⟩ := frame_eq_some h
  obtain ⟨-, rfl⟩ := Prod.mk.inj heq
  obtain ⟨hpaused, hsamples, hvolume⟩ := keeps_advanceEnvelope { v with position }
  exact ⟨hpaused, hsamples, hvolume⟩

theorem Silent.frame (hv : v.Silent) (h : v.frame = some (x, w)) : x = 0 ∧ w.Silent := by
  obtain ⟨position, index, heq⟩ := frame_eq_some h
  obtain ⟨rfl, rfl⟩ := Prod.mk.inj heq
  have hmoved : Silent { v with position } := ⟨hv.playing, hv.on, hv.configured, hv.phase, hv.height⟩
  obtain ⟨hplaying, hon, hconfigured, hphase, hheight⟩ := hmoved.advanceEnvelope
  refine ⟨?_, hplaying, hon, hconfigured, hphase, hheight⟩
  rw [hheight, Nat.cast_zero, Int.mul_zero]
  rfl

theorem frame_playing (hv : v.playing = true) (h : v.frame = some (x, w)) : w.playing = true ∨ w.Silent := by
  obtain ⟨position, index, heq⟩ := frame_eq_some h
  obtain ⟨-, rfl⟩ := Prod.mk.inj heq
  rcases advanceEnvelope_playing (v := { v with position }) hv with hplaying | hsilent
  · exact Or.inl hplaying
  · exact Or.inr ⟨hsilent.playing, hsilent.on, hsilent.configured, hsilent.phase, hsilent.height⟩

theorem keeps_mixFrames (n : Nat) (v : Voice) : v.Keeps (mixFrames n v).2 := by
  induction n generalizing v with
  | zero => exact ⟨rfl, rfl, rfl⟩
  | succ n ih =>
    cases hframe : v.frame with
    | none =>
      rw [mixFrames_of_none hframe]
      exact ⟨rfl, rfl, rfl⟩
    | some out =>
      rw [mixFrames_of_some hframe]
      exact (Keeps.frame hframe).trans (ih _)

theorem length_mixFrames_le (n : Nat) (v : Voice) : (mixFrames n v).1.length ≤ n := by
  induction n generalizing v with
  | zero => exact Nat.le_refl 0
  | succ n ih =>
    cases hframe : v.frame with
    | none =>
      rw [mixFrames_of_none hframe]
      exact Nat.zero_le _
    | some out =>
      rw [mixFrames_of_some hframe]
      exact Nat.succ_le_succ (ih _)

/-- A voice that ends plays no more. -/
theorem mixFrames_ended (h : (mixFrames n v).1.length < n) (m : Nat) :
    mixFrames (n + m) v = mixFrames n v ∧ (mixFrames n v).2.playing = false := by
  induction n generalizing v with
  | zero => exact absurd h (Nat.lt_irrefl 0)
  | succ n ih =>
    rw [Nat.add_right_comm]
    cases hframe : v.frame with
    | none =>
      rw [mixFrames_of_none hframe, mixFrames_of_none hframe]
      exact ⟨rfl, rfl⟩
    | some out =>
      rw [mixFrames_of_some hframe] at h
      rw [mixFrames_of_some hframe, mixFrames_of_some hframe]
      obtain ⟨heq, hplaying⟩ := ih (Nat.lt_of_succ_lt_succ h)
      rw [heq]
      exact ⟨rfl, hplaying⟩

theorem mixFrames_add (h : (mixFrames n v).1.length = n) (m : Nat) :
    mixFrames (n + m) v =
      ((mixFrames n v).1 ++ (mixFrames m (mixFrames n v).2).1, (mixFrames m (mixFrames n v).2).2) := by
  induction n generalizing v with
  | zero =>
    rw [Nat.zero_add]
    rfl
  | succ n ih =>
    rw [Nat.add_right_comm]
    cases hframe : v.frame with
    | none =>
      rw [mixFrames_of_none hframe] at h
      cases h
    | some out =>
      rw [mixFrames_of_some hframe] at h
      rw [mixFrames_of_some hframe, mixFrames_of_some hframe, ih (Nat.succ_injective h)]
      rfl

theorem Silent.mixFrames (hv : v.Silent) (n : Nat) :
    (∀ x ∈ (mixFrames n v).1, x = 0) ∧ (mixFrames n v).2.Silent := by
  induction n generalizing v with
  | zero => exact ⟨fun x hx => absurd hx List.not_mem_nil, hv⟩
  | succ n ih =>
    cases hframe : v.frame with
    | none =>
      rw [mixFrames_of_none hframe]
      exact ⟨fun x hx => absurd hx List.not_mem_nil, rfl, rfl, hv.configured, hv.phase, rfl⟩
    | some out =>
      rw [mixFrames_of_some hframe]
      obtain ⟨hsample, hw⟩ := hv.frame hframe
      obtain ⟨hzero, hlast⟩ := ih hw
      refine ⟨fun x hx => ?_, hlast⟩
      rcases List.mem_cons.1 hx with rfl | hx
      · exact hsample
      · exact hzero x hx

theorem mixFrames_playing (hv : v.playing = true) (h : (mixFrames n v).1.length = n) :
    (mixFrames n v).2.playing = true ∨ (mixFrames n v).2.Silent := by
  induction n generalizing v with
  | zero => exact Or.inl hv
  | succ n ih =>
    cases hframe : v.frame with
    | none =>
      rw [mixFrames_of_none hframe] at h
      cases h
    | some out =>
      rw [mixFrames_of_some hframe] at h ⊢
      rcases frame_playing hv hframe with hplaying | hsilent
      · exact ih hplaying (Nat.succ_injective h)
      · exact Or.inr (hsilent.mixFrames n).2

/-- The voice but for `remainingSamples`, which no frame reads. -/
def audible (v : Voice) : Voice := { v with remainingSamples := 0 }

theorem advanceEnvelope_audible (v : Voice) : v.audible.advanceEnvelope.audible = v.advanceEnvelope.audible := by
  change audible (advanceEnvelope { v with remainingSamples := 0 }) = _
  cases v
  simp only [advanceEnvelope]
  split
  · rfl
  split
  · rfl
  · split <;> rfl
  · rfl
  · split <;> rfl
  · rfl

theorem playFrame_audible (v : Voice) (index : Nat) :
    (v.audible.playFrame index).1 = (v.playFrame index).1 ∧
      (v.audible.playFrame index).2.audible = (v.playFrame index).2.audible := by
  have hheight : v.audible.advanceEnvelope.envelopeHeight = v.advanceEnvelope.envelopeHeight := by
    have h := congrArg envelopeHeight (advanceEnvelope_audible v)
    exact h
  constructor
  · rw [playFrame, playFrame]
    dsimp only
    rw [hheight]
    rfl
  · have hmoved :=
      congrArg (fun v : Voice => { v with position := v.position + v.pitch }) (advanceEnvelope_audible v)
    exact hmoved

theorem frame_audible (v : Voice) :
    v.audible.frame.map (fun out => (out.1, out.2.audible)) = v.frame.map fun out => (out.1, out.2.audible) := by
  have hplayed : ∀ (v : Voice) index, ((v.audible.playFrame index).1, (v.audible.playFrame index).2.audible) =
      ((v.playFrame index).1, (v.playFrame index).2.audible) := by
    intro v index
    rw [(playFrame_audible v index).1, (playFrame_audible v index).2]
  by_cases hindex : v.position >>> 12 < v.samples.length
  · have h : v.frame = some (v.playFrame (v.position >>> 12)) := if_pos hindex
    have h' : v.audible.frame = some (v.audible.playFrame (v.position >>> 12)) := if_pos hindex
    rw [h, h']
    exact congrArg some (hplayed v _)
  cases hloop : v.loop with
  | false =>
    have h : v.frame = none := (if_neg hindex).trans (if_pos (by rw [hloop]; rfl))
    have h' : v.audible.frame = none := (if_neg hindex).trans (if_pos (by rw [audible, hloop]; rfl))
    rw [h, h']
  | true =>
    have h : v.frame = some (playFrame { v with position := v.loopIndex <<< 12 } v.loopIndex) :=
      (if_neg hindex).trans (if_neg (by rw [hloop]; exact Bool.false_ne_true))
    have h' : v.audible.frame =
        some (playFrame { v.audible with position := v.loopIndex <<< 12 } v.loopIndex) :=
      (if_neg hindex).trans (if_neg (by rw [audible, hloop]; exact Bool.false_ne_true))
    rw [h, h']
    exact congrArg some (hplayed { v with position := v.loopIndex <<< 12 } _)

theorem mixFrames_audible (n : Nat) (h : v.audible = w.audible) :
    (mixFrames n v).1 = (mixFrames n w).1 ∧ (mixFrames n v).2.audible = (mixFrames n w).2.audible := by
  induction n generalizing v w with
  | zero => exact ⟨rfl, h⟩
  | succ n ih =>
    have hframe := (frame_audible v).symm.trans (h ▸ frame_audible w)
    cases hv : v.frame with
    | none =>
      rw [hv] at hframe
      rw [mixFrames_of_none hv, mixFrames_of_none (Option.map_eq_none_iff.1 hframe.symm)]
      have hfinished := congrArg finished h
      exact ⟨rfl, hfinished⟩
    | some out =>
      rw [hv] at hframe
      obtain ⟨out', hw, heq⟩ := Option.map_eq_some_iff.1 hframe.symm
      obtain ⟨hsample, hnext⟩ := Prod.mk.inj heq
      obtain ⟨hrest, hlast⟩ := ih hnext.symm
      rw [mixFrames_of_some hv, mixFrames_of_some hw, hrest]
      dsimp only
      rw [hsample]
      exact ⟨rfl, hlast⟩

/-- What can be told of a voice from outside: its flags, its phase and its height. -/
structure Agrees (v w : Voice) : Prop where
  playing : v.playing = w.playing
  on : v.on = w.on
  phase : v.envelopePhase = w.envelopePhase
  height : v.envelopeHeight = w.envelopeHeight

theorem Silent.agrees (hv : v.Silent) (hw : w.Silent) : v.Agrees w :=
  ⟨hv.playing.trans hw.playing.symm, hv.on.trans hw.on.symm, hv.phase.trans hw.phase.symm,
    hv.height.trans hw.height.symm⟩

theorem Agrees.of_audible (h : v.audible = w.audible) : v.Agrees w := by
  have hplaying := congrArg Voice.playing h
  have hon := congrArg Voice.on h
  have hphase := congrArg Voice.envelopePhase h
  have hheight := congrArg Voice.envelopeHeight h
  exact ⟨hplaying, hon, hphase, hheight⟩

theorem mixVoice_idle (h : v.playing = false ∨ v.paused = true ∨ v.samples.isEmpty = true) (n : Nat) :
    v.mixVoice n = ([], v) := by
  refine if_pos ?_
  rw [Bool.not_eq_true']
  exact h

theorem mixVoice_active (hplaying : v.playing = true) (hpaused : v.paused = false)
    (hsamples : v.samples.isEmpty = false) (n : Nat) :
    (v.mixVoice n).1 = (mixFrames n v).1 ∧ (v.mixVoice n).2.audible = (mixFrames n v).2.audible := by
  rw [mixVoice, if_neg (by rw [hplaying, hpaused, hsamples]; decide)]
  exact ⟨rfl, rfl⟩

theorem getD_of_forall_eq {l : List Int} (h : ∀ x ∈ l, x = 0) (i : Nat) : l.getD i 0 = 0 := by
  rw [List.getD_eq_getElem?_getD]
  cases hi : l[i]? with
  | none => rfl
  | some x => exact h x (List.mem_of_getElem? hi)

/-- The frames of a voice in two mixes are those of one mix, and the voice ends up alike. -/
theorem mixVoice_add (n m : Nat) (v : Voice) :
    (∀ f, f < n → (v.mixVoice (n + m)).1.getD f 0 = (v.mixVoice n).1.getD f 0) ∧
      (∀ f, (v.mixVoice (n + m)).1.getD (n + f) 0 = ((v.mixVoice n).2.mixVoice m).1.getD f 0) ∧
      (v.mixVoice (n + m)).2.Agrees ((v.mixVoice n).2.mixVoice m).2 := by
  by_cases hidle : v.playing = false ∨ v.paused = true ∨ v.samples.isEmpty = true
  · simp only [mixVoice_idle hidle]
    exact ⟨fun _ _ => trivial, fun _ => rfl, rfl, rfl, rfl, rfl⟩
  simp only [not_or, Bool.not_eq_false, Bool.not_eq_true] at hidle
  obtain ⟨hplaying, hpaused, hsamples⟩ := hidle
  obtain ⟨hwhole, hlast⟩ := mixVoice_active hplaying hpaused hsamples (n + m)
  obtain ⟨hfirst, hmiddle⟩ := mixVoice_active hplaying hpaused hsamples n
  have hkeeps := keeps_mixFrames n v
  have hmiddlePlaying : (v.mixVoice n).2.playing = (mixFrames n v).2.playing :=
    (Agrees.of_audible hmiddle).playing
  rcases Nat.lt_or_eq_of_le (length_mixFrames_le n v) with hended | hlength
  · -- the voice ended, and is not mixed again
    obtain ⟨heq, hstopped⟩ := mixFrames_ended hended m
    rw [mixVoice_idle (Or.inl (hmiddlePlaying.trans hstopped)), hwhole, hfirst, heq]
    refine ⟨fun _ _ => rfl, fun f => ?_, Agrees.of_audible (hlast.trans (heq ▸ hmiddle.symm))⟩
    exact List.getD_eq_default _ _ (hended.le.trans (Nat.le_add_right n f))
  have hsplit := mixFrames_add hlength m
  rw [hwhole, hfirst, hsplit]
  rw [hsplit] at hlast
  refine ⟨fun f hf => List.getD_append _ _ _ _ (hlength.symm ▸ hf), ?_⟩
  have hsecond : ∀ f, ((mixFrames n v).1 ++ (mixFrames m (mixFrames n v).2).1).getD (n + f) 0 =
      (mixFrames m (mixFrames n v).2).1.getD f 0 := by
    intro f
    rw [List.getD_append_right _ _ _ _ (hlength.trans_le (Nat.le_add_right n f)), hlength, Nat.add_sub_cancel_left]
  rcases mixFrames_playing hplaying hlength with hgoes | hsilent
  · have hsame : (v.mixVoice n).2.paused = false ∧ (v.mixVoice n).2.samples.isEmpty = false := by
      have hpaused' := congrArg paused hmiddle
      have hsamples' := congrArg samples hmiddle
      exact ⟨(hpaused'.trans hkeeps.paused).trans hpaused,
        (congrArg List.isEmpty (hsamples'.trans hkeeps.samples)).trans hsamples⟩
    obtain ⟨hrest, hend⟩ := mixVoice_active (hmiddlePlaying.trans hgoes) hsame.1 hsame.2 m
    obtain ⟨hframes, haudible⟩ := mixFrames_audible m hmiddle
    rw [hrest, hframes]
    exact ⟨hsecond, Agrees.of_audible (hlast.trans (hend.trans haudible).symm)⟩
  · -- the envelope was released, and the rest of the one mix is silent
    have hstill : (v.mixVoice n).2.Silent := by
      obtain ⟨hp, ho, hph, hh⟩ := Agrees.of_audible hmiddle
      have hconfigured := congrArg envelopeConfigured hmiddle
      exact ⟨hp.trans hsilent.playing, ho.trans hsilent.on, hconfigured.trans hsilent.configured,
        hph.trans hsilent.phase, hh.trans hsilent.height⟩
    obtain ⟨hzero, hafter⟩ := hsilent.mixFrames m
    rw [mixVoice_idle (Or.inl hstill.playing)]
    refine ⟨fun f => (hsecond f).trans (getD_of_forall_eq hzero f), ?_⟩
    obtain ⟨hp, ho, hph, hh⟩ := Agrees.of_audible hlast
    obtain ⟨hp', ho', hph', hh'⟩ := hafter.agrees hstill
    exact ⟨hp.trans hp', ho.trans ho', hph.trans hph', hh.trans hh'⟩

theorem mixVoice_volume (n : Nat) (v : Voice) : (v.mixVoice n).2.volume = v.volume := by
  rw [mixVoice]
  split
  · rfl
  · exact (keeps_mixFrames n v).volume

theorem contribution_first {n f : Nat} (hf : f < n) (m : Nat) (v : Voice) (side : Nat) :
    v.contribution (n + m) f side = v.contribution n f side := by
  rw [contribution, contribution, (mixVoice_add n m v).1 f hf]

theorem contribution_second (n m : Nat) (v : Voice) (f side : Nat) :
    v.contribution (n + m) (n + f) side = (v.mixVoice n).2.contribution m f side := by
  rw [contribution, contribution, (mixVoice_add n m v).2.1 f, mixVoice_volume]

end Voice

namespace SasCore
variable {core : SasCore} {output : PcmBuffer} {preserve : Option (Int × Int)} {f side : Nat}

theorem mem_slots {slot : Nat × Nat} : slot ∈ core.slots ↔ slot.1 < core.grain ∧ slot.2 < core.channels := by
  simp only [slots, List.mem_flatMap, List.mem_range, List.mem_map]
  constructor
  · rintro ⟨f, hf, side, hside, rfl⟩
    exact ⟨hf, hside⟩
  · rintro ⟨hf, hside⟩
    exact ⟨slot.1, hf, slot.2, hside, rfl⟩

theorem outputIndex_inj {a b : Nat × Nat} (ha : a ∈ core.slots) (hb : b ∈ core.slots)
    (h : core.outputIndex a.1 a.2 = core.outputIndex b.1 b.2) : a = b := by
  rw [mem_slots] at ha hb
  rw [outputIndex, outputIndex] at h
  split at h
  · obtain ⟨hside, hframe⟩ := mul_add_inj ha.1 hb.1 h
    exact Prod.ext hframe hside
  · obtain ⟨hframe, hside⟩ := mul_add_inj ha.2 hb.2 h
    exact Prod.ext hframe hside

/-- Each sample of the output is the cell of the mix buffer for its frame and side. -/
theorem mix_output (core : SasCore) (output : PcmBuffer) (preserve : Option (Int × Int)) (hf : f < core.grain)
    (hside : side < core.channels) :
    (core.mix output preserve).1 (core.outputIndex f side) = clampSample (core.mixed output preserve f side) := by
  have hmem : (f, side) ∈ core.slots := mem_slots.2 ⟨hf, hside⟩
  rw [mix]
  exact foldl_update_of_mem (fun slot : Nat × Nat => core.outputIndex slot.1 slot.2)
    (fun slot => clampSample (core.mixed output preserve slot.1 slot.2))
    (fun _ ha _ hb => outputIndex_inj ha hb) hmem output

/-- Two outputs hold what one output holds, frame by frame: of the first `n` frames and of the next `m`. -/
structure Parts (core : SasCore) (n m : Nat) (whole first second : PcmBuffer) : Prop where
  first {f side : Nat} (hf : f < n) (hside : side < core.channels) :
    first (outputIndex { core with grain := n } f side) = whole (outputIndex { core with grain := n + m } f side)
  second {f side : Nat} (hf : f < m) (hside : side < core.channels) :
    second (outputIndex { core with grain := m } f side) =
      whole (outputIndex { core with grain := n + m } (n + f) side)

theorem preserved_congr {core' : SasCore} {output' : PcmBuffer} {f' : Nat}
    (h : preserve ≠ none → output (core.outputIndex f side) = output' (core'.outputIndex f' side)) :
    core.preserved output preserve f side = core'.preserved output' preserve f' side := by
  cases preserve with
  | none => rfl
  | some volumes =>
    rw [preserved, preserved, h (Option.some_ne_none volumes)]

/-- To mix `n` frames and then `m` is to mix `n + m`: the samples are the same, and so are the flags, phases
and heights of the voices. What a mix preserves of the output is taken to be the same. -/
theorem mix_add (core : SasCore) (n m : Nat) (preserve : Option (Int × Int)) (whole first second : PcmBuffer)
    (h : preserve ≠ none → core.Parts n m whole first second) :
    let one := mix { core with grain := n + m } whole preserve
    let part := mix { core with grain := n } first preserve
    let last := mix { part.2 with grain := m } second preserve
    core.Parts n m one.1 part.1 last.1 ∧ ∀ i, (one.2.voices i).Agrees (last.2.voices i) := by
  intro one part last
  refine ⟨⟨fun {f side} hf hside => ?_, fun {f side} hf hside => ?_⟩, fun i => ?_⟩
  · have hone := mix_output { core with grain := n + m } whole preserve (Nat.lt_add_right m hf) hside
    have hpart := mix_output { core with grain := n } first preserve hf hside
    refine hpart.trans (Eq.trans ?_ hone.symm)
    refine congrArg clampSample (congrArg₂ (· + ·) (preserved_congr fun hp => (h hp).first hf hside) ?_)
    exact Finset.sum_congr rfl fun i _ => (Voice.contribution_first hf m _ side).symm
  · have hone := mix_output { core with grain := n + m } whole preserve (Nat.add_lt_add_left hf n) hside
    have hlast := mix_output { part.2 with grain := m } second preserve hf hside
    refine hlast.trans (Eq.trans ?_ hone.symm)
    refine congrArg clampSample (congrArg₂ (· + ·) (preserved_congr fun hp => (h hp).second hf hside) ?_)
    exact Finset.sum_congr rfl fun i _ => (Voice.contribution_second n m _ f side).symm
  · exact (Voice.mixVoice_add n m (core.voices i)).2.2

/-- A released voice, a voice with a loop and one that ends, in parts of 64 frames that preserve the output. -/
def chord : SasCore :=
  { grain := 64, outputMode := 1
    voices := fun i =>
      match i.val with
      | 0 =>
        { playing := true, samples := List.replicate 100 1000, envelopeConfigured := true, envelopePhase := .release
          envelopeHeight := 0x1000000, releaseRate := 0x80000 }
      | 1 => { playing := true, on := true, loop := true, pitch := 0x1800, samples := [100, 200, 300] }
      | 2 => { playing := true, on := true, samples := List.replicate 80 2000 }
      | _ => {} }

theorem mix_add_chord :
    let buffer : PcmBuffer := fun _ => 7
    let one := mix { chord with grain := 64 + 64 } buffer (some (0x1000, 0x800))
    let part := mix { chord with grain := 64 } buffer (some (0x1000, 0x800))
    let last := mix { part.2 with grain := 64 } buffer (some (0x1000, 0x800))
    chord.Parts 64 64 one.1 part.1 last.1 ∧ ∀ i, (one.2.voices i).Agrees (last.2.voices i) :=
  mix_add chord 64 64 (some (0x1000, 0x800)) (fun _ => 7) (fun _ => 7) (fun _ => 7)
    fun _ => ⟨fun _ _ => rfl, fun _ _ => rfl⟩

end SasCore

end Psprism
