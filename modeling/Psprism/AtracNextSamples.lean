import Psprism.AtracReset

/-!
# What `next_samples` tells (`atrac_state.hpp`)

`next_samples` works out the size of the next decode from the position alone. While the library gives full frames, it is
right about every decode that goes on from there (`AtracDecoder.nextSamples_predicts`). It does not look at the data: a
decode that has to wait for more, or that finds the data at its end before the track, gives nothing whatever it tells.
And it does not look at the loop count: at the end it tells 0, when a decode that has a loop left begins anew.
-/

namespace Psprism
open Transducer

namespace AtracDecoder
open Atrac
variable {σ α : Type} {codec : AtracCodec σ α} {d d' : AtracDecoder σ} {f : Nat} {c : σ}

/-- The library has given the decoder a context for its track, and gives a full frame for each frame of the data. -/
def FullFrames (codec : AtracCodec σ α) (d : AtracDecoder σ) : Prop :=
  d.track.blockAlign ≠ 0 → d.context.isSome ∧ codec.Decodes d.track d.encoded

/-- The states of a decoder, while the library gives full frames. New data and what is left of a window announced
before are less than 4 GiB. -/
inductive Reachable (codec : AtracCodec σ α) (requested : Word) : AtracDecoder σ → Prop
  | new : Reachable codec requested (new requested)
  | setData {d : AtracDecoder σ} (h : Reachable codec requested d) (mapped : Word → Nat → Option Bytes)
      (address size : Word) (hroom : size.toNat + d.pendingWritableBytes < 2 ^ 32)
      (hfull : FullFrames codec (d.setDataAt codec mapped address size).2) :
      Reachable codec requested (d.setDataAt codec mapped address size).2
  | call {d : AtracDecoder σ} (h : Reachable codec requested d) (call : AtracCall)
      (hfull : FullFrames codec (d.step codec call).2) : Reachable codec requested (d.step codec call).2

/-- A loop count sends the next decode back to the beginning. -/
def Restarts (d : AtracDecoder σ) : Prop := d.loopCount ≠ 0 ∧ d.AtEnd

/-- The track is not at its end, but there is no block to decode. -/
def Starved (d : AtracDecoder σ) : Prop :=
  d.decodedSamples < d.endExclusive ∧
    (d.encoded.isEmpty ∨ d.track.blockAlign = 0 ∨ d.dataCursor + d.blockAlign > min d.declaredEnd d.encoded.length)

/-! ### The end -/

/-- A decoder has finished only at its end. -/
def EndsAtEnd (d : AtracDecoder σ) : Prop := d.finished = true → d.AtEnd

theorem endsAtEnd_of_not_finished (h : d.finished = false) : d.EndsAtEnd := by
  intro hfinished
  rw [h] at hfinished
  cases hfinished

/-- What a call leaves that neither plays nor moves the position. More data may be there. -/
structure Quiet (d d' : AtracDecoder σ) : Prop where
  track : d'.track = d.track
  finished : d'.finished = d.finished
  loopPending : d'.loopPending = d.loopPending
  position : d'.decodedSamples = d.decodedSamples
  cursor : d'.dataCursor = d.dataCursor
  data : d.encoded <+: d'.encoded

theorem Quiet.refl (d : AtracDecoder σ) : d.Quiet d := ⟨rfl, rfl, rfl, rfl, rfl, List.prefix_refl _⟩

theorem quiet_setLoopNum (d : AtracDecoder σ) (count : Word) : d.Quiet (d.setLoopNum count).2 := by
  rw [setLoopNum]
  split
  · exact .refl d
  · exact ⟨rfl, rfl, rfl, rfl, rfl, List.prefix_refl _⟩

theorem quiet_addStreamData (d : AtracDecoder σ) (mapped : Word → Nat → Option Bytes) (n : Nat) :
    d.Quiet (d.addStreamData mapped n).2 := by
  rw [addStreamData]
  split
  · exact .refl d
  split
  · exact .refl d
  split
  · exact .refl d
  · exact ⟨rfl, rfl, rfl, rfl, rfl, List.prefix_append ..⟩

theorem EndsAtEnd.quiet (h : d.EndsAtEnd) (hquiet : d.Quiet d') : d'.EndsAtEnd := by
  intro hend
  rw [hquiet.finished] at hend
  rw [AtEnd, endExclusive, declaredEnd, blockAlign, hquiet.track, hquiet.position, hquiet.cursor]
  exact (h hend).imp_right fun hpast => ⟨hpast.1.trans hquiet.data.length_le, hpast.2⟩

theorem endsAtEnd_finishDecode (n : Nat) (output : List (BitVec 16 × BitVec 16)) (advanced : Bool × AtracDecoder σ) :
    (finishDecode n output advanced).2.EndsAtEnd := by
  intro hfinished
  exact Or.inl (of_decide_eq_true hfinished).2.1

/-- A block that is there is decoded as told. -/
theorem decodePacket_of_whole (h : Playing codec d) (hdec : codec.Decodes d.track d.encoded)
    (hwhole : d.dataCursor + d.blockAlign ≤ d.encoded.length) :
    (d.decodePacket codec).1.result = success ∧ (d.decodePacket codec).1.sampleCount = d.fullCount ∧
      (d.decodePacket codec).2.EndsAtEnd := by
  obtain ⟨f, ⟨hcursor, c, hc, -⟩, -⟩ := h.stands
  rw [blockAlign, hcursor, ← AtracTrack.frameOffset_succ] at hwhole
  rw [decodePacket_eq hcursor hc h.holds.encoded_lt hwhole hdec, deliver_eq (hdec f hwhole c).2]
  exact ⟨rfl, rfl, endsAtEnd_finishDecode _ _ _⟩

theorem EndsAtEnd.decodePacket (h : Playing codec d) (hdec : codec.Decodes d.track d.encoded) (hends : d.EndsAtEnd) :
    (d.decodePacket codec).2.EndsAtEnd := by
  by_cases hwhole : d.dataCursor + d.blockAlign ≤ d.encoded.length
  · exact (decodePacket_of_whole h hdec hwhole).2.2
  · rw [AtracDecoder.decodePacket, if_pos (Nat.lt_of_not_le hwhole)]
    exact hends

theorem endsAtEnd_restart {next : AtracDecoder σ → Decoded × AtracDecoder σ} (hend : d.AtEnd)
    (hnext : (next (d.leaveLoop.rewind codec)).2.EndsAtEnd) : (d.restart codec next).2.EndsAtEnd := by
  rw [restart]
  split
  · exact hnext
  · exact fun _ => hend

theorem EndsAtEnd.decodeAtCursor (h : Playing codec d) (hdec : codec.Decodes d.track d.encoded) (hends : d.EndsAtEnd) :
    (d.decodeAtCursor codec).2.EndsAtEnd := by
  rw [AtracDecoder.decodeAtCursor]
  split
  · split
    · exact hends
    · exact endsAtEnd_restart (Or.inr (by omega))
        (EndsAtEnd.decodePacket h.leaveLoop.rewind hdec (endsAtEnd_of_not_finished rfl))
  · exact hends.decodePacket h hdec

theorem EndsAtEnd.decode (h : Playing codec d) (hdec : codec.Decodes d.track d.encoded) (hends : d.EndsAtEnd) :
    (d.decode codec).2.EndsAtEnd := by
  rw [AtracDecoder.decode]
  split
  · exact hends
  rw [if_neg (by rw [h.pending]; exact Bool.false_ne_true), decodeFromPosition]
  split
  · next hpast =>
    exact endsAtEnd_restart (Or.inl hpast)
      (EndsAtEnd.decodeAtCursor h.leaveLoop.rewind hdec (endsAtEnd_of_not_finished rfl))
  · exact hends.decodeAtCursor h hdec

/-! ### Reachable states -/

/-- Either no track was accepted yet, or one is playing. -/
structure Ready (codec : AtracCodec σ α) (d : AtracDecoder σ) : Prop where
  pending : d.loopPending = false
  track : d.track.blockAlign = 0 ∨ Playing codec d
  ends : d.EndsAtEnd

theorem decode_of_unset (h : d.track.blockAlign = 0) : d.decode codec = ({ result := unsetData }, d) :=
  if_pos (Or.inr h)

theorem resetPlayPosition_of_unset (h : d.track.blockAlign = 0) (sample : Word) :
    (d.resetPlayPosition codec sample).2 = d := by
  have hseek : d.seek codec sample.toNat = (false, d) := if_pos (Or.inl h)
  rw [resetPlayPosition, hseek]
  split
  · rfl
  · rfl

/-- A decoder without a track. -/
theorem Ready.step_of_unset (h : Ready codec d) (hunset : d.track.blockAlign = 0) (call : AtracCall) :
    Ready codec (d.step codec call).2 := by
  have hquiet {d' : AtracDecoder σ} (hd : d.Quiet d') : Ready codec d' :=
    ⟨hd.loopPending.trans h.pending, Or.inl ((congrArg AtracTrack.blockAlign hd.track).trans hunset), h.ends.quiet hd⟩
  cases call with
  | decodeData =>
    rw [AtracDecoder.step, decode_of_unset hunset]
    exact h
  | resetPlayPosition sample =>
    rw [AtracDecoder.step, resetPlayPosition_of_unset hunset]
    exact h
  | rewind => exact ⟨h.pending, Or.inl hunset, endsAtEnd_of_not_finished rfl⟩
  | setLoopNum count => exact hquiet (quiet_setLoopNum d count)
  | addStreamData mapped byteCount => exact hquiet (quiet_addStreamData d mapped byteCount.toNat)
  | getStreamDataInfo => exact hquiet ⟨rfl, rfl, rfl, rfl, rfl, List.prefix_refl _⟩
  | _ => exact h

theorem Ready.step_of_playing (h : Ready codec d) (hplaying : Playing codec d)
    (hdec : codec.Decodes d.track d.encoded) (call : AtracCall) : Ready codec (d.step codec call).2 := by
  have hnext := hplaying.step hdec call
  refine ⟨hnext.pending, Or.inr hnext, ?_⟩
  cases call with
  | decodeData => exact h.ends.decode hplaying hdec
  | resetPlayPosition sample =>
    rw [AtracDecoder.step, resetPlayPosition]
    split
    · exact h.ends
    · rcases hplaying.seek hdec sample.toNat with hrefused | ⟨c, hfound, -⟩
      · rw [hrefused]
        exact h.ends
      · rw [hfound]
        exact endsAtEnd_of_not_finished rfl
  | rewind => exact endsAtEnd_of_not_finished rfl
  | setLoopNum count => exact h.ends.quiet (quiet_setLoopNum d count)
  | addStreamData mapped byteCount => exact h.ends.quiet (quiet_addStreamData d mapped byteCount.toNat)
  | getStreamDataInfo => exact h.ends.quiet ⟨rfl, rfl, rfl, rfl, rfl, List.prefix_refl _⟩
  | _ => exact h.ends

theorem setDataAt_cases_loaded (codec : AtracCodec σ α) (d : AtracDecoder σ) (mapped : Word → Nat → Option Bytes)
    (address size : Word) : (d.setDataAt codec mapped address size).2 = d ∨
      ∃ source parsed, source.length = size.toNat ∧ parseRiff source = some parsed ∧
        (d.setDataAt codec mapped address size).2 = d.loaded parsed source address
          (codec.alloc parsed.codecType parsed.channels parsed.blockAlign parsed.jointStereo) := by
  rcases setDataAt_cases codec mapped address size with ⟨r, -, hset⟩ | ⟨r, source, parsed, hlength, hparsed, hset⟩
  · rw [hset]
    exact Or.inl rfl
  · rw [hset]
    split
    · exact Or.inl rfl
    · exact Or.inr ⟨source, parsed, hlength, hparsed, rfl⟩

theorem Ready.setDataAt (h : Ready codec d) (mapped : Word → Nat → Option Bytes) {address size : Word}
    (hroom : size.toNat + d.pendingWritableBytes < 2 ^ 32)
    (hfull : FullFrames codec (d.setDataAt codec mapped address size).2) :
    Ready codec (d.setDataAt codec mapped address size).2 := by
  rcases setDataAt_cases_loaded codec d mapped address size with hsame | ⟨source, parsed, hlength, hparsed, hloaded⟩
  · rw [hsame]
    exact h
  rw [hloaded] at hfull ⊢
  obtain ⟨hcontext, -⟩ := hfull (parseRiff_eq_some hparsed).1
  obtain ⟨c, hc⟩ := Option.isSome_iff_exists.1 hcontext
  have halloc : codec.alloc parsed.codecType parsed.channels parsed.blockAlign parsed.jointStereo = some c := hc
  rw [halloc]
  exact ⟨h.pending, Or.inr (playing_loaded h.pending (hlength.symm ▸ hroom) hparsed halloc),
    endsAtEnd_of_not_finished rfl⟩

theorem Reachable.fullFrames {requested : Word} (h : Reachable codec requested d) : FullFrames codec d := by
  cases h with
  | new => exact fun halign => absurd rfl halign
  | setData h mapped address size hroom hfull => exact hfull
  | call h call hfull => exact hfull

theorem Reachable.ready {requested : Word} (h : Reachable codec requested d) : Ready codec d := by
  induction h with
  | new => exact ⟨rfl, Or.inl rfl, endsAtEnd_of_not_finished rfl⟩
  | setData h mapped address size hroom hfull ih => exact ih.setDataAt mapped hroom hfull
  | call h call hfull ih =>
    rcases ih.track with hunset | hplaying
    · exact ih.step_of_unset hunset call
    · exact ih.step_of_playing hplaying (h.fullFrames hplaying.holds.align).2 call

/-! ### The prediction -/

theorem nextSamples_of_not_finished (h : d.finished = false) : d.nextSamples = d.fullCount := by
  have hskip : d.track.samplesPerFrame - min d.skipSamples d.track.samplesPerFrame =
      d.track.samplesPerFrame - d.skipSamples := by omega
  rw [nextSamples, h, fullCount, hskip]
  rfl

theorem limitOutputSamples_zero (d : AtracDecoder σ) : d.limitOutputSamples 0 = 0 :=
  Nat.le_zero.1 (d.limitOutputSamples_le 0)

/-- At the end of the track no sample is told. -/
theorem nextSamples_of_end (h : d.endExclusive ≤ d.decodedSamples) : d.nextSamples = 0 := by
  rw [nextSamples, remaining, Nat.sub_eq_zero_of_le h, Nat.zero_mod, Nat.min_zero]
  split
  · rfl
  · exact d.limitOutputSamples_zero

theorem decode_of_set (hpending : d.loopPending = false) (hset : ¬ (d.encoded.isEmpty ∨ d.track.blockAlign = 0)) :
    d.decode codec = d.decodeFromPosition codec := by
  rw [decode, if_neg hset, if_neg (by rw [hpending]; exact Bool.false_ne_true)]

theorem restart_of_no_loop {next : AtracDecoder σ → Decoded × AtracDecoder σ} (h : d.loopCount = 0) :
    d.restart codec next = ({ result := allDataDecoded, reachedEnd := true }, { d with finished := true }) :=
  if_neg (not_not_intro h)

theorem decode_of_starved (codec : AtracCodec σ α) (hpending : d.loopPending = false) (hstays : ¬ d.Restarts) (h : d.Starved) :
    (d.decode codec).1.result ≠ success ∧ (d.decode codec).1.sampleCount = 0 := by
  obtain ⟨hinside, hnone⟩ := h
  by_cases hset : d.encoded.isEmpty ∨ d.track.blockAlign = 0
  · rw [decode, if_pos hset]
    exact ⟨(by decide : unsetData ≠ success), rfl⟩
  have hblock : d.dataCursor + d.blockAlign > min d.declaredEnd d.encoded.length := by
    rcases hnone with hempty | halign | hblock
    · exact absurd (Or.inl hempty) hset
    · exact absurd (Or.inr halign) hset
    · exact hblock
  rw [decode_of_set hpending hset, decodeFromPosition, if_neg (Nat.not_le.2 hinside), decodeAtCursor,
    if_pos hblock]
  split
  · exact ⟨(by decide : noData ≠ success), rfl⟩
  · next hall =>
    have hcount : d.loopCount = 0 := by
      by_contra hcount
      exact hstays ⟨hcount, Or.inr (by omega)⟩
    rw [restart_of_no_loop hcount]
    exact ⟨(by decide : allDataDecoded ≠ success), rfl⟩

/-- Past the end of the track a decode gives nothing. -/
theorem decode_of_end (hpending : d.loopPending = false) (hstays : ¬ d.Restarts)
    (hend : d.endExclusive ≤ d.decodedSamples) : (d.decode codec).1.sampleCount = 0 := by
  have hcount : d.loopCount = 0 := by
    by_contra hcount
    exact hstays ⟨hcount, Or.inl hend⟩
  by_cases hset : d.encoded.isEmpty ∨ d.track.blockAlign = 0
  · rw [decode, if_pos hset]
  · rw [decode_of_set hpending hset, decodeFromPosition, if_pos hend, restart_of_no_loop hcount]

/-- Where there is a block, the decode gives what is told. -/
theorem decode_of_block (h : Ready codec d) (hfull : FullFrames codec d) (hinside : d.decodedSamples < d.endExclusive)
    (hnot : ¬ d.Starved) : (d.decode codec).1.sampleCount = d.nextSamples := by
  have hpresent := not_or.1 fun hnone => hnot ⟨hinside, hnone⟩
  obtain ⟨halign, hblock⟩ := not_or.1 hpresent.2
  obtain ⟨-, hdec⟩ := hfull halign
  have hend : ¬ d.AtEnd := by
    rintro (hpast | ⟨hall, hcursor⟩)
    · omega
    · omega
  have hfinished : d.finished = false := Bool.eq_false_of_not_eq_true fun hfinished => hend (h.ends hfinished)
  rw [decode_of_set h.pending (not_or.2 ⟨hpresent.1, halign⟩), decodeFromPosition, if_neg (Nat.not_le.2 hinside),
    decodeAtCursor, if_neg hblock, nextSamples_of_not_finished hfinished]
  exact (decodePacket_of_whole (h.track.resolve_left halign) hdec (by omega)).2.1

/-- For every state of a decoder, while the library gives full frames, unless a loop count sends the decode back to the
beginning: a decode that succeeds gives as many samples as were told; none are told exactly if it gives none, unless it
lacks the data; and then it gives none. -/
theorem nextSamples_predicts (codec : AtracCodec σ α) (requested : Word) (d : AtracDecoder σ)
    (h : Reachable codec requested d) (hstays : ¬ d.Restarts) :
    ((d.decode codec).1.result = success → (d.decode codec).1.sampleCount = d.nextSamples) ∧
      (¬ d.Starved → (d.nextSamples = 0 ↔ (d.decode codec).1.sampleCount = 0)) ∧
      (d.Starved → (d.decode codec).1.result ≠ success ∧ (d.decode codec).1.sampleCount = 0) := by
  have hready := h.ready
  by_cases hstarved : d.Starved
  · have hnone := decode_of_starved codec hready.pending hstays hstarved
    exact ⟨fun hsuccess => absurd hsuccess hnone.1, fun hnot => absurd hstarved hnot, fun _ => hnone⟩
  have hcount : (d.decode codec).1.sampleCount = d.nextSamples := by
    rcases Nat.lt_or_ge d.decodedSamples d.endExclusive with hinside | hend
    · exact decode_of_block hready h.fullFrames hinside hstarved
    · rw [decode_of_end hready.pending hstays hend, nextSamples_of_end hend]
  refine ⟨fun _ => hcount, fun _ => ?_, fun hnot => absurd hnot hstarved⟩
  rw [hcount]

/-- The first part of the short track, or all of it, on a new decoder. -/
def shortPart (size : Word) : AtracDecoder Unit := ((new 0).setDataAt indexCodec shortMemory 0x08804000 size).2

theorem fullFrames_indexCodec {d : AtracDecoder Unit} (hcontext : d.context.isSome) (hsize : d.track.samplesPerFrame = 1024) :
    FullFrames indexCodec d := fun _ => ⟨hcontext, indexCodec_decodes hsize _⟩

theorem reachable_shortPart {size : Word} (hcontext : (shortPart size).context.isSome)
    (hsize : (shortPart size).track.samplesPerFrame = 1024) : Reachable indexCodec 0 (shortPart size) :=
  .setData .new shortMemory 0x08804000 size size.isLt (fullFrames_indexCodec hcontext hsize)

theorem nextSamples_predicts_shortPart :
    ((shortPart 129).decode indexCodec).1.result = success ∧
      ((shortPart 129).decode indexCodec).1.sampleCount = (shortPart 129).nextSamples := by
  have hsuccess : ((shortPart 129).decode indexCodec).1.result = success := by decide +kernel
  have hcount : (shortPart 129).loopCount = 0 := by decide +kernel
  have hstays : ¬ (shortPart 129).Restarts := fun h => h.1 hcount
  have hreachable : Reachable indexCodec 0 (shortPart 129) := reachable_shortPart (by decide +kernel) (by decide +kernel)
  exact ⟨hsuccess, (nextSamples_predicts indexCodec 0 (shortPart 129) hreachable hstays).1 hsuccess⟩

/-- A decoder that waits for the one block of its track is said to give 10 samples and gives none; one that has played
its track and is given a loop is said to give none and gives 10. -/
theorem nextSamples_misses :
    let looped := after (step indexCodec) (shortPart 129) [.decodeData, .setLoopNum 1]
    (Reachable indexCodec 0 (shortPart 128) ∧ (shortPart 128).nextSamples = 10 ∧
        ((shortPart 128).decode indexCodec).1 = { result := noData }) ∧
      Reachable indexCodec 0 looped ∧ looped.nextSamples = 0 ∧
        (looped.decode indexCodec).1.result = success ∧ (looped.decode indexCodec).1.sampleCount = 10 := by
  intro looped
  refine ⟨⟨reachable_shortPart (by decide +kernel) (by decide +kernel), by decide +kernel, by decide +kernel⟩, ?_, ?_⟩
  · have hgiven : Reachable indexCodec 0 (shortPart 129) := reachable_shortPart (by decide +kernel) (by decide +kernel)
    have hplayed := hgiven.call .decodeData (fullFrames_indexCodec (by decide +kernel) (by decide +kernel))
    exact hplayed.call (.setLoopNum 1) (fullFrames_indexCodec (by decide +kernel) (by decide +kernel))
  · exact ⟨by decide +kernel, by decide +kernel, by decide +kernel⟩

end AtracDecoder

end Psprism
