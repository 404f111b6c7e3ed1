import Psprism.AtracPosition

/-!
# New data and new positions (`atrac_state.hpp`)

Whether a decoder that was used before goes on like a new one, when it is given data or is sent to a position.
The loop count, a loop that is pending and the window that was announced for more data outlive both, and the
last error of the library a new position. Without them nothing of what was played before shows
(`AtracDecoder.reset_as_new`).
-/

namespace Psprism
open Transducer

/-- A use of a decoder: new data, or one of the other operations. -/
inductive AtracUse
  | setData (mapped : Word → Nat → Option Bytes) (address size : Word)
  | call (call : AtracCall)

namespace AtracDecoder
open Atrac
variable {σ α : Type} {codec : AtracCodec σ α} {d d' e : AtracDecoder σ}

/-- `Decoder(requested_codec)`. -/
def new (requested : Word) : AtracDecoder σ := { requestedCodecType := requested }

def use (codec : AtracCodec σ α) (d : AtracDecoder σ) : AtracUse → AtracAnswer × AtracDecoder σ
  | .setData mapped address size =>
    ({ result := (d.setDataAt codec mapped address size).1 }, (d.setDataAt codec mapped address size).2)
  | .call call => d.step codec call

/-! ### The pointer to a window of no bytes -/

def pointTo (d : AtracDecoder σ) (p : Word) : AtracDecoder σ := { d with pendingWritePointer := p }

/-- The contexts of a preroll, by the track and its data. -/
def prime (codec : AtracCodec σ α) (t : AtracTrack) (data : List Byte) : Nat → Nat → Option σ → Bool × Option σ
  | 0, _, c => (true, c)
  | n + 1, frame, c =>
    let offset := t.dataOffset.toNat + frame * t.blockAlign.toNat
    if offset > 0xffffffff then (false, c)
    else if offset + t.blockAlign.toNat > data.length then (false, c)
    else
      match c with
      | none => (false, none)
      | some context =>
        let out := codec.decodeFrame context ((data.drop offset).take t.blockAlign.toNat)
        if 0 ≤ out.2.result then prime codec t data n (frame + 1) (some out.1) else (false, some out.1)

theorem preroll_eq_prime (codec : AtracCodec σ α) (n f : Nat) (d : AtracDecoder σ) : preroll codec n f d =
    ((prime codec d.track d.encoded n f d.context).1,
      { d with context := (prime codec d.track d.encoded n f d.context).2 }) := by
  induction n generalizing d f with
  | zero => rfl
  | succ n ih =>
    unfold preroll prime
    rw [blockAlign]
    dsimp only
    by_cases hoffset : d.track.dataOffset.toNat + f * d.track.blockAlign.toNat > 0xffffffff
    · rw [if_pos hoffset, if_pos hoffset]
    rw [if_neg hoffset, if_neg hoffset, decodePrerollPacket, blockAlign]
    by_cases hroom :
      d.track.dataOffset.toNat + f * d.track.blockAlign.toNat + d.track.blockAlign.toNat > d.encoded.length
    · rw [if_pos hroom, if_pos hroom]
    rw [if_neg hroom, if_neg hroom]
    cases hc : d.context with
    | none =>
      dsimp only
      rw [← hc]
    | some context =>
      dsimp only
      rw [packet, blockAlign]
      by_cases hresult : 0 ≤ (codec.decodeFrame context ((d.encoded.drop
          (d.track.dataOffset.toNat + f * d.track.blockAlign.toNat)).take d.track.blockAlign.toNat)).2.result
      · rw [decide_eq_true hresult, if_pos hresult]
        exact ih (f + 1) _
      · rw [decide_eq_false hresult, if_neg hresult]

/-- The contexts of a seek. -/
def primeFor (codec : AtracCodec σ α) (t : AtracTrack) (data : List Byte) (sample : Nat) (c : Option σ) :
    Bool × Option σ :=
  let frame := (t.initialSkipSamples + sample) / t.samplesPerFrame
  prime codec t data (frame - if frame > 2 then frame - 2 else 0) (if frame > 2 then frame - 2 else 0) c

/-- Whether a seek gets to its preroll. -/
def Seekable (t : AtracTrack) (data : List Byte) (sample : Nat) : Prop :=
  ¬ (t.blockAlign = 0 ∨ sample > t.endSample.toNat) ∧
    t.frameOffset ((t.initialSkipSamples + sample) / t.samplesPerFrame) < data.length

theorem seek_of_not_seekable {sample : Nat} (h : ¬ Seekable d.track d.encoded sample) :
    d.seek codec sample = (false, d) := by
  rw [seek]
  split
  · rfl
  · next hvalid => exact if_pos (Nat.le_of_not_lt fun hlt => h ⟨hvalid, hlt⟩)

/-- The state after a seek, with its context and whether the preroll went through. -/
def seeked (d : AtracDecoder σ) (sample : Nat) (primed : Bool × Option σ) : AtracDecoder σ :=
  if primed.1 then
    { d with
      context := primed.2
      dataCursor := d.track.frameOffset ((d.track.initialSkipSamples + sample) / d.track.samplesPerFrame) % 2 ^ 32
      decodedSamples := sample
      skipSamples := (d.track.initialSkipSamples + sample) % d.track.samplesPerFrame
      finished := false }
  else { d with context := primed.2 }

theorem seek_of_seekable {sample : Nat} (h : Seekable d.track d.encoded sample) :
    d.seek codec sample =
      ((primeFor codec d.track d.encoded sample (d.context.map codec.flushBuffers)).1,
        d.seeked sample (primeFor codec d.track d.encoded sample (d.context.map codec.flushBuffers))) := by
  obtain ⟨hvalid, hframe⟩ := h
  rw [seek, if_neg hvalid]
  dsimp only
  rw [preroll_eq_prime]
  refine (if_neg (Nat.not_le.2 hframe)).trans ?_
  dsimp only [flush]
  have hcontexts : primeFor codec d.track d.encoded sample (d.context.map codec.flushBuffers) = prime codec d.track
    d.encoded _ _ (d.context.map codec.flushBuffers) := rfl
  rw [← hcontexts]
  generalize primeFor codec d.track d.encoded sample (d.context.map codec.flushBuffers) = primed
  obtain ⟨ok, c⟩ := primed
  cases ok with
  | false => rfl
  | true => rfl

theorem seeked_pointTo (d : AtracDecoder σ) (p : Word) (sample : Nat) (primed : Bool × Option σ) :
    (d.pointTo p).seeked sample primed = (d.seeked sample primed).pointTo p := by
  obtain ⟨ok, c⟩ := primed
  cases ok with
  | false => rfl
  | true => rfl

theorem commutes_seek (codec : AtracCodec σ α) (p : Word) (sample : Nat) : Commutes (pointTo · p) (seek codec · sample) := by
  intro d
  by_cases h : Seekable d.track d.encoded sample
  · have hpoint : Seekable (d.pointTo p).track (d.pointTo p).encoded sample := h
    dsimp only
    rw [seek_of_seekable h, seek_of_seekable hpoint, seeked_pointTo]
    rfl
  · have hpoint : ¬ Seekable (d.pointTo p).track (d.pointTo p).encoded sample := h
    dsimp only
    rw [seek_of_not_seekable h, seek_of_not_seekable hpoint]

/-- The second half of `advance_output_position`. -/
def loopBack (codec : AtracCodec σ α) (d : AtracDecoder σ) : Bool × AtracDecoder σ :=
  if !d.loopActive ∨ d.decodedSamples ≤ d.track.loopEnd.toNat then (false, d)
  else
    match seek codec { d with loopPending := true } d.track.loopStart.toNat with
    | (false, d) => (false, d)
    | (true, d) => (true, leaveLoop { d with loopPending := false })

theorem commutes_advanceOutputPosition (codec : AtracCodec σ α) (p : Word) (n : Nat) :
    Commutes (pointTo · p) (advanceOutputPosition codec · n) := by
  have hseek : Commutes (pointTo · p) fun d : AtracDecoder σ =>
      seek codec { d with loopPending := true } d.track.loopStart.toNat :=
    .dep (f := fun sample (d : AtracDecoder σ) => seek codec { d with loopPending := true } sample)
      (v := fun d : AtracDecoder σ => d.track.loopStart.toNat) (fun sample => (commutes_seek codec p sample).comp fun d => rfl) fun d => rfl
  have hplain : Commutes (pointTo · p) fun d : AtracDecoder σ => (false, d) := .pure (fun d => rfl) fun d => rfl
  have hloop : Commutes (pointTo · p) fun d : AtracDecoder σ => (true, leaveLoop { d with loopPending := false }) :=
    .pure (fun d => rfl) fun d => rfl
  have hboth : Commutes (pointTo · p) (loopBack codec) :=
    hplain.ite (hseek.pick hplain hloop (fun d d' h => by rw [h]) fun d d' h => by rw [h]) fun d => Iff.rfl
  exact hboth.comp (t := fun d : AtracDecoder σ => { d with decodedSamples := d.decodedSamples + n }) fun d => rfl

theorem commutes_deliver (codec : AtracCodec σ α) (p : Word) (frame : CodecFrame α) : Commutes (pointTo · p) (deliver codec · frame) := by
  have hfinish : ∀ n output advanced, Commutes (pointTo · p) fun d : AtracDecoder σ =>
      finishDecode n output (advanced, d) :=
    fun n output advanced => .pure (fun d => rfl) fun d => rfl
  have hadvance : ∀ skipped n, Commutes (pointTo · p) fun d : AtracDecoder σ =>
      finishDecode n (d.writeSamples codec frame skipped n) (d.advanceOutputPosition codec n) := by
    intro skipped n
    exact .dep (f := fun output d => finishDecode n output (d.advanceOutputPosition codec n))
      (fun output => (commutes_advanceOutputPosition codec p n).bind fun advanced => hfinish n output advanced) fun d => rfl
  have hskip : ∀ skipped, Commutes (pointTo · p) fun d : AtracDecoder σ =>
      let d := { d with skipSamples := d.skipSamples - skipped }
      let n := d.limitOutputSamples (min (frame.count.toNat - skipped) d.remaining)
      finishDecode n (d.writeSamples codec frame skipped n) (d.advanceOutputPosition codec n) := by
    intro skipped
    have hlimit : Commutes (pointTo · p) fun d : AtracDecoder σ =>
        let n := d.limitOutputSamples (min (frame.count.toNat - skipped) d.remaining)
        finishDecode n (d.writeSamples codec frame skipped n) (d.advanceOutputPosition codec n) :=
      .dep (v := fun d : AtracDecoder σ => d.limitOutputSamples (min (frame.count.toNat - skipped) d.remaining))
        (hadvance skipped) fun d => rfl
    exact hlimit.comp (t := fun d : AtracDecoder σ => { d with skipSamples := d.skipSamples - skipped }) fun d => rfl
  exact .dep (v := fun d : AtracDecoder σ => min d.skipSamples frame.count.toNat) hskip fun d => rfl

theorem commutes_decodePacket (codec : AtracCodec σ α) (p : Word) : Commutes (pointTo · p) (decodePacket (σ := σ) codec) := by
  have htake : ∀ out : σ × CodecFrame α, Commutes (pointTo · p) fun d : AtracDecoder σ =>
      let d := { d with context := some out.1, dataCursor := (d.dataCursor + d.blockAlign) % 2 ^ 32 }
      if out.2.result < 0 ∨ out.2.count < 0 ∨ out.2.count > 4096 then
        (({ result := badData } : Decoded), { d with internalError := BitVec.ofInt 32 out.2.result })
      else d.deliver codec out.2 := by
    intro out
    have herror : Commutes (pointTo · p) fun d : AtracDecoder σ =>
        (({ result := badData } : Decoded), { d with internalError := BitVec.ofInt 32 out.2.result }) :=
      .pure (fun d => rfl) fun d => rfl
    have hboth := herror.ite (c := fun _ => out.2.result < 0 ∨ out.2.count < 0 ∨ out.2.count > 4096)
      (commutes_deliver codec p out.2) fun d => Iff.rfl
    exact hboth.comp (t := fun d : AtracDecoder σ =>
      { d with context := some out.1, dataCursor := (d.dataCursor + d.blockAlign) % 2 ^ 32 }) fun d => rfl
  intro d
  rw [decodePacket, decodePacket]
  by_cases h : d.dataCursor + d.blockAlign > d.encoded.length
  · rw [if_pos h]
    exact if_pos h
  rw [if_neg h]
  refine (if_neg h).trans ?_
  cases hc : d.context with
  | none =>
    have hpoint : (d.pointTo p).context = none := hc
    rw [hpoint]
  | some context =>
    have hpoint : (d.pointTo p).context = some context := hc
    rw [hpoint]
    exact htake (codec.decodeFrame context (d.packet d.dataCursor)) d

theorem commutes_restart (codec : AtracCodec σ α) (p : Word) {next : AtracDecoder σ → Decoded × AtracDecoder σ}
    (h : Commutes (pointTo · p) next) : Commutes (pointTo · p) (restart codec · next) := by
  have hnext : Commutes (pointTo · p) fun d => next (d.leaveLoop.rewind codec) := h.comp fun d => rfl
  have hend : Commutes (pointTo · p) fun d : AtracDecoder σ =>
      (({ result := allDataDecoded, reachedEnd := true } : Decoded), { d with finished := true }) :=
    .pure (fun d => rfl) fun d => rfl
  exact hnext.ite hend fun d => Iff.rfl

theorem commutes_decodeAtCursor (codec : AtracCodec σ α) (p : Word) : Commutes (pointTo · p) (decodeAtCursor (σ := σ) codec) := by
  have hnone : Commutes (pointTo · p) fun d : AtracDecoder σ => (({ result := noData } : Decoded), d) :=
    .pure (fun d => rfl) fun d => rfl
  have hpast := hnone.ite (c := fun d : AtracDecoder σ => min d.declaredEnd d.encoded.length < d.declaredEnd)
    (commutes_restart codec p (commutes_decodePacket codec p)) fun d => Iff.rfl
  exact hpast.ite (commutes_decodePacket codec p) fun d => Iff.rfl

theorem commutes_decodeFromPosition (codec : AtracCodec σ α) (p : Word) :
    Commutes (pointTo · p) (decodeFromPosition (σ := σ) codec) :=
  (commutes_restart codec p (commutes_decodeAtCursor codec p)).ite (commutes_decodeAtCursor codec p) fun _ => Iff.rfl

theorem commutes_decode (codec : AtracCodec σ α) (p : Word) : Commutes (pointTo · p) (decode (σ := σ) codec) := by
  have hunset : Commutes (pointTo · p) fun d : AtracDecoder σ => (({ result := unsetData } : Decoded), d) :=
    .pure (fun d => rfl) fun d => rfl
  have hnone : Commutes (pointTo · p) fun d : AtracDecoder σ => (({ result := noData } : Decoded), d) :=
    .pure (fun d => rfl) fun d => rfl
  have hseek : Commutes (pointTo · p) fun d : AtracDecoder σ => seek codec d d.track.loopStart.toNat :=
    .dep (f := fun sample (d : AtracDecoder σ) => seek codec d sample) (v := fun d : AtracDecoder σ => d.track.loopStart.toNat)
      (fun sample => commutes_seek codec p sample) fun d => rfl
  have hloop : Commutes (pointTo · p) fun d : AtracDecoder σ =>
      decodeFromPosition codec (leaveLoop { d with loopPending := false }) :=
    (commutes_decodeFromPosition codec p).comp fun d => rfl
  refine hunset.ite (Commutes.ite ?_ (commutes_decodeFromPosition codec p) fun d => Iff.rfl) fun d => Iff.rfl
  exact hseek.pick hnone hloop (fun d d' h => by rw [h]) fun d d' h => by rw [h]

theorem commutes_resetPlayPosition (codec : AtracCodec σ α) (p : Word) (sample : Word) :
    Commutes (pointTo · p) (resetPlayPosition codec · sample) := by
  have hanswer : ∀ result, Commutes (pointTo · p) fun d : AtracDecoder σ => ((result : Word), d) :=
    fun result => .pure (fun d => rfl) fun d => rfl
  refine (hanswer badSample).ite ?_ fun d => Iff.rfl
  exact (commutes_seek codec p sample.toNat).pick (hanswer badData) (hanswer 0) (fun d d' h => by rw [h])
    fun d d' h => by rw [h]

/-! ### Decoders that answer alike -/

/-- The same but for the address of a window of no bytes. -/
def Alike (d e : AtracDecoder σ) : Prop := e = d ∨ d.pendingWritableBytes = 0 ∧ ∃ p, e = d.pointTo p

/-- What data does depends on a decoder by the codec that it has. -/
theorem setDataAt_cases (codec : AtracCodec σ α) (mapped : Word → Nat → Option Bytes) (address size : Word) :
    (∃ r, r ≠ success ∧ ∀ d : AtracDecoder σ, d.setDataAt codec mapped address size = (r, d)) ∨
      ∃ r source parsed, source.length = size.toNat ∧ parseRiff source = some parsed ∧
        ∀ d : AtracDecoder σ, d.setDataAt codec mapped address size =
          if d.requestedCodecType ≠ 0 ∧ d.requestedCodecType ≠ parsed.codecType then (unmatchedFormat, d)
          else (r, d.loaded parsed source address
            (codec.alloc parsed.codecType parsed.channels parsed.blockAlign parsed.jointStereo)) := by
  cases hbytes : mapped address size.toNat with
  | none =>
    refine Or.inl ⟨badData, by decide, fun d => ?_⟩
    rw [setDataAt, hbytes]
  | some bytes =>
    have hlength : ((List.range size.toNat).map bytes).length = size.toNat := by
      rw [List.length_map, List.length_range]
    generalize hsource : (List.range size.toNat).map bytes = source at hlength
    cases hparsed : parseRiff source with
    | none =>
      refine Or.inl ⟨unknownFormat, by decide, fun d => ?_⟩
      rw [setDataAt, hbytes]
      dsimp only
      rw [hsource, hparsed]
    | some parsed =>
      refine Or.inr ⟨if (codec.alloc parsed.codecType parsed.channels parsed.blockAlign parsed.jointStereo).isSome
        then success else badData, source, parsed, hlength, hparsed, fun d => ?_⟩
      rw [setDataAt, hbytes]
      dsimp only
      rw [hsource, hparsed]
      dsimp only
      by_cases htype : d.requestedCodecType ≠ 0 ∧ d.requestedCodecType ≠ parsed.codecType
      · rw [if_pos htype, if_pos htype]
      · have hset : d.setData codec source address =
            ((codec.alloc parsed.codecType parsed.channels parsed.blockAlign parsed.jointStereo).isSome,
              d.loaded parsed source address
                (codec.alloc parsed.codecType parsed.channels parsed.blockAlign parsed.jointStereo)) := by
          rw [setData, hparsed]
          exact if_neg htype
        rw [if_neg htype, if_neg htype, hset]

theorem alike_setData (hwindow : d.pendingWritableBytes = 0) (p : Word) (mapped : Word → Nat → Option Bytes)
    (address size : Word) :
    (use codec d (.setData mapped address size)).1 = (use codec (d.pointTo p) (.setData mapped address size)).1 ∧
      Alike (use codec d (.setData mapped address size)).2
        (use codec (d.pointTo p) (.setData mapped address size)).2 := by
  rw [use, use]
  rcases setDataAt_cases codec mapped address size with ⟨r, -, hset⟩ | ⟨r, source, parsed, -, -, hset⟩
  · rw [hset, hset]
    exact ⟨rfl, Or.inr ⟨hwindow, p, rfl⟩⟩
  · rw [hset, hset]
    by_cases htype : d.requestedCodecType ≠ 0 ∧ d.requestedCodecType ≠ parsed.codecType
    · have hpoint : (d.pointTo p).requestedCodecType ≠ 0 ∧ (d.pointTo p).requestedCodecType ≠ parsed.codecType := htype
      rw [if_pos htype, if_pos hpoint]
      exact ⟨rfl, Or.inr ⟨hwindow, p, rfl⟩⟩
    · have hpoint : ¬ ((d.pointTo p).requestedCodecType ≠ 0 ∧ (d.pointTo p).requestedCodecType ≠ parsed.codecType) :=
        htype
      rw [if_neg htype, if_neg hpoint]
      exact ⟨rfl, Or.inr ⟨hwindow, p, rfl⟩⟩

theorem alike_call (hwindow : d.pendingWritableBytes = 0) (p : Word) (call : AtracCall) :
    (d.step codec call).1 = ((d.pointTo p).step codec call).1 ∧
      Alike (d.step codec call).2 ((d.pointTo p).step codec call).2 := by
  cases call with
  | decodeData =>
    have hsame := sameData_decode codec d
    rw [step, step, commutes_decode codec p d]
    exact ⟨rfl, Or.inr ⟨hsame.pendingWritableBytes.trans hwindow, p, rfl⟩⟩
  | resetPlayPosition sample =>
    have hsame := sameData_resetPlayPosition codec d sample
    have hreset : resetPlayPosition codec (d.pointTo p) sample = _ := commutes_resetPlayPosition codec p sample d
    rw [step, step, hreset]
    exact ⟨rfl, Or.inr ⟨hsame.pendingWritableBytes.trans hwindow, p, rfl⟩⟩
  | setLoopNum count =>
    rw [step, step, setLoopNum, setLoopNum]
    by_cases hloop : d.track.loopStart = allDataOnMemory
    · have hpoint : (d.pointTo p).track.loopStart = allDataOnMemory := hloop
      rw [if_pos hloop, if_pos hpoint]
      exact ⟨rfl, Or.inr ⟨hwindow, p, rfl⟩⟩
    · have hpoint : (d.pointTo p).track.loopStart ≠ allDataOnMemory := hloop
      rw [if_neg hloop, if_neg hpoint]
      exact ⟨rfl, Or.inr ⟨hwindow, p, rfl⟩⟩
  | getStreamDataInfo => exact ⟨rfl, Or.inl rfl⟩
  | addStreamData mapped byteCount =>
    have hpoint : (d.pointTo p).pendingWritableBytes = 0 := hwindow
    rw [step, step, addStreamData, addStreamData, hwindow, hpoint]
    by_cases hcount : byteCount.toNat = 0
    · rw [hcount]
      exact ⟨rfl, Or.inr ⟨hwindow, p, rfl⟩⟩
    · rw [if_pos (Nat.pos_of_ne_zero hcount), if_pos (Nat.pos_of_ne_zero hcount)]
      exact ⟨rfl, Or.inr ⟨hwindow, p, rfl⟩⟩
  | _ => exact ⟨rfl, Or.inr ⟨hwindow, p, rfl⟩⟩

theorem alike_use (h : Alike d e) (a : AtracUse) :
    (use codec d a).1 = (use codec e a).1 ∧ Alike (use codec d a).2 (use codec e a).2 := by
  rcases h with rfl | ⟨hwindow, p, rfl⟩
  · exact ⟨rfl, Or.inl rfl⟩
  cases a with
  | setData mapped address size => exact alike_setData hwindow p mapped address size
  | call call => exact alike_call hwindow p call

theorem answers_of_alike (h : Alike d e) (later : List AtracUse) :
    answers (use codec) d later = answers (use codec) e later :=
  answers_eq (R := Alike) (fun _ _ a h => (alike_use h a).1) (fun _ _ a h => (alike_use h a).2) h later

/-! ### What outlives new data and new positions -/

/-- A decoder with these of another one's loops, error and window. -/
def withRest (d : AtracDecoder σ) (loops : Int) (error p : Word) (n : Nat) : AtracDecoder σ :=
  { d with loopCount := loops, internalError := error, pendingWritePointer := p, pendingWritableBytes := n }

/-- A decoder of which nothing is left. -/
structure Blank (d : AtracDecoder σ) : Prop where
  loopCount : d.loopCount = 0
  internalError : d.internalError = 0
  pendingWritableBytes : d.pendingWritableBytes = 0

theorem answers_withRest_iff (hd : d.Blank) {loops : Int} (hloops : -2 ^ 31 ≤ loops ∧ loops < 2 ^ 31)
    (error p : Word) (n : Nat) :
    (∀ later, answers (use codec) (d.withRest loops error p n) later = answers (use codec) d later) ↔
      loops = 0 ∧ error = 0 ∧ n = 0 := by
  constructor
  · intro h
    have hstatus := h [.call .getLoopStatus]
    have herror := h [.call .getInternalErrorInfo]
    have hadd := h [.call (.addStreamData (fun _ _ => some fun _ => 0) 1)]
    have hzero : BitVec.ofInt 32 loops = BitVec.ofInt 32 d.loopCount := by
      have hanswer := (List.cons.inj hstatus).1
      exact (List.cons.inj (congrArg AtracAnswer.words hanswer)).1
    have hloops : loops = 0 := by
      rw [hd.loopCount] at hzero
      have hint := congrArg BitVec.toInt hzero
      rw [BitVec.toInt_ofInt, BitVec.toInt_ofInt] at hint
      rwa [Int.bmod_eq_of_le (by omega) (by omega)] at hint
    have herror : error = 0 := by
      have hanswer := (List.cons.inj herror).1
      exact (List.cons.inj (congrArg AtracAnswer.words hanswer)).1.trans hd.internalError
    refine ⟨hloops, herror, by_contra fun hn => ?_⟩
    have hanswer := congrArg AtracAnswer.result (List.cons.inj hadd).1
    change ((d.withRest loops error p n).addStreamData (fun _ _ => some fun _ => 0) 1).1 =
      (d.addStreamData (fun _ _ => some fun _ => 0) 1).1 at hanswer
    have hroom : ¬ 1 > (d.withRest loops error p n).pendingWritableBytes := Nat.not_lt.2 (Nat.pos_of_ne_zero hn)
    have hnone : 1 > d.pendingWritableBytes := hd.pendingWritableBytes ▸ Nat.one_pos
    rw [addStreamData, addStreamData, if_neg hroom, if_neg Nat.one_ne_zero, if_pos hnone] at hanswer
    have hresult : success = badData := hanswer
    exact absurd hresult (by decide)
  · rintro ⟨rfl, rfl, rfl⟩
    have hpoint : d.withRest 0 0 p 0 = d.pointTo p := by
      rw [withRest, pointTo, ← hd.loopCount, ← hd.internalError, ← hd.pendingWritableBytes]
    rw [hpoint]
    exact fun later => (answers_of_alike (Or.inr ⟨hd.pendingWritableBytes, p, rfl⟩) later).symm

/-- `d` has the data of `e`, and more of it after that. -/
structure Continues (e d : AtracDecoder σ) (streamed : List Byte) : Prop where
  requestedCodecType : d.requestedCodecType = e.requestedCodecType
  track : d.track = e.track
  guestBuffer : d.guestBuffer = e.guestBuffer
  guestBufferSize : d.guestBufferSize = e.guestBufferSize
  encoded : d.encoded = e.encoded ++ streamed

theorem Continues.trans {s s' : List Byte} (h : Continues e d s) (h' : Continues d d' s') :
    Continues e d' (s ++ s') := by
  refine ⟨h'.1.trans h.1, h'.2.trans h.2, h'.3.trans h.3, h'.4.trans h.4, ?_⟩
  rw [h'.encoded, h.encoded, List.append_assoc]

theorem Continues.of_sameData (h : d.SameData d') : Continues d d' [] :=
  ⟨h.1, h.2, h.3, h.4, h.5.trans (List.append_nil _).symm⟩

def LoopsFit (d : AtracDecoder σ) : Prop := -2 ^ 31 ≤ d.loopCount ∧ d.loopCount < 2 ^ 31

theorem continues_step (codec : AtracCodec σ α) (d : AtracDecoder σ) (call : AtracCall) :
    (∃ s, Continues d (d.step codec call).2 s) ∧ (d.LoopsFit → (d.step codec call).2.LoopsFit) := by
  have hsame : ∀ {d' : AtracDecoder σ}, d.SameData d' → (∃ s, Continues d d' s) ∧ (d.LoopsFit → d'.LoopsFit) := by
    intro d' h
    refine ⟨⟨[], .of_sameData h⟩, ?_⟩
    rintro ⟨hlow, hhigh⟩
    have hcount := h.loopCount
    exact ⟨by omega, by omega⟩
  cases call with
  | decodeData => exact hsame (sameData_decode codec d)
  | resetPlayPosition sample => exact hsame (sameData_resetPlayPosition codec d sample)
  | setLoopNum count =>
    rw [step, setLoopNum]
    split
    · exact hsame (.refl d)
    · refine ⟨⟨[], rfl, rfl, rfl, rfl, (List.append_nil _).symm⟩, fun _ => ?_⟩
      exact ⟨BitVec.le_toInt count, BitVec.toInt_lt⟩
  | addStreamData mapped byteCount =>
    rw [step, addStreamData]
    split
    · exact hsame (.refl d)
    split
    · exact hsame (.refl d)
    split
    · exact hsame (.refl d)
    · exact ⟨⟨_, rfl, rfl, rfl, rfl, rfl⟩, fun h => h⟩
  | _ => exact ⟨⟨[], rfl, rfl, rfl, rfl, (List.append_nil _).symm⟩, fun h => h⟩

/-- What the uses of a decoder make of it. -/
structure Used (codec : AtracCodec σ α) (requested : Word) (uses : List AtracUse) (d : AtracDecoder σ) : Prop where
  codecType : requested = 0 ∨ d.requestedCodecType = requested
  loops : d.LoopsFit
  data : d.track.blockAlign = 0 ∨ ∃ mapped address size streamed, AtracUse.setData mapped address size ∈ uses ∧
    Continues ((new requested).setDataAt codec mapped address size).2 d streamed

theorem Used.mem {requested : Word} {uses : List AtracUse} (h : Used codec requested uses d) (a : AtracUse) :
    Used codec requested (uses ++ [a]) d := by
  refine ⟨h.codecType, h.loops, h.data.imp_right ?_⟩
  rintro ⟨mapped, address, size, streamed, hmem, hdata⟩
  exact ⟨mapped, address, size, streamed, List.mem_append_left _ hmem, hdata⟩

theorem Used.setData {requested : Word} {uses : List AtracUse} (h : Used codec requested uses d)
    (mapped : Word → Nat → Option Bytes) (address size : Word) :
    Used codec requested (uses ++ [.setData mapped address size]) (d.setDataAt codec mapped address size).2 := by
  rcases setDataAt_cases codec mapped address size with ⟨r, -, hset⟩ | ⟨r, source, parsed, -, -, hset⟩
  · rw [hset]
    exact h.mem _
  by_cases htype : d.requestedCodecType ≠ 0 ∧ d.requestedCodecType ≠ parsed.codecType
  · rw [hset, if_pos htype]
    exact h.mem _
  have hnew : ¬ (requested ≠ 0 ∧ requested ≠ parsed.codecType) := by
    rintro ⟨hsome, hne⟩
    exact htype (h.codecType.resolve_left hsome ▸ ⟨hsome, hne⟩)
  have hfresh : (new (σ := σ) requested).setDataAt codec mapped address size =
      (r, (new requested).loaded parsed source address
        (codec.alloc parsed.codecType parsed.channels parsed.blockAlign parsed.jointStereo)) := by
    rw [hset]
    exact if_neg hnew
  rw [hset, if_neg htype]
  refine ⟨?_, h.loops, Or.inr ⟨mapped, address, size, [], List.mem_append_right _ (List.mem_singleton_self _), ?_⟩⟩
  · by_cases hzero : requested = 0
    · exact Or.inl hzero
    · exact Or.inr (not_not.1 fun hne => hnew ⟨hzero, fun heq => hne heq.symm⟩)
  · rw [hfresh]
    exact ⟨rfl, rfl, rfl, rfl, (List.append_nil _).symm⟩

theorem used_after (codec : AtracCodec σ α) (requested : Word) (uses : List AtracUse) :
    Used codec requested uses (after (use codec) (new requested) uses) := by
  induction uses using List.reverseRecOn with
  | nil =>
    have hzero : (-2 ^ 31 : Int) ≤ 0 ∧ (0 : Int) < 2 ^ 31 := by decide
    exact ⟨Or.inr rfl, hzero, Or.inl rfl⟩
  | append_singleton uses a ih =>
    rw [after_append]
    cases a with
    | setData mapped address size => exact ih.setData mapped address size
    | call call =>
      obtain ⟨⟨s, hdata⟩, hloops⟩ := continues_step codec (after (use codec) (new requested) uses) call
      refine ⟨ih.codecType.imp_right fun h => hdata.requestedCodecType.trans h, hloops ih.loops, ?_⟩
      rcases ih.data with hnone | ⟨mapped, address, size, streamed, hmem, hbefore⟩
      · exact Or.inl ((congrArg AtracTrack.blockAlign hdata.track).trans hnone)
      · exact Or.inr ⟨mapped, address, size, _, List.mem_append_left _ hmem, hbefore.trans hdata⟩

/-! ### The decoder that is as new -/

theorem blank_setDataAt (codec : AtracCodec σ α) (requested : Word) (mapped : Word → Nat → Option Bytes)
    (address size : Word) :
    ((new (σ := σ) requested).setDataAt codec mapped address size).2.Blank ∧
      ((new (σ := σ) requested).setDataAt codec mapped address size).2.loopPending = false := by
  rcases setDataAt_cases codec mapped address size with ⟨r, -, hset⟩ | ⟨r, source, parsed, -, -, hset⟩
  · rw [hset]
    exact ⟨⟨rfl, rfl, rfl⟩, rfl⟩
  · rw [hset]
    split
    · exact ⟨⟨rfl, rfl, rfl⟩, rfl⟩
    · exact ⟨⟨rfl, rfl, rfl⟩, rfl⟩

theorem setData_withRest {requested address size : Word} {uses : List AtracUse} {mapped : Word → Nat → Option Bytes}
    (h : Used codec requested uses d) (hpending : d.loopPending = false)
    (hset : d.setDataAt codec mapped address size = (success, d')) :
    ∃ e, (new requested).setDataAt codec mapped address size = (success, e) ∧
      d' = e.withRest d.loopCount 0 d.pendingWritePointer d.pendingWritableBytes := by
  rcases setDataAt_cases codec mapped address size with ⟨r, hr, hcases⟩ | ⟨r, source, parsed, -, -, hcases⟩
  · rw [hcases] at hset
    exact absurd (Prod.mk.inj hset).1 hr
  rw [hcases] at hset
  by_cases htype : d.requestedCodecType ≠ 0 ∧ d.requestedCodecType ≠ parsed.codecType
  · rw [if_pos htype] at hset
    exact absurd (Prod.mk.inj hset).1 (by decide)
  rw [if_neg htype] at hset
  obtain ⟨rfl, rfl⟩ := Prod.mk.inj hset
  have hnew : ¬ (requested ≠ 0 ∧ requested ≠ parsed.codecType) := by
    rintro ⟨hsome, hne⟩
    exact htype (h.codecType.resolve_left hsome ▸ ⟨hsome, hne⟩)
  refine ⟨_, (hcases (new requested)).trans (if_neg hnew), ?_⟩
  rw [loaded, hpending]
  rfl

theorem resetPlayPosition_eq_zero {sample : Word} (h : d.resetPlayPosition codec sample = (0, d')) :
    d.seek codec sample.toNat = (true, d') := by
  rw [resetPlayPosition] at h
  split at h
  · exact absurd (Prod.mk.inj h).1 (by decide)
  split at h
  · exact absurd (Prod.mk.inj h).1 (by decide)
  · next heq =>
    rw [heq, (Prod.mk.inj h).2]

theorem seekable_of_seek {sample : Nat} (h : d.seek codec sample = (true, d')) :
    Seekable d.track d.encoded sample := by
  by_contra hnot
  rw [seek_of_not_seekable hnot] at h
  exact absurd (Prod.mk.inj h).1 (by decide)

theorem reset_withRest {sample : Word} {streamed : List Byte} (hdata : Continues e d streamed)
    (hpending : d.loopPending = false) (hnew : e.loopPending = false)
    (hflush : d.context.map codec.flushBuffers = e.context.map codec.flushBuffers)
    (h : d.resetPlayPosition codec sample = (0, d')) :
    ∃ e', resetPlayPosition codec { e with encoded := d.encoded } sample = (0, e') ∧
      d' = e'.withRest d.loopCount d.internalError d.pendingWritePointer d.pendingWritableBytes ∧
      (e.Blank → e'.Blank) := by
  have hseek := resetPlayPosition_eq_zero h
  have hseekable := seekable_of_seek hseek
  have hsame : Seekable ({ e with encoded := d.encoded } : AtracDecoder σ).track d.encoded sample.toNat :=
    hdata.track ▸ hseekable
  rw [seek_of_seekable hseekable, hflush, hdata.track] at hseek
  have hother : seek codec { e with encoded := d.encoded } sample.toNat = _ := seek_of_seekable hsame
  dsimp only at hother
  generalize primeFor codec e.track d.encoded sample.toNat (e.context.map codec.flushBuffers) = primed
    at hseek hother
  obtain ⟨ok, c⟩ := primed
  obtain ⟨rfl, rfl⟩ := Prod.mk.inj hseek
  have hend : ¬ sample > e.track.endSample := fun hlt => hsame.1 (Or.inr hlt)
  refine ⟨seeked { e with encoded := d.encoded } sample.toNat (true, c), ?_, ?_, fun hblank => ?_⟩
  · rw [resetPlayPosition, hother]
    exact if_neg hend
  · rw [seeked, seeked, withRest, if_pos rfl, if_pos rfl]
    dsimp only
    rw [hdata.requestedCodecType, hdata.track, hdata.guestBuffer, hdata.guestBufferSize, hpending, hnew]
  · exact ⟨hblank.loopCount, hblank.internalError, hblank.pendingWritableBytes⟩

/-- A decoder that was used and is given data, or is sent to a position of the data that it has, goes on like a new
one with the same data, at the same position, exactly if no loops are left, no window was announced and, for a
position, no error is left. (While no loop is pending; and of the library's context nothing is left when it is
flushed.) -/
theorem reset_as_new (codec : AtracCodec σ α) (requested : Word) (uses : List AtracUse) (d : AtracDecoder σ)
    (hrun : after (use codec) (new requested) uses = d) (hpending : d.loopPending = false) :
    (∀ mapped address size d', d.setDataAt codec mapped address size = (success, d') →
      ∃ e, (new requested).setDataAt codec mapped address size = (success, e) ∧
        ((∀ later, answers (use codec) d' later = answers (use codec) e later) ↔
          d.loopCount = 0 ∧ d.pendingWritableBytes = 0)) ∧
    ∀ sample d', d.resetPlayPosition codec sample = (0, d') →
      ∃ mapped address size e streamed, AtracUse.setData mapped address size ∈ uses ∧
        ((new requested).setDataAt codec mapped address size).2 = e ∧ d.encoded = e.encoded ++ streamed ∧
        (d.context.map codec.flushBuffers = e.context.map codec.flushBuffers →
          ∃ e', resetPlayPosition codec { e with encoded := d.encoded } sample = (0, e') ∧
            ((∀ later, answers (use codec) d' later = answers (use codec) e' later) ↔
              d.loopCount = 0 ∧ d.internalError = 0 ∧ d.pendingWritableBytes = 0)) := by
  have h := used_after codec requested uses
  rw [hrun] at h
  constructor
  · intro mapped address size d' hset
    obtain ⟨e, hnew, rfl⟩ := setData_withRest h hpending hset
    obtain ⟨hblank, -⟩ := blank_setDataAt codec requested mapped address size
    rw [hnew] at hblank
    refine ⟨e, hnew, (answers_withRest_iff hblank h.loops _ _ _).trans ?_⟩
    exact ⟨fun ⟨hloops, _, hwindow⟩ => ⟨hloops, hwindow⟩, fun ⟨hloops, hwindow⟩ => ⟨hloops, rfl, hwindow⟩⟩
  · intro sample d' hreset
    have halign : d.track.blockAlign ≠ 0 := by
      intro hzero
      exact (seekable_of_seek (resetPlayPosition_eq_zero hreset)).1 (Or.inl hzero)
    obtain ⟨mapped, address, size, streamed, hmem, hdata⟩ := h.data.resolve_left halign
    obtain ⟨hblank, hnew⟩ := blank_setDataAt codec requested mapped address size
    refine ⟨mapped, address, size, _, streamed, hmem, rfl, hdata.encoded, fun hflush => ?_⟩
    obtain ⟨e', he', rfl, hkeeps⟩ := reset_withRest hdata hpending hnew hflush hreset
    exact ⟨e', he', answers_withRest_iff (hkeeps hblank) h.loops _ _ _⟩

/-- A decoder that has played its track is given it again, or is sent back. -/
theorem reset_as_new_shortTrack :
    let set := AtracUse.setData shortMemory 0x08804000 (BitVec.ofNat 32 shortTrack.length)
    let d := after (use indexCodec) (new (σ := Unit) 0) [set, .call .decodeData]
    let e := ((new (σ := Unit) 0).setDataAt indexCodec shortMemory 0x08804000 (BitVec.ofNat 32 shortTrack.length)).2
    let given := d.setDataAt indexCodec shortMemory 0x08804000 (BitVec.ofNat 32 shortTrack.length)
    let sent := d.resetPlayPosition indexCodec 3
    (∀ later, answers (use indexCodec) given.2 later = answers (use indexCodec) e later) ∧
      ∃ e', resetPlayPosition indexCodec { e with encoded := d.encoded } 3 = (0, e') ∧
        ∀ later, answers (use indexCodec) sent.2 later = answers (use indexCodec) e' later := by
  intro set d e given sent
  have hgiven : given = (success, given.2) := Prod.fst_eq_iff.1 (by decide +kernel)
  have hsent : sent = (0, sent.2) := Prod.fst_eq_iff.1 (by decide +kernel)
  obtain ⟨hset, hreset⟩ := reset_as_new indexCodec 0 [set, .call .decodeData] d rfl (by decide +kernel)
  constructor
  · obtain ⟨e', he', hiff⟩ := hset _ _ _ _ hgiven
    have heq : e' = e := (congrArg Prod.snd he').symm
    exact heq ▸ hiff.2 (by decide +kernel)
  · obtain ⟨mapped, address, size, e₀, streamed, hmem, he₀, -, hiff⟩ := hreset _ _ hsent
    have hdata : AtracUse.setData mapped address size = set := by
      rcases List.mem_cons.1 hmem with heq | hmem
      · exact heq
      · cases List.mem_singleton.1 hmem
    obtain ⟨rfl, rfl, rfl⟩ := AtracUse.setData.inj hdata
    subst he₀
    obtain ⟨e', he', hiff⟩ := hiff (by decide +kernel)
    exact ⟨e', he', hiff.2 (by decide +kernel)⟩

/-- A decoder with two loops to play is given the same track anew, or sent back to its beginning: its first decode
stops at the end of the loop, that of a new decoder does not. -/
theorem loops_left :
    let set := AtracUse.setData shortMemory 0x08804000 (BitVec.ofNat 32 shortTrack.length)
    let d := after (use indexCodec) (new (σ := Unit) 0) [set, .call (.setLoopNum 2)]
    (d.loopPending = false ∧
      (d.setDataAt indexCodec shortMemory 0x08804000 (BitVec.ofNat 32 shortTrack.length)).1 = success ∧
      (d.resetPlayPosition indexCodec 0).1 = 0) ∧
      answers (use indexCodec) (d.use indexCodec set).2 [.call .decodeData] ≠
        answers (use indexCodec) ((new 0).use indexCodec set).2 [.call .decodeData] ∧
      answers (use indexCodec) (d.resetPlayPosition indexCodec 0).2 [.call .decodeData] ≠
        answers (use indexCodec) (((new 0).use indexCodec set).2.resetPlayPosition indexCodec 0).2
          [.call .decodeData] := by
  decide +kernel

end AtracDecoder

end Psprism
