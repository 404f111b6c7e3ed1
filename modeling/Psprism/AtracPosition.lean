import Mathlib.Data.List.Infix
import Psprism.AtracDecoder

/-!
# Positions in an ATRAC track

What a decode gives are the samples of the track from the position on, and the frame that is decoded next, with
the samples that are skipped of it, is the one of the position (`AtracDecoder.position_tracks`). The library is
taken to give a full frame for each frame. Then no seek to the start of a loop fails, and none is left pending.
A decode at the end of the track that a loop count sends back plays from the beginning.
-/

namespace Psprism
open Transducer

namespace AtracTrack
variable {t : AtracTrack} {data data' : List Byte} {f : Nat}

theorem samplesPerFrame_pos (t : AtracTrack) : 0 < t.samplesPerFrame := by
  rw [samplesPerFrame]
  split <;> decide

def frameOffset (t : AtracTrack) (f : Nat) : Nat := t.dataOffset.toNat + f * t.blockAlign.toNat

def frameBytes (t : AtracTrack) (data : List Byte) (f : Nat) : List Byte :=
  (data.drop (t.frameOffset f)).take t.blockAlign.toNat

theorem frameOffset_succ (t : AtracTrack) (f : Nat) : t.frameOffset (f + 1) = t.frameOffset f + t.blockAlign.toNat := by
  rw [frameOffset, frameOffset, Nat.add_mul, Nat.one_mul, Nat.add_assoc]

theorem frameOffset_mono (t : AtracTrack) {f g : Nat} (h : f ≤ g) : t.frameOffset f ≤ t.frameOffset g :=
  Nat.add_le_add_left (Nat.mul_le_mul_right _ h) _

theorem frameBytes_grown (hdata : data <+: data') (hwhole : t.frameOffset (f + 1) ≤ data.length) :
    t.frameBytes data' f = t.frameBytes data f := by
  obtain ⟨more, rfl⟩ := hdata
  rw [frameOffset_succ] at hwhole
  rw [frameBytes, frameBytes, List.drop_append_of_le_length (by omega), List.take_append_of_le_length]
  rw [List.length_drop]
  omega

end AtracTrack

namespace AtracCodec
variable {σ α : Type} {codec : AtracCodec σ α} {t : AtracTrack} {data data' : List Byte} {f n : Nat} {c start : σ}

/-- The library gives a full frame of samples for each frame of the data, without an error. -/
def Decodes (codec : AtracCodec σ α) (t : AtracTrack) (data : List Byte) : Prop :=
  ∀ f, t.frameOffset (f + 1) ≤ data.length → ∀ c, 0 ≤ (codec.decodeFrame c (t.frameBytes data f)).2.result ∧
    (codec.decodeFrame c (t.frameBytes data f)).2.count = t.samplesPerFrame

theorem Decodes.mono (hdata : data <+: data') (h : codec.Decodes t data') : codec.Decodes t data := by
  intro f hf c
  rw [← AtracTrack.frameBytes_grown hdata hf]
  exact h f (hf.trans hdata.length_le) c

/-- The context after `n` frames, from frame `f` on. -/
def decodeFrames (codec : AtracCodec σ α) (t : AtracTrack) (data : List Byte) : σ → Nat → Nat → σ
  | c, _, 0 => c
  | c, f, n + 1 => decodeFrames codec t data (codec.decodeFrame c (t.frameBytes data f)).1 (f + 1) n

theorem decodeFrames_succ (c : σ) (f n : Nat) : codec.decodeFrames t data c f (n + 1) =
    (codec.decodeFrame (codec.decodeFrames t data c f n) (t.frameBytes data (f + n))).1 := by
  induction n generalizing c f with
  | zero => rfl
  | succ n ih =>
    rw [decodeFrames, ih, decodeFrames, Nat.add_right_comm, Nat.add_assoc]

theorem decodeFrames_grown (hdata : data <+: data') (hwhole : n ≠ 0 → t.frameOffset (f + n) ≤ data.length) :
    codec.decodeFrames t data' c f n = codec.decodeFrames t data c f n := by
  induction n generalizing c f with
  | zero => rfl
  | succ n ih =>
    have hlast := hwhole (Nat.succ_ne_zero n)
    have hframe : t.frameOffset (f + 1) ≤ data.length := (t.frameOffset_mono (by omega)).trans hlast
    rw [decodeFrames, decodeFrames, AtracTrack.frameBytes_grown hdata hframe]
    refine ih fun _ => ?_
    rwa [Nat.add_assoc, Nat.add_comm 1 n]

/-- A context that is new or flushed. -/
def New (codec : AtracCodec σ α) (t : AtracTrack) (c : σ) : Prop :=
  codec.alloc t.codecType t.channels t.blockAlign t.jointStereo = some c ∨ ∃ c', c = codec.flushBuffers c'

/-- A context in which frame `f` is to be decoded: since it was new or flushed it decoded the frames before
`f`, all of them or the last two at least. -/
def Primed (codec : AtracCodec σ α) (t : AtracTrack) (data : List Byte) (f : Nat) (c : σ) : Prop :=
  ∃ g start, codec.New t start ∧ g ≤ f ∧ (g = 0 ∨ g + 2 ≤ f) ∧ (g < f → t.frameOffset f ≤ data.length) ∧
    c = codec.decodeFrames t data start g (f - g)

theorem New.primed (h : codec.New t c) : codec.Primed t data 0 c :=
  ⟨0, c, h, Nat.le_refl 0, Or.inl rfl, fun h => absurd h (Nat.lt_irrefl 0), rfl⟩

theorem Primed.next (h : codec.Primed t data f c) (hwhole : t.frameOffset (f + 1) ≤ data.length) :
    codec.Primed t data (f + 1) (codec.decodeFrame c (t.frameBytes data f)).1 := by
  obtain ⟨g, start, hnew, hle, hg, -, rfl⟩ := h
  refine ⟨g, start, hnew, hle.trans (Nat.le_succ f), hg.imp_right fun h => h.trans (Nat.le_succ f), fun _ => hwhole, ?_⟩
  rw [Nat.succ_sub hle, decodeFrames_succ, Nat.add_sub_cancel' hle]

theorem Primed.mono (hdata : data <+: data') (h : codec.Primed t data f c) : codec.Primed t data' f c := by
  obtain ⟨g, start, hnew, hle, hg, hwhole, rfl⟩ := h
  refine ⟨g, start, hnew, hle, hg, fun hlt => (hwhole hlt).trans hdata.length_le, ?_⟩
  rw [decodeFrames_grown hdata]
  intro hne
  rw [Nat.add_sub_cancel' hle]
  exact hwhole (by omega)

/-- The left and right samples at a position of the track, by a context that is primed for its frame. -/
def trackSample (codec : AtracCodec σ α) (t : AtracTrack) (data : List Byte) (c : σ) (position : Nat) :
    BitVec 16 × BitVec 16 :=
  let absoluteSample := t.initialSkipSamples + position
  let frame := (codec.decodeFrame c (t.frameBytes data (absoluteSample / t.samplesPerFrame))).2
  let left := frame.left (absoluteSample % t.samplesPerFrame)
  (codec.clamp left, codec.clamp (if t.channels = 2 then frame.right (absoluteSample % t.samplesPerFrame) else left))

end AtracCodec

namespace AtracDecoder
open Atrac
variable {σ α : Type} {codec : AtracCodec σ α} {d d' : AtracDecoder σ} {f sample : Nat} {c : σ}

theorem preroll_eq {n : Nat} (hc : d.context = some c) (hroom : d.encoded.length < 2 ^ 32)
    (hdec : codec.Decodes d.track d.encoded) (hwhole : n ≠ 0 → d.track.frameOffset (f + n) ≤ d.encoded.length) :
    preroll codec n f d =
      (true, { d with context := some (codec.decodeFrames d.track d.encoded c f n) }) := by
  induction n generalizing f c d with
  | zero =>
    rw [preroll, AtracCodec.decodeFrames, ← hc]
  | succ n ih =>
    have hlast := hwhole (Nat.succ_ne_zero n)
    have hframe : d.track.frameOffset (f + 1) ≤ d.encoded.length := (d.track.frameOffset_mono (by omega)).trans hlast
    have hresult := (hdec f hframe c).1
    have hpacket : d.decodePrerollPacket codec (d.track.frameOffset f) =
        (true, { d with context := some (codec.decodeFrame c (d.track.frameBytes d.encoded f)).1 }) := by
      rw [AtracTrack.frameOffset_succ] at hframe
      rw [decodePrerollPacket, blockAlign, if_neg (Nat.not_lt.2 hframe), hc]
      dsimp only
      rw [packet, blockAlign, ← AtracTrack.frameBytes, decide_eq_true hresult]
    rw [preroll]
    have hoffset : ¬ d.track.dataOffset.toNat + f * d.blockAlign > 0xffffffff := by
      have hle := d.track.frameOffset_mono (Nat.le_add_right f 1)
      rw [AtracTrack.frameOffset, ← blockAlign] at hle
      omega
    rw [if_neg hoffset]
    change d.decodePrerollPacket codec (d.track.dataOffset.toNat + f * d.blockAlign) = _ at hpacket
    rw [hpacket]
    exact ih rfl hroom hdec fun _ => by rwa [Nat.add_assoc, Nat.add_comm 1 n]

/-- The state of a decoder that a seek found a sample for. -/
def sought (d : AtracDecoder σ) (sample : Nat) (context : σ) : AtracDecoder σ :=
  { d with
    context := some context
    dataCursor := d.track.frameOffset ((d.track.initialSkipSamples + sample) / d.track.samplesPerFrame)
    decodedSamples := sample
    skipSamples := (d.track.initialSkipSamples + sample) % d.track.samplesPerFrame
    finished := false }

theorem seek_found (hc : d.context = some c) (halign : d.track.blockAlign ≠ 0)
    (hroom : d.encoded.length < 2 ^ 32) (hdec : codec.Decodes d.track d.encoded)
    (hsample : sample ≤ d.track.endSample.toNat)
    (hframe : d.track.frameOffset ((d.track.initialSkipSamples + sample) / d.track.samplesPerFrame) <
      d.encoded.length) :
    ∃ c', codec.Primed d.track d.encoded ((d.track.initialSkipSamples + sample) / d.track.samplesPerFrame) c' ∧
      d.seek codec sample = (true, d.sought sample c') := by
  generalize hf : (d.track.initialSkipSamples + sample) / d.track.samplesPerFrame = f at hframe
  have hfirst : ∃ g, (if f > 2 then f - 2 else 0) = g ∧ g ≤ f ∧ (g = 0 ∨ g + 2 ≤ f) := by
    refine ⟨_, rfl, ?_⟩
    split <;> omega
  obtain ⟨g, hg, hle, hback⟩ := hfirst
  have hwhole : f - g ≠ 0 → d.track.frameOffset (g + (f - g)) ≤ d.encoded.length := by
    rw [Nat.add_sub_cancel' hle]
    exact fun _ => hframe.le
  have hflushed : (d.flush codec).context = some (codec.flushBuffers c) := by
    rw [flush, hc]
    rfl
  have hpreroll := preroll_eq (d := d.flush codec) hflushed hroom hdec hwhole
  refine ⟨_, ⟨g, codec.flushBuffers c, Or.inr ⟨c, rfl⟩, hle, hback, fun _ => hframe.le, rfl⟩, ?_⟩
  rw [seek, if_neg (by simp only [halign, false_or]; omega)]
  dsimp only
  rw [hf, hg]
  change (if d.track.frameOffset f ≥ d.encoded.length then _ else _) = _
  rw [if_neg (Nat.not_le.2 hframe), hpreroll, sought, hf]
  dsimp only [flush]
  congr 2
  exact Nat.mod_eq_of_lt (hframe.trans hroom)

theorem seek_refused (h : sample > d.track.endSample.toNat ∨
    d.encoded.length ≤ d.track.frameOffset ((d.track.initialSkipSamples + sample) / d.track.samplesPerFrame)) :
    d.seek codec sample = (false, d) := by
  rw [seek]
  split
  · rfl
  next hvalid =>
  exact if_pos (h.resolve_left fun hsample => hvalid (Or.inr hsample))

/-! ### What a decoder keeps -/

/-- The bytes that are decoded next are those of frame `f`. -/
structure Stands (codec : AtracCodec σ α) (d : AtracDecoder σ) (f : Nat) : Prop where
  cursor : d.dataCursor = d.track.frameOffset f
  context : ∃ c, d.context = some c ∧ codec.Primed d.track d.encoded f c

def Synced (d : AtracDecoder σ) (f : Nat) : Prop :=
  f * d.track.samplesPerFrame + d.skipSamples = d.track.initialSkipSamples + d.decodedSamples

/-- A track was accepted, and its bytes stay countable. -/
structure Holds (d : AtracDecoder σ) : Prop where
  align : d.track.blockAlign ≠ 0
  loop : d.track.LoopFits
  room : d.encoded.length + d.pendingWritableBytes < 2 ^ 32

structure Playing (codec : AtracCodec σ α) (d : AtracDecoder σ) : Prop where
  holds : d.Holds
  pending : d.loopPending = false
  stands : ∃ f, d.Stands codec f ∧ (d.Synced f ∨ d.remaining = 0)
  start : d.decodedSamples = 0 ∨ d.skipSamples < d.track.samplesPerFrame

theorem Holds.align_pos (h : d.Holds) : 0 < d.track.blockAlign.toNat :=
  Nat.pos_of_ne_zero fun hzero => h.align (BitVec.eq_of_toNat_eq hzero)

theorem Holds.encoded_lt (h : d.Holds) : d.encoded.length < 2 ^ 32 := (Nat.le_add_right ..).trans_lt h.room

theorem Playing.sought (h : d.Holds) (hpending : d.loopPending = false)
    (hc : codec.Primed d.track d.encoded ((d.track.initialSkipSamples + sample) / d.track.samplesPerFrame) c) :
    Playing codec (d.sought sample c) :=
  ⟨⟨h.align, h.loop, h.room⟩, hpending, ⟨_, ⟨rfl, c, rfl, hc⟩, Or.inl (Nat.div_add_mod' ..)⟩,
    Or.inr (Nat.mod_lt _ d.track.samplesPerFrame_pos)⟩

theorem Playing.rewind (h : Playing codec d) : Playing codec (d.rewind codec) := by
  obtain ⟨f, ⟨-, c, hc, -⟩, -⟩ := h.stands
  have hcontext : (d.rewind codec).context = some (codec.flushBuffers c) := by
    rw [AtracDecoder.rewind, flush]
    dsimp only
    rw [hc]
    rfl
  have hprimed : codec.Primed d.track d.encoded 0 (codec.flushBuffers c) :=
    AtracCodec.New.primed (Or.inr ⟨c, rfl⟩)
  refine ⟨⟨h.holds.align, h.holds.loop, h.holds.room⟩, h.pending, ⟨0, ⟨?_, _, hcontext, hprimed⟩, Or.inl ?_⟩, Or.inl rfl⟩
  · change d.track.dataOffset.toNat = d.track.frameOffset 0
    rw [AtracTrack.frameOffset, Nat.zero_mul, Nat.add_zero]
  · change 0 * d.track.samplesPerFrame + d.track.initialSkipSamples = d.track.initialSkipSamples + 0
    rw [Nat.zero_mul, Nat.zero_add, Nat.add_zero]

theorem Playing.leaveLoop (h : Playing codec d) : Playing codec d.leaveLoop := by
  obtain ⟨f, hstands, hsync⟩ := h.stands
  exact ⟨⟨h.holds.align, h.holds.loop, h.holds.room⟩, h.pending,
    ⟨f, ⟨hstands.cursor, hstands.context⟩, hsync⟩, h.start⟩

theorem Playing.finishDecode {advanced : Bool × AtracDecoder σ} (h : Playing codec advanced.2) (n : Nat)
    (output : List (BitVec 16 × BitVec 16)) : Playing codec (finishDecode n output advanced).2 := by
  obtain ⟨f, hstands, hsync⟩ := h.stands
  exact ⟨⟨h.holds.align, h.holds.loop, h.holds.room⟩, h.pending,
    ⟨f, ⟨hstands.cursor, hstands.context⟩, hsync⟩, h.start⟩

/-! ### One decode -/

/-- The samples of a decode are those of the track from `start` on, and the position moves over them, or from
the end of the loop to its start. -/
structure Plays (codec : AtracCodec σ α) (d : AtracDecoder σ) (start : Nat) (out : Decoded) (d' : AtracDecoder σ) :
    Prop where
  length : out.output.length = out.sampleCount
  samples : ∀ i, i < out.sampleCount →
    ∃ c, codec.Primed d.track d.encoded ((d.track.initialSkipSamples + (start + i)) / d.track.samplesPerFrame) c ∧
      out.output[i]? = some (codec.trackSample d.track d.encoded c (start + i))
  position : d'.decodedSamples = start + out.sampleCount ∨
    d.loopActive = true ∧ d.track.loopEnd.toNat < start + out.sampleCount ∧
      (start ≤ d.track.loopEnd.toNat → start + out.sampleCount = d.track.loopEnd.toNat + 1) ∧
      d'.decodedSamples = d.track.loopStart.toNat

theorem Plays.silent {start : Nat} {result : Word} {reachedEnd : Bool} (h : d'.decodedSamples = start) :
    Plays codec d start { result, reachedEnd } d' :=
  ⟨rfl, fun i hi => absurd hi (Nat.not_lt_zero i), Or.inl h⟩

theorem limitOutputSamples_le (d : AtracDecoder σ) (available : Nat) :
    d.limitOutputSamples available ≤ available := by
  rw [limitOutputSamples]
  split
  · exact Nat.le_refl _
  · exact min_le_left ..

/-- The output is cut at the end of an active loop only. -/
theorem limitOutputSamples_cases (d : AtracDecoder σ) (available : Nat) :
    d.limitOutputSamples available = available ∧
        (d.loopActive = true → d.decodedSamples ≤ d.track.loopEnd.toNat →
          d.decodedSamples + available ≤ d.track.loopEnd.toNat + 1) ∨
      d.loopActive = true ∧ d.decodedSamples ≤ d.track.loopEnd.toNat ∧
        d.decodedSamples + d.limitOutputSamples available = d.track.loopEnd.toNat + 1 := by
  rw [limitOutputSamples]
  split
  · next hfree =>
    refine Or.inl ⟨rfl, fun hactive hle => ?_⟩
    rcases hfree with hinactive | hpast
    · rw [hactive] at hinactive
      cases hinactive
    · exact absurd hpast (Nat.not_lt.2 hle)
  · next hcut =>
    rw [not_or, Bool.not_eq_true', Bool.not_eq_false, Nat.not_lt] at hcut
    obtain ⟨hactive, hle⟩ := hcut
    rcases Nat.le_total available (d.track.loopEnd.toNat + 1 - d.decodedSamples) with hall | hend
    · refine Or.inl ⟨min_eq_left hall, fun _ _ => ?_⟩
      omega
    · refine Or.inr ⟨hactive, hle, ?_⟩
      rw [min_eq_right hend]
      omega

theorem loopActive_iff : d.loopActive = true ↔ d.loopCount ≠ 0 ∧ d.track.loopStart ≠ allDataOnMemory ∧
    d.track.loopEnd ≠ allDataOnMemory ∧ d.track.loopStart ≤ d.track.loopEnd := by
  rw [loopActive, decide_eq_true_iff]

/-- The samples that a decode of a full frame gives. -/
def fullCount (d : AtracDecoder σ) : Nat :=
  d.limitOutputSamples (min (d.track.samplesPerFrame - min d.skipSamples d.track.samplesPerFrame) d.remaining)

/-- The samples given reach past the end of an active loop. -/
def Loops (d : AtracDecoder σ) : Prop :=
  d.loopActive = true ∧ d.track.loopEnd.toNat < d.decodedSamples + d.fullCount

theorem fullCount_le (d : AtracDecoder σ) : d.fullCount ≤ d.remaining ∧
    d.fullCount ≤ d.track.samplesPerFrame - min d.skipSamples d.track.samplesPerFrame :=
  ⟨(d.limitOutputSamples_le _).trans (min_le_right ..), (d.limitOutputSamples_le _).trans (min_le_left ..)⟩

/-- Samples are given by a decoder in step only, from inside the frame. -/
theorem synced_of_fullCount (hsync : d.Synced f ∨ d.remaining = 0) (hcount : d.fullCount ≠ 0) :
    d.Synced f ∧ d.skipSamples + d.fullCount ≤ d.track.samplesPerFrame := by
  have hle := d.fullCount_le
  refine ⟨hsync.resolve_right fun hnone => ?_, ?_⟩
  · omega
  · omega

theorem loops_count (h : d.Loops) (hle : d.decodedSamples ≤ d.track.loopEnd.toNat) :
    d.decodedSamples + d.fullCount = d.track.loopEnd.toNat + 1 := by
  obtain ⟨hactive, hpast⟩ := h
  rw [fullCount] at hpast ⊢
  rcases d.limitOutputSamples_cases
    (min (d.track.samplesPerFrame - min d.skipSamples d.track.samplesPerFrame) d.remaining) with
    ⟨heq, hall⟩ | ⟨-, -, hend⟩
  · have := hall hactive hle
    omega
  · exact hend

/-- A loop starts in a frame that was decoded before. -/
theorem loops_frame (h : Playing codec d) (hsync : d.Synced f ∨ d.remaining = 0) (hloops : d.Loops)
    (hend : d.decodedSamples < d.endExclusive) :
    (d.track.initialSkipSamples + d.track.loopStart.toNat) / d.track.samplesPerFrame ≤ f := by
  obtain ⟨hactive, hpast⟩ := hloops
  have hloop : d.track.loopStart.toNat ≤ d.track.loopEnd.toNat := (loopActive_iff.1 hactive).2.2.2
  have hle := d.fullCount_le
  have hsize : d.endExclusive ≤ 2 ^ 32 := d.track.endSample.isLt
  rw [remaining] at hle hsync
  rcases hsync with hsync | hnone
  · rw [Synced] at hsync
    refine Nat.le_of_lt_succ ((Nat.div_lt_iff_lt_mul d.track.samplesPerFrame_pos).2 ?_)
    rw [Nat.succ_mul]
    rcases h.start with hzero | hskip
    · omega
    · omega
  · omega

theorem synced_next (hsync : d.Synced f ∨ d.remaining = 0) (hloops : ¬ d.Loops) :
    (f + 1) * d.track.samplesPerFrame + (d.skipSamples - min d.skipSamples d.track.samplesPerFrame) =
        d.track.initialSkipSamples + (d.decodedSamples + d.fullCount) ∨
      (d.endExclusive - (d.decodedSamples + d.fullCount)) % 2 ^ 32 = 0 := by
  have hend : d.endExclusive ≤ 2 ^ 32 := d.track.endSample.isLt
  rw [remaining] at hsync
  rw [Nat.add_mul, Nat.one_mul]
  rcases d.limitOutputSamples_cases
    (min (d.track.samplesPerFrame - min d.skipSamples d.track.samplesPerFrame) d.remaining) with
    ⟨heq, hall⟩ | ⟨hactive, hle, hcut⟩
  · rw [← fullCount] at heq
    rw [remaining] at heq
    rcases hsync with hsync | hnone
    · rw [Synced] at hsync
      omega
    · omega
  · rw [← fullCount] at hcut
    exact absurd ⟨hactive, by omega⟩ hloops

theorem advanceOutputPosition_plain {n : Nat}
    (h : ¬ (d.loopActive = true ∧ d.track.loopEnd.toNat < d.decodedSamples + n)) :
    d.advanceOutputPosition codec n = (false, { d with decodedSamples := d.decodedSamples + n }) := by
  refine if_pos ?_
  rw [Bool.not_eq_true']
  by_cases hactive : d.loopActive = true
  · exact Or.inr (Nat.le_of_not_lt fun hpast => h ⟨hactive, hpast⟩)
  · exact Or.inl (Bool.eq_false_of_not_eq_true hactive)

theorem advanceOutputPosition_loop {n : Nat} (hc : d.context = some c) (hd : d.Holds)
    (hpending : d.loopPending = false) (hdec : codec.Decodes d.track d.encoded) (hactive : d.loopActive = true)
    (hpast : d.track.loopEnd.toNat < d.decodedSamples + n)
    (hframe : d.track.frameOffset ((d.track.initialSkipSamples + d.track.loopStart.toNat) / d.track.samplesPerFrame) <
      d.encoded.length) :
    ∃ d', d.advanceOutputPosition codec n = (true, d') ∧ Playing codec d' ∧
      d'.decodedSamples = d.track.loopStart.toNat := by
  have hsample : d.track.loopStart.toNat ≤ d.track.endSample.toNat := by
    obtain ⟨-, hsome, -, -⟩ := loopActive_iff.1 hactive
    obtain ⟨hstart, hend⟩ := hd.loop.resolve_left hsome
    exact hstart.trans hend
  obtain ⟨c', hprimed, hseek⟩ :=
    seek_found (d := { d with decodedSamples := d.decodedSamples + n, loopPending := true }) hc hd.align hd.encoded_lt hdec
      hsample hframe
  refine ⟨leaveLoop (d.sought d.track.loopStart.toNat c'), ?_, ?_, rfl⟩
  · rw [advanceOutputPosition]
    dsimp only
    rw [if_neg, hseek]
    · have hsame : { sought { d with decodedSamples := d.decodedSamples + n, loopPending := true }
          d.track.loopStart.toNat c' with loopPending := false } = d.sought d.track.loopStart.toNat c' := by
        rw [sought, sought, hpending]
      exact congrArg (fun d => (true, leaveLoop d)) hsame
    · rw [not_or, Nat.not_le, Bool.not_eq_true', Bool.not_eq_false]
      exact ⟨hactive, hpast⟩
  · exact (Playing.sought hd hpending hprimed).leaveLoop

/-- A decoder that has taken frame `f`, and skipped what was to be skipped of it. -/
def taken (d : AtracDecoder σ) (f : Nat) (context : σ) : AtracDecoder σ :=
  { d with
    context := some context
    dataCursor := d.track.frameOffset (f + 1)
    skipSamples := d.skipSamples - min d.skipSamples d.track.samplesPerFrame }

theorem deliver_eq {frame : CodecFrame α} (hcount : frame.count = d.track.samplesPerFrame) (context : σ) :
    deliver codec { d with context := some context, dataCursor := d.track.frameOffset (f + 1) } frame =
      finishDecode d.fullCount
        (d.writeSamples codec frame (min d.skipSamples d.track.samplesPerFrame) d.fullCount)
        ((d.taken f context).advanceOutputPosition codec d.fullCount) := by
  rw [deliver, hcount, Int.toNat_natCast]
  rfl

/-- What is written of frame `f` are the samples at the position. -/
theorem writeSamples_getElem (hsync : d.Synced f ∨ d.remaining = 0)
    (hprimed : codec.Primed d.track d.encoded f c) {i : Nat} (hi : i < d.fullCount) :
    codec.Primed d.track d.encoded
        ((d.track.initialSkipSamples + (d.decodedSamples + i)) / d.track.samplesPerFrame) c ∧
      (d.writeSamples codec (codec.decodeFrame c (d.track.frameBytes d.encoded f)).2
        (min d.skipSamples d.track.samplesPerFrame) d.fullCount)[i]? =
          some (codec.trackSample d.track d.encoded c (d.decodedSamples + i)) := by
  obtain ⟨hstep, hinside⟩ := synced_of_fullCount hsync (Nat.ne_of_gt (Nat.zero_lt_of_lt hi))
  have hskip : min d.skipSamples d.track.samplesPerFrame = d.skipSamples := min_eq_left (by omega)
  have habsolute : d.track.initialSkipSamples + (d.decodedSamples + i) =
      d.track.samplesPerFrame * f + (d.skipSamples + i) := by
    rw [Synced, Nat.mul_comm] at hstep
    omega
  have hlt : d.skipSamples + i < d.track.samplesPerFrame := by omega
  have hdiv : (d.track.initialSkipSamples + (d.decodedSamples + i)) / d.track.samplesPerFrame = f := by
    rw [habsolute, Nat.mul_add_div d.track.samplesPerFrame_pos, Nat.div_eq_of_lt hlt, Nat.add_zero]
  have hmod : (d.track.initialSkipSamples + (d.decodedSamples + i)) % d.track.samplesPerFrame = d.skipSamples + i := by
    rw [habsolute, Nat.mul_add_mod, Nat.mod_eq_of_lt hlt]
  refine ⟨by rwa [hdiv], ?_⟩
  rw [writeSamples, List.getElem?_map, List.getElem?_range hi, hskip, AtracCodec.trackSample, hdiv, hmod]
  rfl

theorem deliver_spec (h : Playing codec d) (hsync : d.Synced f ∨ d.remaining = 0)
    (hprimed : codec.Primed d.track d.encoded f c) (hend : d.decodedSamples < d.endExclusive)
    (hwhole : d.track.frameOffset (f + 1) ≤ d.encoded.length) (hdec : codec.Decodes d.track d.encoded) :
    let out := codec.decodeFrame c (d.track.frameBytes d.encoded f)
    let r := deliver codec { d with context := some out.1, dataCursor := d.track.frameOffset (f + 1) } out.2
    Plays codec d d.decodedSamples r.1 r.2 ∧ Playing codec r.2 := by
  intro out r
  have hnext : codec.Primed d.track d.encoded (f + 1) out.1 := hprimed.next hwhole
  have hlength : ∀ frame skipped, (d.writeSamples codec frame skipped d.fullCount).length = d.fullCount := by
    intro frame skipped
    rw [writeSamples, List.length_map, List.length_range]
  have hr : r = _ := deliver_eq (hdec f hwhole c).2 out.1
  by_cases hloops : d.Loops
  · have hframe : d.track.frameOffset
        ((d.track.initialSkipSamples + d.track.loopStart.toNat) / d.track.samplesPerFrame) < d.encoded.length := by
      have hle := d.track.frameOffset_mono (loops_frame h hsync hloops hend)
      have halign := h.holds.align_pos
      rw [AtracTrack.frameOffset_succ] at hwhole
      omega
    obtain ⟨d', hadvance, hplaying, hposition⟩ := advanceOutputPosition_loop (d := d.taken f out.1) rfl
      ⟨h.holds.align, h.holds.loop, h.holds.room⟩ h.pending hdec hloops.1 hloops.2 hframe
    rw [hadvance] at hr
    rw [hr]
    refine ⟨⟨hlength _ _, fun i hi => ⟨c, writeSamples_getElem hsync hprimed hi⟩, ?_⟩, hplaying.finishDecode _ _⟩
    exact Or.inr ⟨hloops.1, hloops.2, loops_count hloops, hposition⟩
  · rw [advanceOutputPosition_plain (d := d.taken f out.1) hloops] at hr
    rw [hr]
    refine ⟨⟨hlength _ _, fun i hi => ⟨c, writeSamples_getElem hsync hprimed hi⟩, Or.inl rfl⟩,
      Playing.finishDecode ⟨?_, h.pending, ⟨f + 1, ?_, ?_⟩, ?_⟩ _ _⟩
    · exact ⟨h.holds.align, h.holds.loop, h.holds.room⟩
    · exact ⟨rfl, out.1, rfl, hnext⟩
    · exact synced_next hsync hloops
    · have hle := d.fullCount_le.2
      change d.decodedSamples + d.fullCount = 0 ∨
        d.skipSamples - min d.skipSamples d.track.samplesPerFrame < d.track.samplesPerFrame
      have hpos := d.track.samplesPerFrame_pos
      rcases h.start with hzero | hskip
      · omega
      · omega

/-- A frame that is there is decoded. -/
theorem decodePacket_eq (hcursor : d.dataCursor = d.track.frameOffset f) (hc : d.context = some c)
    (hroom : d.encoded.length < 2 ^ 32) (hwhole : d.track.frameOffset (f + 1) ≤ d.encoded.length)
    (hdec : codec.Decodes d.track d.encoded) :
    d.decodePacket codec = deliver codec
      { d with
        context := some (codec.decodeFrame c (d.track.frameBytes d.encoded f)).1
        dataCursor := d.track.frameOffset (f + 1) } (codec.decodeFrame c (d.track.frameBytes d.encoded f)).2 := by
  obtain ⟨hresult, hcount⟩ := hdec f hwhole c
  have hpacket : d.packet d.dataCursor = d.track.frameBytes d.encoded f := by
    rw [packet, hcursor]
    rfl
  have hnext : (d.dataCursor + d.blockAlign) % 2 ^ 32 = d.track.frameOffset (f + 1) := by
    rw [hcursor, blockAlign, ← AtracTrack.frameOffset_succ]
    exact Nat.mod_eq_of_lt (hwhole.trans_lt hroom)
  have hsize : d.track.samplesPerFrame ≤ 2048 := by
    rw [AtracTrack.samplesPerFrame]
    split <;> decide
  rw [decodePacket, if_neg (by rw [hcursor, blockAlign, ← AtracTrack.frameOffset_succ]; omega), hc]
  dsimp only
  rw [hpacket, hnext, if_neg (by omega)]

theorem decodePacket_spec (h : Playing codec d) (hend : d.decodedSamples < d.endExclusive)
    (hdec : codec.Decodes d.track d.encoded) :
    Plays codec d d.decodedSamples (d.decodePacket codec).1 (d.decodePacket codec).2 ∧
      Playing codec (d.decodePacket codec).2 := by
  obtain ⟨f, ⟨hcursor, c, hc, hprimed⟩, hsync⟩ := h.stands
  by_cases hwhole : d.dataCursor + d.blockAlign > d.encoded.length
  · rw [decodePacket, if_pos hwhole]
    exact ⟨.silent rfl, h⟩
  rw [blockAlign, hcursor, ← AtracTrack.frameOffset_succ, Nat.not_lt] at hwhole
  rw [decodePacket_eq hcursor hc h.holds.encoded_lt hwhole hdec]
  exact deliver_spec h hsync hprimed hend hwhole hdec

/-- The track has come to its end, or all its data has. -/
def AtEnd (d : AtracDecoder σ) : Prop :=
  d.endExclusive ≤ d.decodedSamples ∨
    d.declaredEnd ≤ d.encoded.length ∧ d.declaredEnd < d.dataCursor + d.blockAlign

/-- A decode plays from the position, or from the beginning when a track that has come to its end goes on. -/
def Decodes (codec : AtracCodec σ α) (d : AtracDecoder σ) (r : Decoded × AtracDecoder σ) : Prop :=
  ∃ start, (start = d.decodedSamples ∨ start = 0 ∧ d.loopCount ≠ 0 ∧ d.AtEnd) ∧ Plays codec d start r.1 r.2

theorem loopActive_of_leaveLoop (h : d.leaveLoop.loopActive = true) : d.loopActive = true := by
  obtain ⟨hcount, hloop⟩ := loopActive_iff.1 h
  refine loopActive_iff.2 ⟨fun hzero => hcount ?_, hloop⟩
  rw [leaveLoop, hzero]
  rfl

theorem Plays.of_restart {start : Nat} {r : Decoded × AtracDecoder σ}
    (h : Plays codec (d.leaveLoop.rewind codec) start r.1 r.2) : Plays codec d start r.1 r.2 := by
  refine ⟨h.length, h.samples, h.position.imp_right ?_⟩
  rintro ⟨hactive, hpast⟩
  exact ⟨loopActive_of_leaveLoop hactive, hpast⟩

theorem restart_spec {next : AtracDecoder σ → Decoded × AtracDecoder σ} (h : Playing codec d) (hend : d.AtEnd)
    (hnext : Decodes codec (d.leaveLoop.rewind codec) (next (d.leaveLoop.rewind codec)) ∧
      Playing codec (next (d.leaveLoop.rewind codec)).2) :
    Decodes codec d (d.restart codec next) ∧ Playing codec (d.restart codec next).2 := by
  rw [restart]
  split
  · next hcount =>
    obtain ⟨⟨start, hstart, hplays⟩, hplaying⟩ := hnext
    refine ⟨⟨start, Or.inr ⟨?_, hcount, hend⟩, hplays.of_restart⟩, hplaying⟩
    rcases hstart with hzero | ⟨hzero, -⟩
    · exact hzero
    · exact hzero
  · obtain ⟨f, hstands, hsync⟩ := h.stands
    exact ⟨⟨d.decodedSamples, Or.inl rfl, .silent rfl⟩, ⟨h.holds.align, h.holds.loop, h.holds.room⟩, h.pending,
      ⟨f, ⟨hstands.cursor, hstands.context⟩, hsync⟩, h.start⟩

theorem decodePacket_decodes (h : Playing codec d) (hend : d.decodedSamples < d.endExclusive)
    (hdec : codec.Decodes d.track d.encoded) :
    Decodes codec d (d.decodePacket codec) ∧ Playing codec (d.decodePacket codec).2 := by
  obtain ⟨hplays, hplaying⟩ := decodePacket_spec h hend hdec
  exact ⟨⟨d.decodedSamples, Or.inl rfl, hplays⟩, hplaying⟩

theorem decodeAtCursor_spec (h : Playing codec d) (hend : d.decodedSamples < d.endExclusive)
    (hdec : codec.Decodes d.track d.encoded) :
    Decodes codec d (d.decodeAtCursor codec) ∧ Playing codec (d.decodeAtCursor codec).2 := by
  rw [decodeAtCursor]
  split
  · next hcursor =>
    split
    · exact ⟨⟨d.decodedSamples, Or.inl rfl, .silent rfl⟩, h⟩
    · next hall =>
      refine restart_spec h (Or.inr (by omega)) (decodePacket_decodes h.leaveLoop.rewind (Nat.succ_pos _) hdec)
  · exact decodePacket_decodes h hend hdec

theorem decode_spec (h : Playing codec d) (hdec : codec.Decodes d.track d.encoded) :
    Decodes codec d (d.decode codec) ∧ Playing codec (d.decode codec).2 := by
  rw [decode]
  split
  · exact ⟨⟨d.decodedSamples, Or.inl rfl, .silent rfl⟩, h⟩
  rw [if_neg (by rw [h.pending]; exact Bool.false_ne_true), decodeFromPosition]
  split
  · next hpast =>
    exact restart_spec h (Or.inl hpast) (decodeAtCursor_spec h.leaveLoop.rewind (Nat.succ_pos _) hdec)
  · next hinside => exact decodeAtCursor_spec h (Nat.lt_of_not_le hinside) hdec

/-! ### Runs -/

theorem encoded_step (codec : AtracCodec σ α) (d : AtracDecoder σ) (call : AtracCall) :
    (d.step codec call).2.track = d.track ∧ d.encoded <+: (d.step codec call).2.encoded := by
  have hsame : ∀ {d' : AtracDecoder σ}, d.SameData d' → d'.track = d.track ∧ d.encoded <+: d'.encoded :=
    fun h => ⟨h.track, h.encoded ▸ List.prefix_refl _⟩
  cases call with
  | decodeData => exact hsame (sameData_decode codec d)
  | resetPlayPosition sample => exact hsame (sameData_resetPlayPosition codec d sample)
  | setLoopNum count =>
    rw [step, setLoopNum]
    split
    · exact ⟨rfl, List.prefix_refl _⟩
    · exact ⟨rfl, List.prefix_refl _⟩
  | addStreamData mapped byteCount =>
    rw [step, addStreamData]
    split
    · exact ⟨rfl, List.prefix_refl _⟩
    split
    · exact ⟨rfl, List.prefix_refl _⟩
    split
    · exact ⟨rfl, List.prefix_refl _⟩
    · exact ⟨rfl, List.prefix_append ..⟩
  | _ => exact ⟨rfl, List.prefix_refl _⟩

theorem encoded_after (codec : AtracCodec σ α) (d : AtracDecoder σ) (calls : List AtracCall) :
    (after (step codec) d calls).track = d.track ∧ d.encoded <+: (after (step codec) d calls).encoded := by
  refine rel_after (R := fun d d' : AtracDecoder σ => d'.track = d.track ∧ d.encoded <+: d'.encoded)
    (fun d => ⟨rfl, List.prefix_refl _⟩) ?_ (encoded_step codec) d calls
  rintro s t u ⟨htrack, hgrown⟩ ⟨htrack', hgrown'⟩
  exact ⟨htrack'.trans htrack, hgrown.trans hgrown'⟩

theorem streamWindow_room (h : d.encoded.length < 2 ^ 32) : d.encoded.length + d.streamWindow.2 < 2 ^ 32 := by
  have hfile := d.track.fileSize.isLt
  rw [streamWindow]
  split
  · exact h
  dsimp only
  split
  · exact h
  · dsimp only
    omega

theorem Playing.seek (h : Playing codec d) (hdec : codec.Decodes d.track d.encoded) (sample : Nat) :
    d.seek codec sample = (false, d) ∨
      ∃ c, d.seek codec sample = (true, d.sought sample c) ∧ Playing codec (d.sought sample c) := by
  by_cases hrefused : sample > d.track.endSample.toNat ∨
      d.encoded.length ≤ d.track.frameOffset ((d.track.initialSkipSamples + sample) / d.track.samplesPerFrame)
  · exact Or.inl (seek_refused hrefused)
  · rw [not_or, Nat.not_lt, Nat.not_le] at hrefused
    obtain ⟨f, ⟨-, c, hc, -⟩, -⟩ := h.stands
    obtain ⟨c', hprimed, hseek⟩ := seek_found hc h.holds.align h.holds.encoded_lt hdec hrefused.1 hrefused.2
    exact Or.inr ⟨c', hseek, Playing.sought h.holds h.pending hprimed⟩

theorem Playing.addStreamData (h : Playing codec d) (mapped : Word → Nat → Option Bytes) (n : Nat) :
    Playing codec (d.addStreamData mapped n).2 := by
  rw [AtracDecoder.addStreamData]
  split
  · exact h
  split
  · exact h
  split
  · exact h
  · next hroom _ _ source _ =>
    obtain ⟨f, ⟨hcursor, c, hc, hprimed⟩, hsync⟩ := h.stands
    refine ⟨⟨h.holds.align, h.holds.loop, ?_⟩, h.pending, ⟨f, ⟨hcursor, c, hc, ?_⟩, hsync⟩, h.start⟩
    · have hlt := h.holds.room
      change (d.encoded ++ _).length + (d.pendingWritableBytes - n) < 2 ^ 32
      rw [List.length_append, List.length_map, List.length_range]
      omega
    · exact hprimed.mono (List.prefix_append ..)

theorem Playing.step (h : Playing codec d) (hdec : codec.Decodes d.track d.encoded) (call : AtracCall) :
    Playing codec (d.step codec call).2 := by
  cases call with
  | decodeData => exact (decode_spec h hdec).2
  | resetPlayPosition sample =>
    rw [AtracDecoder.step, resetPlayPosition]
    split
    · exact h
    · rcases h.seek hdec sample.toNat with hrefused | ⟨c, hfound, hplaying⟩
      · rw [hrefused]
        exact h
      · rw [hfound]
        exact hplaying
  | rewind => exact h.rewind
  | setLoopNum count =>
    rw [AtracDecoder.step, setLoopNum]
    split
    · exact h
    · obtain ⟨f, hstands, hsync⟩ := h.stands
      exact ⟨⟨h.holds.align, h.holds.loop, h.holds.room⟩, h.pending,
        ⟨f, ⟨hstands.cursor, hstands.context⟩, hsync⟩, h.start⟩
  | getStreamDataInfo =>
    obtain ⟨f, hstands, hsync⟩ := h.stands
    exact ⟨⟨h.holds.align, h.holds.loop, streamWindow_room h.holds.encoded_lt⟩, h.pending,
      ⟨f, ⟨hstands.cursor, hstands.context⟩, hsync⟩, h.start⟩
  | addStreamData mapped byteCount => exact h.addStreamData mapped byteCount.toNat
  | _ => exact h

theorem Playing.after (h : Playing codec d) (calls : List AtracCall)
    (hdec : codec.Decodes (Transducer.after (AtracDecoder.step codec) d calls).track
      (Transducer.after (AtracDecoder.step codec) d calls).encoded) :
    Playing codec (Transducer.after (AtracDecoder.step codec) d calls) := by
  induction calls generalizing d with
  | nil => exact h
  | cons call calls ih =>
    obtain ⟨htrack, hgrown⟩ := encoded_after codec d (call :: calls)
    exact ih (h.step (htrack ▸ hdec.mono hgrown) call) hdec

theorem playing_loaded {source : List Byte} {parsed : AtracTrack} {address : Word} (hpending : d.loopPending = false)
    (hroom : source.length + d.pendingWritableBytes < 2 ^ 32) (hparsed : parseRiff source = some parsed)
    (hcontext : codec.alloc parsed.codecType parsed.channels parsed.blockAlign parsed.jointStereo = some c) :
    Playing codec (d.loaded parsed source address (some c)) := by
  obtain ⟨halign, hloop⟩ := parseRiff_eq_some hparsed
  refine ⟨⟨halign, hloop, hroom⟩, hpending, ⟨0, ⟨?_, c, rfl, ?_⟩, Or.inl ?_⟩, Or.inl rfl⟩
  · change parsed.dataOffset.toNat = parsed.frameOffset 0
    rw [AtracTrack.frameOffset, Nat.zero_mul, Nat.add_zero]
  · exact AtracCodec.New.primed (Or.inl hcontext)
  · change 0 * parsed.samplesPerFrame + parsed.initialSkipSamples = parsed.initialSkipSamples + 0
    rw [Nat.zero_mul, Nat.zero_add, Nat.add_zero]

theorem playing_setDataAt {requested address size : Word} {mapped : Word → Nat → Option Bytes}
    (h : setDataAt codec { requestedCodecType := requested } mapped address size = (success, d)) :
    Playing codec d := by
  obtain ⟨source, hsize, hset⟩ := setDataAt_eq_success h
  obtain ⟨parsed, c, hparsed, -, hcontext, rfl⟩ := setData_eq_true hset
  exact playing_loaded rfl hsize hparsed hcontext

/-- The frames before the cursor. -/
def framesConsumed (d : AtracDecoder σ) : Nat := (d.dataCursor - d.track.dataOffset.toNat) / d.blockAlign

/-- How a call moves the position. -/
def Moves (codec : AtracCodec σ α) (d : AtracDecoder σ) : AtracCall → Prop
  | .decodeData => Decodes codec d (d.decode codec)
  | .resetPlayPosition sample =>
    (d.resetPlayPosition codec sample).2.decodedSamples =
      if (d.resetPlayPosition codec sample).1 = 0 then sample.toNat else d.decodedSamples
  | .rewind => (d.rewind codec).decodedSamples = 0
  | call => (d.step codec call).2.decodedSamples = d.decodedSamples

theorem moves (h : Playing codec d) (hdec : codec.Decodes d.track d.encoded) (call : AtracCall) :
    Moves codec d call := by
  cases call with
  | decodeData => exact (decode_spec h hdec).1
  | resetPlayPosition sample =>
    rw [Moves, resetPlayPosition]
    split
    · rfl
    · rcases h.seek hdec sample.toNat with hrefused | ⟨c, hfound, -⟩
      · rw [hrefused]
        rfl
      · rw [hfound]
        rfl
  | setLoopNum count =>
    change (d.setLoopNum count).2.decodedSamples = d.decodedSamples
    rw [setLoopNum]
    split
    · rfl
    · rfl
  | addStreamData mapped byteCount =>
    change (d.addStreamData mapped byteCount.toNat).2.decodedSamples = d.decodedSamples
    rw [addStreamData]
    split
    · rfl
    split
    · rfl
    split
    · rfl
    · rfl
  | _ => rfl

theorem synced_framesConsumed (h : Playing codec d) :
    d.framesConsumed * d.track.samplesPerFrame + d.skipSamples = d.track.initialSkipSamples + d.decodedSamples ∨
      d.remaining = 0 := by
  obtain ⟨f, hstands, hsync⟩ := h.stands
  have hframes : d.framesConsumed = f := by
    rw [framesConsumed, hstands.cursor, AtracTrack.frameOffset, Nat.add_sub_cancel_left, blockAlign]
    exact Nat.mul_div_cancel _ h.holds.align_pos
  rwa [hframes]

/-- In every run on a track, while the library gives full frames: no loop is left pending, the next frame and
the samples skipped of it are those of the position, unless no sample remains up to the end, and every call moves
the position as it says. -/
theorem position_tracks (codec : AtracCodec σ α) (requested address size : Word)
    (mapped : Word → Nat → Option Bytes) (calls : List AtracCall) (d₀ d : AtracDecoder σ)
    (hset : setDataAt codec { requestedCodecType := requested } mapped address size = (success, d₀))
    (hrun : after (step codec) d₀ calls = d) (hdec : codec.Decodes d.track d.encoded) :
    d.loopPending = false ∧
      (d.framesConsumed * d.track.samplesPerFrame + d.skipSamples = d.track.initialSkipSamples + d.decodedSamples ∨
        d.remaining = 0) ∧
      ∀ call, Moves codec d call := by
  subst hrun
  have h := (playing_setDataAt hset).after calls hdec
  exact ⟨h.pending, synced_framesConsumed h, moves h hdec⟩

/-- A track of ten samples in one block, with a loop from 2 to 5. -/
def shortTrack : List Byte :=
  [0x52, 0x49, 0x46, 0x46, 131, 0, 0, 0, 0x57, 0x41, 0x56, 0x45] ++
  [0x66, 0x6d, 0x74, 0x20, 16, 0, 0, 0, 0x70, 0x02, 1, 0, 0x44, 0xac, 0, 0, 0, 0, 0, 0, 1, 0, 0, 0] ++
  [0x66, 0x61, 0x63, 0x74, 8, 0, 0, 0, 10, 0, 0, 0, 0, 0, 0, 0] ++
  [0x73, 0x6d, 0x70, 0x6c, 60, 0, 0, 0] ++ List.replicate 28 0 ++ [1, 0, 0, 0] ++ List.replicate 12 0 ++
  [2, 0, 0, 0, 5, 0, 0, 0, 0, 0, 0, 0, 0, 0, 0, 0] ++
  [0x64, 0x61, 0x74, 0x61, 1, 0, 0, 0, 0]

/-- A library whose samples are their indices in the frame. -/
def indexCodec : AtracCodec Unit Nat :=
  { alloc := fun _ _ _ _ => some ()
    flushBuffers := id
    decodeFrame := fun c _ => (c, { result := 1, count := 1024, left := id, right := id })
    clamp := BitVec.ofNat 16 }

def shortMemory (_ : Word) (_ : Nat) : Option Bytes := some fun i => shortTrack.getD i 0

/-- A new decoder with the track. -/
def shortDecoder : AtracDecoder Unit :=
  (setDataAt indexCodec { requestedCodecType := 0 } shortMemory 0x08804000 (BitVec.ofNat 32 shortTrack.length)).2

theorem indexCodec_decodes {t : AtracTrack} (ht : t.samplesPerFrame = 1024) (data : List Byte) :
    indexCodec.Decodes t data := by
  intro f hf c
  rw [ht]
  exact ⟨Int.one_nonneg, rfl⟩

theorem shortDecoder_set :
    setDataAt indexCodec { requestedCodecType := 0 } shortMemory 0x08804000 (BitVec.ofNat 32 shortTrack.length) =
      (success, shortDecoder) := by
  have hresult : (setDataAt indexCodec { requestedCodecType := 0 } shortMemory 0x08804000
      (BitVec.ofNat 32 shortTrack.length)).1 = success := by decide +kernel
  rw [← hresult, shortDecoder]

/-- The track, played to its end, and then with a loop to come. -/
theorem position_tracks_shortTrack :
    let d := after (step indexCodec) shortDecoder [.decodeData, .setLoopNum 1]
    d.loopPending = false ∧
      (d.framesConsumed * d.track.samplesPerFrame + d.skipSamples = d.track.initialSkipSamples + d.decodedSamples ∨
        d.remaining = 0) ∧
      ∀ call, Moves indexCodec d call := by
  intro d
  exact position_tracks indexCodec 0 0x08804000 (BitVec.ofNat 32 shortTrack.length) shortMemory
    [.decodeData, .setLoopNum 1] shortDecoder d shortDecoder_set rfl (indexCodec_decodes (by decide +kernel) _)

/-- At the end of the track, at position 10, a loop count sends a decode back to position 0. From position 7,
past the end of the loop, the position moves from the end of the track to the start of the loop. -/
theorem position_sent_back :
    let ended := after (step indexCodec) shortDecoder [.decodeData, .setLoopNum 1]
    let past := after (step indexCodec) shortDecoder [.resetPlayPosition 7, .setLoopNum 1]
    (indexCodec.Decodes ended.track ended.encoded ∧ indexCodec.Decodes past.track past.encoded) ∧
      (ended.decodedSamples = 10 ∧ (ended.decode indexCodec).1.sampleCount = 10 ∧
        ¬ ∃ c, (ended.decode indexCodec).1.output[0]? =
          some (indexCodec.trackSample ended.track ended.encoded c (ended.decodedSamples + 0))) ∧
      past.decodedSamples = 7 ∧ (past.decode indexCodec).1.sampleCount = 3 ∧
        (past.decode indexCodec).2.decodedSamples = past.track.loopStart.toNat ∧
        past.decodedSamples + (past.decode indexCodec).1.sampleCount ≠ past.track.loopEnd.toNat + 1 := by
  intro ended past
  refine ⟨⟨indexCodec_decodes (by decide +kernel) _, indexCodec_decodes (by decide +kernel) _⟩,
    ⟨by decide +kernel, by decide +kernel, ?_⟩, by decide +kernel, by decide +kernel, by decide +kernel,
    by decide +kernel⟩
  rintro ⟨⟨⟩, h⟩
  revert h
  decide +kernel

end AtracDecoder

end Psprism
