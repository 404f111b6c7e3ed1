import Mathlib.Algebra.BigOperators.Group.Finset.Basic
import Mathlib.Data.BitVec
import Mathlib.Tactic.Abel
import Psprism.Lib.History
import Psprism.Lib.Interleaving
import Psprism.Lib.Ring

/-!
# The host audio engine (`audio_engine.cpp`)

Each channel is a ring of frames with a write index, moved by `submit`, and a read index, moved by the
audio callback in `consume` and by `reset_channel`. Submits and resets of a channel exclude each other by
its `submit_mutex`; the callback, of which there is one at a time, takes no lock. Each load or store of an
index is a step of its own, and so is each copy of frames. Of the counters only `queued_frames_` is kept,
and mixing the channels is left out: a frame is delivered when the callback moves the read index past it.

A submit that finds no room gives the mutex up while it waits; coming back it asks for room again, just as a
new blocking submit does. Its wait after the frames are stored only reads.

A reset stores the write index it loaded as the read index. When the callback is between its own load and
store of the read index, or has moved it since the reset loaded it, one of the two stores undoes what the
other counted. Away from these schedules the engine is sound (`audioEngine_sound`).
-/

namespace Psprism
open Interleaving History

/-- `std::size_t` indices, which wrap. -/
abbrev Index := BitVec 64

def channelCount : Nat := 9
def maximumFramesPerChannel : Nat := 131072

def frameSlot (index : Index) : Nat := (index &&& BitVec.ofNat 64 (maximumFramesPerChannel - 1)).toNat

/-- Where the call is that holds the `submit_mutex` of a channel. -/
inductive Producer (F : Type)
  | idle
  /-- To load the write index in `queued`, the second time when `again`. -/
  | asking (frames : List F) (blocking again : Bool)
  /-- To load the read index in `queued`. -/
  | asked (frames : List F) (blocking again : Bool) (w : Index)
  | ready (frames : List F)
  | copying (frames : List F) (w : Index)
  | copied (frames : List F) (w : Index)
  /-- To add to `queued_frames_`. -/
  | submitted (count : Nat)
  | resetting
  | resetLoadedWrite (w : Index)
  | resetLoaded (w r : Index)
  /-- To subtract from `queued_frames_`. -/
  | discarded (count : Index)

/-- Where the audio callback is. -/
inductive Consumer (F : Type)
  | idle
  | atChannel (channel frameCount : Nat)
  | loadedWrite (channel frameCount : Nat) (w : Index)
  | loaded (channel frameCount : Nat) (w r : Index)
  | mixed (channel frameCount : Nat) (r : Index) (frames : List F)
  /-- To subtract from `queued_frames_`. -/
  | stored (channel frameCount consumed : Nat)

inductive AudioEvent (F : Type)
  | submitted (frames : List F)
  | delivered (frames : List F)
  | discarded
deriving DecidableEq

structure Channel (F : Type) where
  writeIndex : Index := 0
  readIndex : Index := 0
  samples : Nat → F
  producer : Producer F := .idle
  log : List (AudioEvent F) := []

structure AudioEngine (F : Type) where
  channels : Nat → Channel F
  consumer : Consumer F := .idle
  queuedFrames : Index := 0

inductive AudioAction (F : Type)
  | submit (channel : Nat) (frames : List F) (blocking : Bool)
  | resetChannel (channel : Nat)
  | consume (frameCount : Nat)
  /-- The next step of the call that holds the mutex of the channel. -/
  | producer (channel : Nat)
  | consumer

namespace AudioEngine
variable {F : Type}

def create (silence : F) : AudioEngine F := { channels := fun _ => { samples := fun _ => silence } }

/-- A step of `submit` or `reset_channel`, and what it adds to `queued_frames_`. -/
def produce (ch : Channel F) : Option (Channel F × Index) :=
  match ch.producer with
  | .idle => none
  | .asking frames blocking again =>
    some ({ ch with producer := .asked frames blocking again ch.writeIndex }, 0)
  | .asked frames blocking again w =>
    let queued := w - ch.readIndex
    let next :=
      if again then
        if queued.toNat ≤ maximumFramesPerChannel - frames.length then .ready frames else .idle
      else if !blocking && queued ≠ 0 then .idle
      else .asking frames blocking true
    some ({ ch with producer := next }, 0)
  | .ready frames => some ({ ch with producer := .copying frames ch.writeIndex }, 0)
  | .copying frames w =>
    let samples := Ring.copyAround maximumFramesPerChannel ch.samples (frameSlot w) frames
    some ({ ch with samples, producer := .copied frames w }, 0)
  | .copied frames w =>
    some ({ ch with
      writeIndex := w + BitVec.ofNat 64 frames.length
      producer := .submitted frames.length
      log := .submitted frames :: ch.log }, 0)
  | .submitted count => some ({ ch with producer := .idle }, BitVec.ofNat 64 count)
  | .resetting => some ({ ch with producer := .resetLoadedWrite ch.writeIndex }, 0)
  | .resetLoadedWrite w => some ({ ch with producer := .resetLoaded w ch.readIndex }, 0)
  | .resetLoaded w r =>
    if w - r ≠ 0 then
      some ({ ch with readIndex := w, producer := .discarded (w - r), log := .discarded :: ch.log }, 0)
    else some ({ ch with producer := .idle }, 0)
  | .discarded count => some ({ ch with producer := .idle }, -count)

def setChannel (s : AudioEngine F) (channel : Nat) (ch : Channel F) : AudioEngine F :=
  { s with channels := Function.update s.channels channel ch }

/-- A step of `consume`. -/
def advance (s : AudioEngine F) : Option (AudioEngine F) :=
  match s.consumer with
  | .idle => none
  | .atChannel c n =>
    if c < channelCount then some { s with consumer := .loadedWrite c n (s.channels c).writeIndex }
    else some { s with consumer := .idle }
  | .loadedWrite c n w =>
    let r := (s.channels c).readIndex
    if w = r then some { s with consumer := .atChannel (c + 1) n } else some { s with consumer := .loaded c n w r }
  | .loaded c n w r =>
    let available := ((w - r).setWidth 32).toNat
    let consumed := min n available
    let frames := (List.range consumed).map fun frame =>
      (s.channels c).samples (frameSlot (r + BitVec.ofNat 64 frame))
    some { s with consumer := .mixed c n r frames }
  | .mixed c n r frames =>
    let ch := s.channels c
    some { s.setChannel c { ch with
        readIndex := r + BitVec.ofNat 64 frames.length, log := .delivered frames :: ch.log } with
      consumer := .stored c n frames.length }
  | .stored c n consumed =>
    some { s with queuedFrames := s.queuedFrames - BitVec.ofNat 64 consumed, consumer := .atChannel (c + 1) n }

/-- A call that takes the mutex of a channel. -/
def begin (s : AudioEngine F) (channel : Nat) (producer : Producer F) : Option (AudioEngine F) :=
  match (s.channels channel).producer with
  | .idle => some (s.setChannel channel { s.channels channel with producer })
  | _ => none

def step (s : AudioEngine F) : AudioAction F → Option (AudioEngine F)
  | .submit channel frames blocking =>
    if frames = [] ∨ channelCount ≤ channel ∨ maximumFramesPerChannel < frames.length then some s
    else s.begin channel (.asking frames blocking false)
  | .resetChannel channel => if channelCount ≤ channel then some s else s.begin channel .resetting
  | .consume frameCount =>
    match s.consumer with
    | .idle =>
      if frameCount = 0 ∨ maximumFramesPerChannel < frameCount then some s
      else some { s with consumer := .atChannel 0 frameCount }
    | _ => none
  | .producer channel => (produce (s.channels channel)).map fun (ch, queued) =>
      { s.setChannel channel ch with queuedFrames := s.queuedFrames + queued }
  | .consumer => s.advance

/-! ### Soundness -/

/-- The frames that were submitted and neither delivered nor discarded, in the order of submission. -/
def pending : List (AudioEvent F) → List F
  | [] => []
  | .submitted frames :: older => pending older ++ frames
  | .delivered frames :: older => (pending older).drop frames.length
  | .discarded :: _ => []

/-- Frames that are delivered are the next ones pending. -/
def InOrder (older : List (AudioEvent F)) : AudioEvent F → Prop
  | .delivered frames => frames <+: pending older
  | _ => True

def distance (ch : Channel F) : Index := ch.writeIndex - ch.readIndex

def Quiescent (s : AudioEngine F) : Prop :=
  s.consumer = .idle ∧ ∀ c < channelCount, (s.channels c).producer = .idle

structure Sound (s : AudioEngine F) : Prop where
  inOrder : ∀ c newer event older, (s.channels c).log = newer ++ event :: older → InOrder older event
  bounded : ∀ c, (distance (s.channels c)).toNat ≤ maximumFramesPerChannel
  telemetry : s.Quiescent → s.queuedFrames.toNat = ∑ c ∈ Finset.range channelCount, (distance (s.channels c)).toNat

/-- The callback is not between its loads and its store on the channel, and has loaded no write index but
`w` when it is between its loads. -/
def Away (channel : Nat) (w : Index) : Consumer F → Prop
  | .loadedWrite c _ loaded => c = channel → loaded = w
  | .loaded c _ _ _ | .mixed c _ _ _ => c ≠ channel
  | _ => True

instance (channel : Nat) (w : Index) : ∀ consumer : Consumer F, Decidable (Away channel w consumer)
  | .loadedWrite _ _ _ => inferInstanceAs (Decidable (_ → _))
  | .loaded _ _ _ _ | .mixed _ _ _ _ => inferInstanceAs (Decidable (_ ≠ _))
  | .idle | .atChannel _ _ | .stored _ _ _ => .isTrue trivial

/-- If the holder of the mutex is to store the read index in a reset: that index is the one it loaded, and
the callback is away. -/
def Undisturbed (channel : Nat) (readIndex : Index) (consumer : Consumer F) : Producer F → Prop
  | .resetLoaded w r => w ≠ r → readIndex = r ∧ Away channel w consumer
  | _ => True

instance (channel : Nat) (readIndex : Index) (consumer : Consumer F) :
    ∀ producer, Decidable (Undisturbed channel readIndex consumer producer)
  | .resetLoaded _ _ => inferInstanceAs (Decidable (_ → _))
  | .idle | .asking _ _ _ | .asked _ _ _ _ | .ready _ | .copying _ _ | .copied _ _ | .submitted _ | .resetting
  | .resetLoadedWrite _ | .discarded _ => .isTrue trivial

/-- Every reset stores the read index undisturbed by the callback. -/
def ResetsAlone (s : AudioEngine F) : AudioAction F → Prop
  | .producer c => Undisturbed c (s.channels c).readIndex s.consumer (s.channels c).producer
  | _ => True

instance (s : AudioEngine F) : ∀ a, Decidable (s.ResetsAlone a)
  | .producer _ => inferInstanceAs (Decidable (Undisturbed _ _ _ _))
  | .submit _ _ _ | .resetChannel _ | .consume _ | .consumer => .isTrue trivial

/-! ### Indices -/

theorem frameSlot_eq (p : Index) : frameSlot p = p.toNat % maximumFramesPerChannel := by
  rw [frameSlot, BitVec.toNat_and]
  exact Nat.and_two_pow_sub_one_eq_mod p.toNat 17

theorem toNat_add_mod (p : Index) (k : Nat) :
    (p + BitVec.ofNat 64 k).toNat % maximumFramesPerChannel = (p.toNat + k) % maximumFramesPerChannel := by
  rw [BitVec.toNat_add, BitVec.toNat_ofNat, Nat.add_mod_mod, maximumFramesPerChannel]
  omega

theorem frameSlot_add (p : Index) (k : Nat) :
    frameSlot (p + BitVec.ofNat 64 k) = (p.toNat + k) % maximumFramesPerChannel := by
  rw [frameSlot_eq, toNat_add_mod]

theorem toNat_ofNat_of_le {k : Nat} (hk : k ≤ maximumFramesPerChannel) : (BitVec.ofNat 64 k).toNat = k := by
  rw [maximumFramesPerChannel] at hk
  rw [BitVec.toNat_ofNat]
  omega

/-! ### One channel -/

/-- What the call that holds the mutex has loaded or copied. -/
def ProducerOk (ch : Channel F) : Prop :=
  match ch.producer with
  | .asking frames _ _ => frames.length ≤ maximumFramesPerChannel
  | .asked frames _ _ w => frames.length ≤ maximumFramesPerChannel ∧ w = ch.writeIndex
  | .ready frames => (pending ch.log).length + frames.length ≤ maximumFramesPerChannel
  | .copying frames w =>
    (pending ch.log).length + frames.length ≤ maximumFramesPerChannel ∧ w = ch.writeIndex
  | .copied frames w => (pending ch.log).length + frames.length ≤ maximumFramesPerChannel ∧
      w = ch.writeIndex ∧ Ring.Holds maximumFramesPerChannel ch.samples w.toNat frames
  | .resetLoadedWrite w | .resetLoaded w _ => w = ch.writeIndex
  | _ => True

/-- The pending frames are in the ring from the read index on. -/
structure ChannelInv (ch : Channel F) : Prop where
  write : ch.writeIndex = ch.readIndex + BitVec.ofNat 64 (pending ch.log).length
  fits : (pending ch.log).length ≤ maximumFramesPerChannel
  holds : Ring.Holds maximumFramesPerChannel ch.samples ch.readIndex.toNat (pending ch.log)
  inOrder : Entries InOrder ch.log
  producer : ProducerOk ch

variable {ch ch' : Channel F} {q : Index}

theorem ChannelInv.distance_eq (h : ChannelInv ch) : distance ch = BitVec.ofNat 64 (pending ch.log).length := by
  rw [distance, h.write, add_sub_cancel_left]

theorem ChannelInv.toNat_distance (h : ChannelInv ch) : (distance ch).toNat = (pending ch.log).length := by
  rw [h.distance_eq, toNat_ofNat_of_le h.fits]

/-- The pending frames end at the slot that is written next. -/
theorem ChannelInv.end_mod (h : ChannelInv ch) :
    (ch.readIndex.toNat + (pending ch.log).length) % maximumFramesPerChannel =
      ch.writeIndex.toNat % maximumFramesPerChannel := by
  rw [h.write, toNat_add_mod]

/-- What the holder of the mutex has still to add to `queued_frames_`, negated. -/
def owed : Producer F → Index
  | .submitted count => -BitVec.ofNat 64 count
  | .discarded count => count
  | _ => 0

theorem ChannelInv.withProducer (h : ChannelInv ch) {producer : Producer F}
    (hok : ProducerOk { ch with producer }) : ChannelInv { ch with producer } :=
  ⟨h.write, h.fits, h.holds, h.inOrder, hok⟩

/-- A step that only moves the holder of the mutex on. -/
theorem ChannelInv.stay (h : ChannelInv ch) {old producer : Producer F} {moved : Prop}
    (howed : owed producer = owed old) (hok : ProducerOk { ch with producer }) :
    ChannelInv { ch with producer } ∧ distance ch + owed producer = distance ch + owed old + 0 ∧
      ((ch.readIndex = ch.readIndex ∧ pending ch.log <+: pending ch.log) ∨ moved) :=
  ⟨h.withProducer hok, by rw [howed, add_zero], .inl ⟨rfl, List.prefix_rfl⟩⟩

/-- The answer of `has_capacity`: frames that are let in fit behind those pending. -/
theorem ChannelInv.answer (h : ChannelInv ch) {frames : List F} (hframes : frames.length ≤ maximumFramesPerChannel)
    (blocking again : Bool) :
    let next :=
      if again then
        if (ch.writeIndex - ch.readIndex).toNat ≤ maximumFramesPerChannel - frames.length then .ready frames else .idle
      else if !blocking && ch.writeIndex - ch.readIndex ≠ 0 then .idle
      else .asking frames blocking true
    owed next = 0 ∧ ProducerOk { ch with producer := next } := by
  have hqueued := h.toNat_distance
  rw [distance] at hqueued
  dsimp only
  split_ifs with hagain hroom hbusy
  · refine ⟨rfl, ?_⟩
    show (pending ch.log).length + frames.length ≤ maximumFramesPerChannel
    omega
  · exact ⟨rfl, trivial⟩
  · exact ⟨rfl, trivial⟩
  · exact ⟨rfl, hframes⟩

/-- Copying writes no slot of a pending frame. -/
theorem ChannelInv.copy (h : ChannelInv ch) {frames : List F}
    (hroom : (pending ch.log).length + frames.length ≤ maximumFramesPerChannel) :
    ChannelInv { ch with
      samples := Ring.copyAround maximumFramesPerChannel ch.samples (frameSlot ch.writeIndex) frames
      producer := .copied frames ch.writeIndex } := by
  have hslot : frameSlot ch.writeIndex < maximumFramesPerChannel := by
    rw [frameSlot_eq]
    exact Nat.mod_lt _ (by decide)
  have hle : frames.length ≤ maximumFramesPerChannel := by omega
  have hwrote : Ring.Wrote maximumFramesPerChannel ch.samples _ frames _ := Ring.wrote_copyAround hslot hle
  have hbase : ch.writeIndex.toNat % maximumFramesPerChannel =
      frameSlot ch.writeIndex % maximumFramesPerChannel := by
    rw [frameSlot_eq, Nat.mod_mod]
  have hwritten := hwrote.congr hbase
  exact ⟨h.write, h.fits, h.holds.write (hwritten.congr h.end_mod) hroom, h.inOrder, hroom, rfl, hwritten.holds⟩

/-- What was copied becomes pending when the write index moves on. -/
theorem ChannelInv.publish (h : ChannelInv ch) {frames : List F}
    (hroom : (pending ch.log).length + frames.length ≤ maximumFramesPerChannel)
    (hcopied : Ring.Holds maximumFramesPerChannel ch.samples ch.writeIndex.toNat frames) :
    ChannelInv { ch with
      writeIndex := ch.writeIndex + BitVec.ofNat 64 frames.length
      producer := .submitted frames.length
      log := .submitted frames :: ch.log } := by
  refine ⟨?_, ?_, h.holds.append (hcopied.congr h.end_mod), entries_cons.2 ⟨trivial, h.inOrder⟩, trivial⟩
  · simp only [pending, List.length_append, BitVec.ofNat_add, h.write, add_assoc]
  · simpa only [pending, List.length_append] using hroom

/-- A reset leaves nothing pending. -/
theorem ChannelInv.discard (h : ChannelInv ch) (count : Index) :
    ChannelInv { ch with
      readIndex := ch.writeIndex, producer := .discarded count, log := .discarded :: ch.log } :=
  ⟨(add_zero _).symm, Nat.zero_le _, Ring.Holds.nil, entries_cons.2 ⟨trivial, h.inOrder⟩, trivial⟩

/-- A step of the holder of the mutex. It adds frames at the end, or discards them all. -/
theorem ChannelInv.produce (h : ChannelInv ch) (hstep : AudioEngine.produce ch = some (ch', q))
    (halone : ∀ w r, ch.producer = .resetLoaded w r → w ≠ r → ch.readIndex = r) :
    ChannelInv ch' ∧ distance ch' + owed ch'.producer = distance ch + owed ch.producer + q ∧
      ((ch'.readIndex = ch.readIndex ∧ pending ch.log <+: pending ch'.log) ∨
        (∃ w r, ch.producer = .resetLoaded w r ∧ w ≠ r ∧ ch'.readIndex = w)) := by
  have hok := h.producer
  unfold ProducerOk at hok
  unfold AudioEngine.produce at hstep
  cases hp : ch.producer with
  | idle =>
    rw [hp] at hstep
    cases hstep
  | asking frames blocking again =>
    rw [hp] at hstep hok
    obtain ⟨rfl, rfl⟩ := Prod.mk.inj (Option.some.inj hstep)
    exact h.stay rfl ⟨hok, rfl⟩
  | asked frames blocking again w =>
    rw [hp] at hstep hok
    obtain ⟨rfl, rfl⟩ := Prod.mk.inj (Option.some.inj hstep)
    obtain ⟨hframes, rfl⟩ := hok
    obtain ⟨howed, hnext⟩ := h.answer hframes blocking again
    exact h.stay howed hnext
  | ready frames =>
    rw [hp] at hstep hok
    obtain ⟨rfl, rfl⟩ := Prod.mk.inj (Option.some.inj hstep)
    exact h.stay rfl ⟨hok, rfl⟩
  | copying frames w =>
    rw [hp] at hstep hok
    obtain ⟨rfl, rfl⟩ := Prod.mk.inj (Option.some.inj hstep)
    obtain ⟨hroom, rfl⟩ := hok
    exact ⟨h.copy hroom, (add_zero _).symm, .inl ⟨rfl, List.prefix_rfl⟩⟩
  | copied frames w =>
    rw [hp] at hstep hok
    obtain ⟨rfl, rfl⟩ := Prod.mk.inj (Option.some.inj hstep)
    obtain ⟨hroom, rfl, hcopied⟩ := hok
    refine ⟨h.publish hroom hcopied, ?_, .inl ⟨rfl, List.prefix_append _ _⟩⟩
    simp only [distance, owed]
    abel
  | submitted count =>
    rw [hp] at hstep
    obtain ⟨rfl, rfl⟩ := Prod.mk.inj (Option.some.inj hstep)
    refine ⟨h.withProducer trivial, ?_, .inl ⟨rfl, List.prefix_rfl⟩⟩
    simp only [distance, owed]
    abel
  | resetting =>
    rw [hp] at hstep
    obtain ⟨rfl, rfl⟩ := Prod.mk.inj (Option.some.inj hstep)
    exact h.stay rfl rfl
  | resetLoadedWrite w =>
    rw [hp] at hstep hok
    obtain ⟨rfl, rfl⟩ := Prod.mk.inj (Option.some.inj hstep)
    exact h.stay rfl hok
  | resetLoaded w r =>
    rw [hp] at hok
    simp only [hp] at hstep
    split_ifs at hstep with hdiscarded
    · obtain ⟨rfl, rfl⟩ := Prod.mk.inj (Option.some.inj hstep)
      have hne : w ≠ r := fun heq => hdiscarded (sub_eq_zero.2 heq)
      have hread := halone w r hp hne
      obtain rfl : w = ch.writeIndex := hok
      refine ⟨h.discard _, ?_, .inr ⟨_, _, rfl, hne, rfl⟩⟩
      simp only [distance, owed, hread]
      abel
    · obtain ⟨rfl, rfl⟩ := Prod.mk.inj (Option.some.inj hstep)
      exact h.stay rfl trivial
  | discarded count =>
    rw [hp] at hstep
    obtain ⟨rfl, rfl⟩ := Prod.mk.inj (Option.some.inj hstep)
    refine ⟨h.withProducer trivial, ?_, .inl ⟨rfl, List.prefix_rfl⟩⟩
    simp only [distance, owed]
    abel

theorem ChannelInv.deliver (h : ChannelInv ch) {frames : List F} (hframes : frames <+: pending ch.log) :
    ChannelInv { ch with
      readIndex := ch.readIndex + BitVec.ofNat 64 frames.length, log := .delivered frames :: ch.log } := by
  have hle := hframes.length_le
  have hfits := h.fits
  have hok := h.producer
  refine ⟨?_, ?_, (h.holds.drop frames.length).congr (toNat_add_mod _ _), entries_cons.2 ⟨hframes, h.inOrder⟩, ?_⟩
  · simp only [pending, List.length_drop]
    rw [add_assoc, ← BitVec.ofNat_add, Nat.add_sub_cancel' hle]
    exact h.write
  · simp only [pending, List.length_drop]
    omega
  · unfold ProducerOk at hok ⊢
    dsimp only
    cases hp : ch.producer with
    | ready frames' =>
      simp only [hp, pending, List.length_drop] at hok ⊢
      omega
    | copying frames' w =>
      simp only [hp, pending, List.length_drop] at hok ⊢
      exact ⟨by omega, hok.2⟩
    | copied frames' w =>
      simp only [hp, pending, List.length_drop] at hok ⊢
      exact ⟨by omega, hok.2⟩
    | _ =>
      rw [hp] at hok
      exact hok

/-! ### The whole engine -/

/-- What the callback has loaded or mixed. -/
def ConsumerOk (channels : Nat → Channel F) : Consumer F → Prop
  | .loadedWrite c _ w => c < channelCount ∧
      ∃ k ≤ (pending (channels c).log).length, w = (channels c).readIndex + BitVec.ofNat 64 k
  | .loaded c _ w r => c < channelCount ∧ r = (channels c).readIndex ∧
      ∃ k ≤ (pending (channels c).log).length, w = r + BitVec.ofNat 64 k
  | .mixed c _ r frames => c < channelCount ∧ r = (channels c).readIndex ∧ frames <+: pending (channels c).log
  | _ => True

/-- What the callback has still to subtract from `queued_frames_`. -/
def carried : Consumer F → Index
  | .stored _ _ consumed => BitVec.ofNat 64 consumed
  | _ => 0

def account (ch : Channel F) : Index := distance ch + owed ch.producer

structure Inv (s : AudioEngine F) : Prop where
  channels : ∀ c, ChannelInv (s.channels c)
  outside : ∀ c, channelCount ≤ c → (s.channels c).producer = .idle
  consumer : ConsumerOk s.channels s.consumer
  telemetry : s.queuedFrames = ∑ c ∈ Finset.range channelCount, account (s.channels c) + carried s.consumer

variable {s s' : AudioEngine F}

theorem inv_create (silence : F) : Inv (create silence) where
  channels := fun _ => ⟨rfl, Nat.zero_le _, Ring.Holds.nil, entries_nil, trivial⟩
  outside := fun _ _ => rfl
  consumer := trivial
  telemetry := by simp [create, account, distance, owed, carried]

theorem sum_account_update (channels : Nat → Channel F) {c : Nat} (hc : c < channelCount) (ch : Channel F) :
    ∑ x ∈ Finset.range channelCount, account (Function.update channels c ch x) =
      ∑ x ∈ Finset.range channelCount, account (channels x) + (account ch - account (channels c)) := by
  have hmem : c ∈ Finset.range channelCount := Finset.mem_range.2 hc
  have hrest : ∑ x ∈ (Finset.range channelCount).erase c, account (Function.update channels c ch x) =
      ∑ x ∈ (Finset.range channelCount).erase c, account (channels x) :=
    Finset.sum_congr rfl fun x hx => by rw [Function.update_of_ne (Finset.ne_of_mem_erase hx)]
  rw [← Finset.add_sum_erase _ _ hmem, ← Finset.add_sum_erase _ (fun x => account (channels x)) hmem, hrest,
    Function.update_self]
  abel

/-- The callback goes on seeing what it saw when frames are added behind those pending. -/
theorem ConsumerOk.update {channels : Nat → Channel F} {consumer : Consumer F} (h : ConsumerOk channels consumer)
    {c : Nat} {ch : Channel F}
    (hch : (ch.readIndex = (channels c).readIndex ∧ pending (channels c).log <+: pending ch.log) ∨
      Away c ch.readIndex consumer) :
    ConsumerOk (Function.update channels c ch) consumer := by
  cases consumer with
  | loadedWrite c' n w =>
    obtain ⟨hc, k, hk, hw⟩ := h
    by_cases hcc : c' = c
    · subst hcc
      simp only [ConsumerOk, Function.update_self]
      rcases hch with ⟨hread, hpending⟩ | haway
      · exact ⟨hc, k, hk.trans hpending.length_le, by rw [hread, hw]⟩
      · exact ⟨hc, 0, Nat.zero_le _, by rw [haway rfl]; exact (add_zero _).symm⟩
    · simp only [ConsumerOk, Function.update_of_ne hcc]
      exact ⟨hc, k, hk, hw⟩
  | loaded c' n w r =>
    obtain ⟨hc, hr, k, hk, hw⟩ := h
    by_cases hcc : c' = c
    · subst hcc
      simp only [ConsumerOk, Function.update_self]
      obtain ⟨hread, hpending⟩ := hch.resolve_right fun haway => haway rfl
      exact ⟨hc, hr.trans hread.symm, k, hk.trans hpending.length_le, hw⟩
    · simp only [ConsumerOk, Function.update_of_ne hcc]
      exact ⟨hc, hr, k, hk, hw⟩
  | mixed c' n r frames =>
    obtain ⟨hc, hr, hframes⟩ := h
    by_cases hcc : c' = c
    · subst hcc
      simp only [ConsumerOk, Function.update_self]
      obtain ⟨hread, hpending⟩ := hch.resolve_right fun haway => haway rfl
      exact ⟨hc, hr.trans hread.symm, hframes.trans hpending⟩
    · simp only [ConsumerOk, Function.update_of_ne hcc]
      exact ⟨hc, hr, hframes⟩
  | _ => trivial

/-- A step changes one channel, and perhaps where the callback is. -/
theorem Inv.setChannel (h : Inv s) {c : Nat} (hc : c < channelCount) {ch : Channel F} (hch : ChannelInv ch)
    {consumer : Consumer F} {queued : Index} (hconsumer : ConsumerOk (Function.update s.channels c ch) consumer)
    (hqueued : queued + account (s.channels c) + carried s.consumer =
      s.queuedFrames + account ch + carried consumer) :
    Inv { s.setChannel c ch with consumer, queuedFrames := queued } := by
  refine ⟨fun x => ?_, fun x hx => ?_, hconsumer, ?_⟩
  · by_cases hx : x = c
    · subst hx
      simpa [AudioEngine.setChannel] using hch
    · simpa [AudioEngine.setChannel, hx] using h.channels x
  · have hx' : x ≠ c := fun heq => absurd hc (heq ▸ Nat.not_lt_of_ge hx)
    simpa [AudioEngine.setChannel, hx'] using h.outside x hx
  · have hqueued : queued =
        s.queuedFrames + account ch + carried consumer - account (s.channels c) - carried s.consumer := by
      rw [← hqueued]
      abel
    simp only [AudioEngine.setChannel]
    rw [sum_account_update _ hc, hqueued, h.telemetry]
    abel

theorem Inv.produce (h : Inv s) {c : Nat} {ch : Channel F} {q : Index}
    (hstep : AudioEngine.produce (s.channels c) = some (ch, q)) (halone : s.ResetsAlone (.producer c)) :
    Inv { s.setChannel c ch with queuedFrames := s.queuedFrames + q } := by
  have hc : c < channelCount := by
    by_contra hout
    rw [AudioEngine.produce, h.outside c (Nat.le_of_not_lt hout)] at hstep
    cases hstep
  obtain ⟨hch, haccount, hmoved⟩ := (h.channels c).produce hstep fun w r hp hne => by
    rw [ResetsAlone, hp] at halone
    exact (halone hne).1
  refine h.setChannel hc hch (h.consumer.update ?_) ?_
  · rcases hmoved with hmoved | ⟨w, r, hp, hne, hread⟩
    · exact .inl hmoved
    · rw [ResetsAlone, hp] at halone
      exact .inr (hread ▸ (halone hne).2)
  · rw [account, account, haccount]
    abel

theorem Inv.begin (h : Inv s) {c : Nat} (hc : c < channelCount) {producer : Producer F}
    (hstep : s.begin c producer = some s') (howed : owed producer = 0)
    (hok : ∀ ch : Channel F, ProducerOk { ch with producer }) : Inv s' := by
  unfold AudioEngine.begin at hstep
  split at hstep
  · rename_i hidle
    obtain rfl := Option.some.inj hstep
    have haccount : account { s.channels c with producer } = account (s.channels c) := by
      rw [account, account, howed, hidle]
      rfl
    refine h.setChannel hc ((h.channels c).withProducer (hok _)) (h.consumer.update (.inl ⟨rfl, List.prefix_rfl⟩)) ?_
    rw [haccount]
  · cases hstep

/-- What the callback mixes are the next frames pending. -/
theorem Inv.mixed_prefix (h : Inv s) {c n k : Nat} (hk : k ≤ (pending (s.channels c).log).length) :
    (List.range (min n k)).map (fun frame =>
      (s.channels c).samples (frameSlot ((s.channels c).readIndex + BitVec.ofNat 64 frame))) <+:
        pending (s.channels c).log := by
  simp only [frameSlot_add]
  rw [(h.channels c).holds.read (by omega)]
  exact List.take_prefix _ _

theorem Inv.advance (h : Inv s) (hstep : s.advance = some s') : Inv s' := by
  have hconsumer := h.consumer
  have htelemetry := h.telemetry
  unfold AudioEngine.advance at hstep
  cases hp : s.consumer with
  | idle =>
    rw [hp] at hstep
    cases hstep
  | atChannel c n =>
    simp only [hp] at hstep
    rw [hp] at htelemetry
    split_ifs at hstep with hc
    · obtain rfl := Option.some.inj hstep
      exact ⟨h.channels, h.outside, ⟨hc, _, le_refl _, (h.channels c).write⟩, htelemetry⟩
    · obtain rfl := Option.some.inj hstep
      exact ⟨h.channels, h.outside, trivial, htelemetry⟩
  | loadedWrite c n w =>
    simp only [hp] at hstep
    rw [hp] at htelemetry hconsumer
    obtain ⟨hc, k, hk, hw⟩ := hconsumer
    split_ifs at hstep with hempty
    · obtain rfl := Option.some.inj hstep
      exact ⟨h.channels, h.outside, trivial, htelemetry⟩
    · obtain rfl := Option.some.inj hstep
      exact ⟨h.channels, h.outside, ⟨hc, rfl, k, hk, hw⟩, htelemetry⟩
  | loaded c n w r =>
    simp only [hp] at hstep
    rw [hp] at htelemetry hconsumer
    obtain ⟨hc, rfl, k, hk, rfl⟩ := hconsumer
    obtain rfl := Option.some.inj hstep
    have hfits := (h.channels c).fits
    have havailable : (((s.channels c).readIndex + BitVec.ofNat 64 k - (s.channels c).readIndex).setWidth 32).toNat
        = k := by
      rw [add_sub_cancel_left, BitVec.toNat_setWidth, toNat_ofNat_of_le (hk.trans hfits)]
      rw [maximumFramesPerChannel] at hfits
      omega
    refine ⟨h.channels, h.outside, ⟨hc, rfl, ?_⟩, htelemetry⟩
    rw [havailable]
    exact h.mixed_prefix hk
  | mixed c n r frames =>
    simp only [hp] at hstep
    rw [hp] at hconsumer
    obtain ⟨hc, rfl, hframes⟩ := hconsumer
    obtain rfl := Option.some.inj hstep
    refine h.setChannel hc ((h.channels c).deliver hframes) trivial ?_
    rw [hp]
    simp only [AudioEngine.setChannel, account, distance, carried]
    abel
  | stored c n consumed =>
    simp only [hp] at hstep
    rw [hp] at htelemetry
    obtain rfl := Option.some.inj hstep
    refine ⟨h.channels, h.outside, trivial, ?_⟩
    simp only [carried] at htelemetry ⊢
    rw [htelemetry]
    abel

theorem Inv.step (h : Inv s) {a : AudioAction F} (halone : s.ResetsAlone a) (hstep : s.step a = some s') :
    Inv s' := by
  cases a with
  | submit c frames blocking =>
    simp only [AudioEngine.step] at hstep
    split_ifs at hstep with hinvalid
    · exact Option.some.inj hstep ▸ h
    · simp only [not_or, not_le, not_lt] at hinvalid
      exact h.begin hinvalid.2.1 hstep rfl fun _ => hinvalid.2.2
  | resetChannel c =>
    simp only [AudioEngine.step] at hstep
    split_ifs at hstep with hinvalid
    · exact Option.some.inj hstep ▸ h
    · exact h.begin (not_le.1 hinvalid) hstep rfl fun _ => trivial
  | consume n =>
    have htelemetry := h.telemetry
    simp only [AudioEngine.step] at hstep
    split at hstep
    · rename_i hidle
      rw [hidle] at htelemetry
      split_ifs at hstep
      · exact Option.some.inj hstep ▸ h
      · exact Option.some.inj hstep ▸ ⟨h.channels, h.outside, trivial, htelemetry⟩
    · cases hstep
  | producer c =>
    obtain ⟨⟨ch, q⟩, hproduce, rfl⟩ := Option.map_eq_some_iff.1 hstep
    exact h.produce hproduce halone
  | consumer => exact h.advance hstep

theorem toNat_sum {f : Nat → Index} (hf : ∀ c, (f c).toNat ≤ maximumFramesPerChannel) {n : Nat} (hn : n ≤ 9) :
    (∑ c ∈ Finset.range n, f c).toNat = ∑ c ∈ Finset.range n, (f c).toNat ∧
      ∑ c ∈ Finset.range n, (f c).toNat ≤ n * maximumFramesPerChannel := by
  induction n with
  | zero => exact ⟨rfl, Nat.zero_le _⟩
  | succ n ih =>
    obtain ⟨heq, hle⟩ := ih (Nat.le_of_succ_le hn)
    have hfn := hf n
    rw [Finset.sum_range_succ, Finset.sum_range_succ, BitVec.toNat_add, heq]
    unfold maximumFramesPerChannel at *
    omega

theorem Inv.sound (h : Inv s) : s.Sound where
  inOrder := fun c => entries_iff.1 (h.channels c).inOrder
  bounded := fun c => (h.channels c).toNat_distance ▸ (h.channels c).fits
  telemetry := by
    rintro ⟨hconsumer, hproducers⟩
    have haccount : ∑ c ∈ Finset.range channelCount, account (s.channels c) =
        ∑ c ∈ Finset.range channelCount, distance (s.channels c) := by
      refine Finset.sum_congr rfl fun c hc => ?_
      rw [account, hproducers c (Finset.mem_range.1 hc)]
      exact add_zero _
    rw [h.telemetry, hconsumer, haccount]
    show (_ + (0 : Index)).toNat = _
    rw [add_zero]
    exact (toNat_sum (fun c => (h.channels c).toNat_distance ▸ (h.channels c).fits) (le_refl _)).1

end AudioEngine

/-- Every run in which no reset's store is disturbed by the callback ends in a sound state. -/
theorem audioEngine_sound {F : Type} (silence : F) (actions : List (AudioAction F)) (s : AudioEngine F)
    (halone : Guarded AudioEngine.step AudioEngine.ResetsAlone (AudioEngine.create silence) actions)
    (hrun : run AudioEngine.step (AudioEngine.create silence) actions = some s) : s.Sound :=
  (run_guarded (fun _ _ _ h halone hstep => h.step halone hstep) (AudioEngine.inv_create silence) halone
    hrun).sound

namespace AudioEngine

/-- A submit from the taking of the mutex to its release, with room for the frames. -/
def wholeSubmit (channel : Nat) (frames : List Nat) : List (AudioAction Nat) :=
  .submit channel frames true :: List.replicate 8 (.producer channel)

def wholeReset (channel : Nat) : List (AudioAction Nat) :=
  .resetChannel channel :: List.replicate 4 (.producer channel)

end AudioEngine

open AudioEngine in
/-- The callback is busy with the first channel while the second one is reset. -/
theorem audioEngine_sound_apart :
    ∃ s, run AudioEngine.step (AudioEngine.create 0) (wholeSubmit 0 [10, 11] ++ wholeSubmit 1 [20] ++
      [.consume 1, .consumer, .consumer, .consumer] ++ wholeReset 1 ++ List.replicate 19 .consumer) = some s ∧
      s.Sound := by
  obtain ⟨s, hs⟩ := Option.isSome_iff_exists.1 (show (run AudioEngine.step (AudioEngine.create 0)
    (wholeSubmit 0 [10, 11] ++ wholeSubmit 1 [20] ++ [.consume 1, .consumer, .consumer, .consumer] ++
      wholeReset 1 ++ List.replicate 19 .consumer)).isSome = true by decide)
  exact ⟨s, hs, audioEngine_sound 0 _ s (by decide) hs⟩

open AudioEngine in
/-- The reset comes between the callback's mixing and its store of the read index, which takes the read
index back: the next call delivers a frame that was discarded. -/
theorem audioEngine_replays :
    ∃ s, run AudioEngine.step (AudioEngine.create 0) (wholeSubmit 0 [10, 11] ++
      [.consume 1, .consumer, .consumer, .consumer] ++ wholeReset 0 ++ List.replicate 19 .consumer ++
      [.consume 1, .consumer, .consumer, .consumer, .consumer]) = some s ∧ ¬ s.Sound := by
  have hlog : (run AudioEngine.step (AudioEngine.create 0) (wholeSubmit 0 [10, 11] ++
      [.consume 1, .consumer, .consumer, .consumer] ++ wholeReset 0 ++ List.replicate 19 .consumer ++
      [.consume 1, .consumer, .consumer, .consumer, .consumer])).map (fun s => (s.channels 0).log) =
        some [.delivered [11], .delivered [10], .discarded, .submitted [10, 11]] := by
    decide
  obtain ⟨s, hs, hlog⟩ := Option.map_eq_some_iff.1 hlog
  refine ⟨s, hs, fun hsound => ?_⟩
  have horder := hsound.inOrder 0 [] _ _ hlog
  exact absurd horder (by simp [InOrder, pending])

end Psprism
