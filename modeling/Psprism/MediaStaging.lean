import Psprism.Lib.Interleaving
import Psprism.MediaFraming

/-!
# Staging

What an extraction does to the queue and to its staging buffer, and what holds of the buffers between the
calls: the video buffer begins at a delimiter, and a complete unit is held back only while its queue is full.
-/

namespace Psprism
open Framing Interleaving

/-- Video, or one of the audio channels. -/
inductive Track
  | video
  | audio (channel : Byte)
deriving DecidableEq

def Track.carries : Track → StreamKind × MediaAccessUnit → Bool
  | .video, item => item.1 == .video
  | .audio channel, item => item.1 == .audio && item.2.channel == channel

def Track.units (t : Track) (queue : List (StreamKind × MediaAccessUnit)) : List MediaAccessUnit :=
  (queue.filter t.carries).map (·.2)

def Track.payloads (t : Track) (queue : List (StreamKind × MediaAccessUnit)) : List (List Byte) :=
  (t.units queue).map (·.bytes)

/-- Units of a track whose dates follow one another. -/
def datedUnits (unit : Int → List Byte → MediaAccessUnit) (period : Int) :
    Int → List (List Byte) → List MediaAccessUnit
  | _, [] => []
  | pts, bytes :: rest => unit pts bytes :: datedUnits unit period (datePlus period pts) rest

def dateAfter (period : Int) : Int → Nat → Int
  | pts, 0 => pts
  | pts, n + 1 => dateAfter period (datePlus period pts) n

namespace Track
variable {t : Track} {queue queue' : List (StreamKind × MediaAccessUnit)}

@[simp] theorem units_append : t.units (queue ++ queue') = t.units queue ++ t.units queue' := by
  simp [Track.units]

@[simp] theorem payloads_append : t.payloads (queue ++ queue') = t.payloads queue ++ t.payloads queue' := by
  simp [Track.payloads]

theorem units_of_carries {kind : StreamKind} {us : List MediaAccessUnit}
    (h : ∀ u ∈ us, t.carries (kind, u) = true) : t.units (us.map (kind, ·)) = us := by
  have hfilter : (us.map (kind, ·)).filter t.carries = us.map (kind, ·) := by
    rw [List.filter_eq_self]
    intro item hitem
    obtain ⟨u, hu, rfl⟩ := List.mem_map.1 hitem
    exact h u hu
  rw [Track.units, hfilter, List.map_map]
  exact List.map_id _

theorem units_of_not_carries {kind : StreamKind} {us : List MediaAccessUnit}
    (h : ∀ u ∈ us, ¬ t.carries (kind, u) = true) : t.units (us.map (kind, ·)) = [] := by
  have hfilter : (us.map (kind, ·)).filter t.carries = [] := by
    rw [List.filter_eq_nil_iff]
    intro item hitem
    obtain ⟨u, hu, rfl⟩ := List.mem_map.1 hitem
    exact h u hu
  rw [Track.units, hfilter]
  rfl

end Track

section
variable {unit : Int → List Byte → MediaAccessUnit} {period pts : Int} {us : List (List Byte)}

theorem length_datedUnits : (datedUnits unit period pts us).length = us.length := by
  induction us generalizing pts with
  | nil => rfl
  | cons u us ih => exact congrArg (· + 1) ih

theorem mem_datedUnits {u : MediaAccessUnit} (h : u ∈ datedUnits unit period pts us) :
    ∃ pts' bytes, u = unit pts' bytes := by
  induction us generalizing pts with
  | nil => cases h
  | cons bytes us ih =>
    rcases List.mem_cons.1 h with rfl | h
    · exact ⟨pts, bytes, rfl⟩
    · exact ih h

theorem map_bytes_datedUnits (payload : List Byte → List Byte)
    (h : ∀ pts bytes, (unit pts bytes).bytes = payload bytes) :
    (datedUnits unit period pts us).map (·.bytes) = us.map payload := by
  induction us generalizing pts with
  | nil => rfl
  | cons bytes us ih => rw [datedUnits, List.map_cons, List.map_cons, h, ih]

end

namespace MediaEngine
variable {e e' : MediaEngine} {n : Nat} {xs : List Byte} {channel : Byte}

theorem cutVideoUnits_eq : cutVideoUnits n e xs =
    ((videoUnits.take n xs).1.foldl pushVideoUnit e, (videoUnits.take n xs).2) := by
  induction n generalizing e xs with
  | zero => rfl
  | succ n ih =>
    rw [cutVideoUnits, Framing.take]
    have hcut : nextVideoUnit xs = videoUnits.next xs := rfl
    rw [hcut]
    cases videoUnits.next xs with
    | none => rfl
    | some cut => exact ih

theorem cutAudioFrames_eq : cutAudioFrames channel n e xs =
    ((audioFrames.take n xs).1.foldl (·.pushAudioUnit channel) e, awaitingFrame (audioFrames.take n xs).2) := by
  induction n generalizing e xs with
  | zero => rfl
  | succ n ih =>
    rw [cutAudioFrames, Framing.take]
    have hcut : nextAudioFrame xs = audioFrames.next xs := rfl
    rw [hcut]
    cases audioFrames.next xs with
    | none => rfl
    | some cut => exact ih

theorem foldl_pushVideoUnit (us : List (List Byte)) (e : MediaEngine) :
    ∃ last, us.foldl pushVideoUnit e = { e with
      lastVideoPts := last
      units := e.units ++ (datedUnits stagedVideoUnit 3003 e.videoNextPts us).map (.video, ·)
      videoNextPts := dateAfter 3003 e.videoNextPts us.length } := by
  induction us generalizing e with
  | nil => exact ⟨e.lastVideoPts, by rw [List.foldl_nil]; simp [datedUnits, dateAfter]⟩
  | cons u us ih =>
    obtain ⟨last, h⟩ := ih (e.pushVideoUnit u)
    refine ⟨last, ?_⟩
    rw [List.foldl_cons, h]
    simp [pushVideoUnit, datedUnits, dateAfter]

theorem foldl_pushAudioUnit (channel : Byte) (us : List (List Byte)) (e : MediaEngine) :
    ∃ last, us.foldl (·.pushAudioUnit channel) e = { e with
      lastAudioPts := last
      units := e.units ++
        (datedUnits (audioUnit channel) 4180 (e.audioStaging channel).nextPts us).map (.audio, ·)
      audioStaging := Function.update e.audioStaging channel
        { e.audioStaging channel with nextPts := dateAfter 4180 (e.audioStaging channel).nextPts us.length } } := by
  induction us generalizing e with
  | nil => exact ⟨e.lastAudioPts, by rw [List.foldl_nil]; simp [datedUnits, dateAfter]⟩
  | cons u us ih =>
    obtain ⟨last, h⟩ := ih (e.pushAudioUnit channel u)
    refine ⟨last, ?_⟩
    rw [List.foldl_cons, h]
    simp [pushAudioUnit, setStaging, datedUnits, dateAfter]

/-- The units that are cut when the video queue has room for them. -/
theorem extractVideoAccessUnits_eq (h : isVideoAud e.videoBytes = true) :
    ∃ last, e.extractVideoAccessUnits = { e with
      lastVideoPts := last
      units := e.units ++ (datedUnits stagedVideoUnit 3003 e.videoNextPts
        (videoUnits.take (e.room .video) e.videoBytes).1).map (.video, ·)
      videoNextPts := dateAfter 3003 e.videoNextPts (videoUnits.take (e.room .video) e.videoBytes).1.length
      videoBytes := (videoUnits.take (e.room .video) e.videoBytes).2 } := by
  obtain ⟨last, hpush⟩ := foldl_pushVideoUnit (videoUnits.take (e.room .video) e.videoBytes).1 e
  refine ⟨last, ?_⟩
  rw [extractVideoAccessUnits, findVideoAud_of_isVideoAud h]
  dsimp only
  rw [cutVideoUnits_eq, List.drop_zero, hpush]

theorem extractVideoAccessUnits_nil (h : e.videoBytes = []) : e.extractVideoAccessUnits = e := by
  rw [extractVideoAccessUnits, h]
  rfl

theorem extractAudioFrames_eq (e : MediaEngine) (channel : Byte) :
    ∃ last, e.extractAudioFrames channel = { e with
      lastAudioPts := last
      units := e.units ++ (datedUnits (audioUnit channel) 4180 (e.audioStaging channel).nextPts
        (audioFrames.take (e.room .audio) (e.audioStaging channel).bytes).1).map (.audio, ·)
      audioStaging := Function.update e.audioStaging channel
        { bytes := awaitingFrame (audioFrames.take (e.room .audio) (e.audioStaging channel).bytes).2
          nextPts := dateAfter 4180 (e.audioStaging channel).nextPts
            (audioFrames.take (e.room .audio) (e.audioStaging channel).bytes).1.length } } := by
  obtain ⟨last, hpush⟩ :=
    foldl_pushAudioUnit channel (audioFrames.take (e.room .audio) (e.audioStaging channel).bytes).1 e
  refine ⟨last, ?_⟩
  rw [extractAudioFrames, cutAudioFrames_eq, hpush]
  simp [setStaging]

/-- The units that one extraction cuts. -/
def cutVideo (e : MediaEngine) : List (List Byte) := (videoUnits.take (e.room .video) e.videoBytes).1

def cutAudio (e : MediaEngine) (channel : Byte) : List (List Byte) :=
  (audioFrames.take (e.room .audio) (e.audioStaging channel).bytes).1

section
variable (e : MediaEngine) (channel : Byte)

theorem extractAudioFrames_units : (e.extractAudioFrames channel).units = e.units ++
    (datedUnits (audioUnit channel) 4180 (e.audioStaging channel).nextPts (e.cutAudio channel)).map (.audio, ·) := by
  obtain ⟨last, h⟩ := extractAudioFrames_eq e channel
  rw [h, cutAudio]

theorem extractAudioFrames_audioStaging : (e.extractAudioFrames channel).audioStaging =
    Function.update e.audioStaging channel
      { bytes := awaitingFrame (audioFrames.take (e.room .audio) (e.audioStaging channel).bytes).2
        nextPts := dateAfter 4180 (e.audioStaging channel).nextPts (e.cutAudio channel).length } := by
  obtain ⟨last, h⟩ := extractAudioFrames_eq e channel
  rw [h, cutAudio]

@[simp] theorem extractAudioFrames_capacity : (e.extractAudioFrames channel).capacity = e.capacity := by
  obtain ⟨last, h⟩ := extractAudioFrames_eq e channel
  rw [h]

@[simp] theorem extractAudioFrames_encoded : (e.extractAudioFrames channel).encoded = e.encoded := by
  obtain ⟨last, h⟩ := extractAudioFrames_eq e channel
  rw [h]

@[simp] theorem extractAudioFrames_encodedOffset : (e.extractAudioFrames channel).encodedOffset = e.encodedOffset := by
  obtain ⟨last, h⟩ := extractAudioFrames_eq e channel
  rw [h]

@[simp] theorem extractAudioFrames_videoBytes : (e.extractAudioFrames channel).videoBytes = e.videoBytes := by
  obtain ⟨last, h⟩ := extractAudioFrames_eq e channel
  rw [h]

@[simp] theorem extractAudioFrames_stagedChannels : (e.extractAudioFrames channel).stagedChannels = e.stagedChannels := by
  obtain ⟨last, h⟩ := extractAudioFrames_eq e channel
  rw [h]

@[simp] theorem extractAudioFrames_streams : (e.extractAudioFrames channel).streams = e.streams := by
  obtain ⟨last, h⟩ := extractAudioFrames_eq e channel
  rw [h]

end

section
variable (haud : isVideoAud e.videoBytes = true)
include haud

theorem extractVideoAccessUnits_units : e.extractVideoAccessUnits.units =
    e.units ++ (datedUnits stagedVideoUnit 3003 e.videoNextPts e.cutVideo).map (.video, ·) := by
  obtain ⟨last, h⟩ := extractVideoAccessUnits_eq haud
  rw [h, cutVideo]

theorem extractVideoAccessUnits_videoBytes : e.extractVideoAccessUnits.videoBytes =
    (videoUnits.take (e.room .video) e.videoBytes).2 := by
  obtain ⟨last, h⟩ := extractVideoAccessUnits_eq haud
  rw [h]

end

section
variable (e : MediaEngine)

theorem extractVideoAccessUnits_rest : ∃ units videoBytes next last,
    e.extractVideoAccessUnits =
      { e with units, videoBytes, videoNextPts := next, lastVideoPts := last } := by
  unfold extractVideoAccessUnits
  split
  · split
    · exact ⟨_, _, _, _, rfl⟩
    · exact ⟨_, _, _, _, rfl⟩
  · next first _ =>
    rw [cutVideoUnits_eq]
    obtain ⟨last, h⟩ := foldl_pushVideoUnit (videoUnits.take (e.room .video) (e.videoBytes.drop first)).1 e
    rw [h]
    exact ⟨_, _, _, _, rfl⟩

@[simp] theorem extractVideoAccessUnits_capacity : e.extractVideoAccessUnits.capacity = e.capacity := by
  obtain ⟨_, _, _, _, h⟩ := extractVideoAccessUnits_rest e
  rw [h]

@[simp] theorem extractVideoAccessUnits_encoded : e.extractVideoAccessUnits.encoded = e.encoded := by
  obtain ⟨_, _, _, _, h⟩ := extractVideoAccessUnits_rest e
  rw [h]

@[simp] theorem extractVideoAccessUnits_encodedOffset : e.extractVideoAccessUnits.encodedOffset = e.encodedOffset := by
  obtain ⟨_, _, _, _, h⟩ := extractVideoAccessUnits_rest e
  rw [h]

@[simp] theorem extractVideoAccessUnits_audioStaging : e.extractVideoAccessUnits.audioStaging = e.audioStaging := by
  obtain ⟨_, _, _, _, h⟩ := extractVideoAccessUnits_rest e
  rw [h]

@[simp] theorem extractVideoAccessUnits_stagedChannels : e.extractVideoAccessUnits.stagedChannels = e.stagedChannels := by
  obtain ⟨_, _, _, _, h⟩ := extractVideoAccessUnits_rest e
  rw [h]

@[simp] theorem extractVideoAccessUnits_streams : e.extractVideoAccessUnits.streams = e.streams := by
  obtain ⟨_, _, _, _, h⟩ := extractVideoAccessUnits_rest e
  rw [h]

end

/-! ### Between the calls -/

theorem unitCount_map (kind kind' : StreamKind) (us : List MediaAccessUnit) :
    (us.map (kind', ·)).countP (fun item => item.1 == kind) = if kind' = kind then us.length else 0 := by
  rw [List.countP_map]
  split
  · next h =>
    subst h
    exact List.countP_eq_length.2 fun _ _ => beq_self_eq_true kind'
  · next h =>
    rw [List.countP_eq_zero]
    intro u _ hu
    exact h (eq_of_beq hu)

/-- The packets that are not cut yet. -/
def active (e : MediaEngine) : List Byte := e.encoded.drop e.encodedOffset

def videoRegistered (e : MediaEngine) : Bool := e.streams.any (·.2.kind == .video)

/-- What is queued is video or belongs to an audio channel that is registered. -/
def Owned (e : MediaEngine) (item : StreamKind × MediaAccessUnit) : Prop :=
  item.1 = .video ∨ item.1 = .audio ∧ e.audioChannelRegistered item.2.channel = true ∧
    normalizedAudioChannel item.2.channel = item.2.channel

structure Sound (e : MediaEngine) : Prop where
  offset : e.encodedOffset ≤ e.encoded.length
  ready : e.videoBytes = [] ∨ isVideoAud e.videoBytes = true
  nodup : e.stagedChannels.Nodup
  registered : ∀ c ∈ e.stagedChannels, e.audioChannelRegistered c = true
  normalized : ∀ c ∈ e.stagedChannels, normalizedAudioChannel c = c
  staged : ∀ c, c ∉ e.stagedChannels → (e.audioStaging c).bytes = []
  owned : ∀ item ∈ e.units, e.Owned item

/-- A complete video unit is held back only by a full queue. -/
def SettledVideo (e : MediaEngine) : Prop :=
  e.unitCount .video < maximumAccessUnitsPerKind → nextVideoUnit e.videoBytes = none

/-- A complete frame of the channel is held back only by a full queue, and nothing precedes the next one. -/
def SettledAudio (e : MediaEngine) (channel : Byte) : Prop :=
  (e.unitCount .audio < maximumAccessUnitsPerKind → nextAudioFrame (e.audioStaging channel).bytes = none) ∧
    awaitingFrame (e.audioStaging channel).bytes = (e.audioStaging channel).bytes

structure Settled (e : MediaEngine) : Prop where
  video : e.SettledVideo
  audio : ∀ channel, e.SettledAudio channel

theorem isVideoAud_take (n : Nat) (h : isVideoAud xs = true) : isVideoAud (videoUnits.take n xs).2 = true := by
  induction n generalizing xs with
  | zero => exact h
  | succ n ih =>
    cases hn : videoUnits.next xs with
    | none =>
      rw [take_succ_of_none hn]
      exact h
    | some cut =>
      obtain ⟨u, rest⟩ := cut
      rw [take_succ_of_some hn]
      exact ih (isVideoAud_rest hn)

theorem Sound.extractVideo (h : e.Sound) : e.extractVideoAccessUnits.Sound := by
  rcases h.ready with hnil | haud
  · rwa [extractVideoAccessUnits_nil hnil]
  refine ⟨?_, Or.inr ?_, ?_, ?_, ?_, ?_, ?_⟩
  · simpa using h.offset
  · rw [extractVideoAccessUnits_videoBytes haud]
    exact isVideoAud_take _ haud
  · simpa using h.nodup
  · simpa [audioChannelRegistered] using h.registered
  · simpa using h.normalized
  · simpa using h.staged
  · intro item hitem
    rw [Owned, audioChannelRegistered, extractVideoAccessUnits_streams]
    rw [extractVideoAccessUnits_units haud] at hitem
    rcases List.mem_append.1 hitem with hitem | hitem
    · exact h.owned item hitem
    · obtain ⟨u, -, rfl⟩ := List.mem_map.1 hitem
      exact Or.inl rfl

theorem extractVideo_settled (h : e.Sound) : e.extractVideoAccessUnits.SettledVideo := by
  rcases h.ready with hnil | haud
  · rw [extractVideoAccessUnits_nil hnil, SettledVideo, hnil]
    exact fun _ => rfl
  rw [SettledVideo, unitCount, extractVideoAccessUnits_units haud, extractVideoAccessUnits_videoBytes haud,
    List.countP_append, unitCount_map, if_pos rfl, length_datedUnits]
  intro hcount
  refine next_take (F := videoUnits) _ ?_
  simp only [room, unitCount, cutVideo] at hcount ⊢
  omega

theorem Sound.extractAudio (h : e.Sound) (hc : channel ∈ e.stagedChannels) :
    (e.extractAudioFrames channel).Sound := by
  refine ⟨?_, ?_, ?_, ?_, ?_, ?_, ?_⟩
  · simpa using h.offset
  · simpa using h.ready
  · simpa using h.nodup
  · simpa [audioChannelRegistered] using h.registered
  · simpa using h.normalized
  · intro c hout
    rw [extractAudioFrames_stagedChannels] at hout
    have hne : c ≠ channel := fun heq => hout (heq ▸ hc)
    rw [extractAudioFrames_audioStaging, Function.update_of_ne hne]
    exact h.staged c hout
  · intro item hitem
    rw [Owned, audioChannelRegistered, extractAudioFrames_streams]
    rw [extractAudioFrames_units] at hitem
    rcases List.mem_append.1 hitem with hitem | hitem
    · exact h.owned item hitem
    · obtain ⟨u, hu, rfl⟩ := List.mem_map.1 hitem
      obtain ⟨pts, frame, rfl⟩ := mem_datedUnits hu
      have hchannel : (audioUnit channel pts frame).channel = channel := h.normalized channel hc
      rw [hchannel]
      exact Or.inr ⟨rfl, h.registered channel hc, h.normalized channel hc⟩

theorem extractAudio_settled (e : MediaEngine) (channel : Byte) :
    (e.extractAudioFrames channel).SettledAudio channel := by
  rw [SettledAudio, unitCount, extractAudioFrames_units, extractAudioFrames_audioStaging, Function.update_self,
    List.countP_append, unitCount_map, if_pos rfl, length_datedUnits]
  refine ⟨fun hcount => ?_, awaitingFrame_idem _⟩
  rw [nextAudioFrame_awaiting_eq]
  refine next_take (F := audioFrames) _ ?_
  simp only [room, unitCount, cutAudio] at hcount ⊢
  omega

/-- The queues only grow. -/
theorem unitCount_extractAudio (e : MediaEngine) (channel : Byte) (kind : StreamKind) :
    e.unitCount kind ≤ (e.extractAudioFrames channel).unitCount kind := by
  rw [unitCount, unitCount, extractAudioFrames_units, List.countP_append]
  exact Nat.le_add_right ..

theorem SettledAudio.extractAudio {c : Byte} (h : e.SettledAudio c) (hne : c ≠ channel) :
    (e.extractAudioFrames channel).SettledAudio c := by
  rw [SettledAudio, extractAudioFrames_audioStaging, Function.update_of_ne hne]
  exact ⟨fun hcount => h.1 (Nat.lt_of_le_of_lt (unitCount_extractAudio e channel .audio) hcount), h.2⟩

theorem SettledVideo.extractAudio (h : e.SettledVideo) : (e.extractAudioFrames channel).SettledVideo := by
  rw [SettledVideo, extractAudioFrames_videoBytes]
  exact fun hcount => h (Nat.lt_of_le_of_lt (unitCount_extractAudio e channel .video) hcount)

theorem SettledAudio.extractVideo (h : e.SettledAudio channel) (hs : e.Sound) :
    e.extractVideoAccessUnits.SettledAudio channel := by
  rcases hs.ready with hnil | haud
  · rwa [extractVideoAccessUnits_nil hnil]
  rw [SettledAudio, unitCount, extractVideoAccessUnits_units haud, extractVideoAccessUnits_audioStaging,
    List.countP_append]
  exact ⟨fun hcount => h.1 (Nat.lt_of_le_of_lt (Nat.le_add_right ..) hcount), h.2⟩

end MediaEngine

/-! ### Packets -/

namespace PesPacket

def isVideo (p : PesPacket) : Bool := isVideoCode p.code && !p.bytes.isEmpty
def isAudio (p : PesPacket) : Bool := isAudioCode p.code && !p.bytes.isEmpty

/-- What the packet brings, when its header can be parsed. -/
def payload (p : PesPacket) : Option (ParsedPes × List Byte) :=
  (parsePesHeader p.bytes (isAudioCode p.code)).bind fun header =>
    if p.bytes.length ≤ header.payloadOffset then none
    else some (header, p.bytes.drop header.payloadOffset)

theorem not_isAudio_of_isVideo {p : PesPacket} (h : p.isVideo = true) : isAudioCode p.code = false := by
  rw [isVideo, Bool.and_eq_true, isVideoCode, Bool.and_eq_true, decide_eq_true_eq] at h
  rw [isAudioCode, beq_eq_false_iff_ne]
  rintro hcode
  rw [hcode] at h
  exact absurd h.1.1 (by decide)

end PesPacket

namespace MediaEngine
variable {e e' : MediaEngine} {p : PesPacket}

/-- What a packet does that does not have to wait. -/
inductive Queues (e : MediaEngine) (p : PesPacket) : MediaEngine → Prop
  | nothing (h : p.payload = none ∨ ¬ p.isVideo ∧ ¬ p.isAudio) : Queues e p e
  | video (hp : p.isVideo) {header payload} (h : p.payload = some (header, payload)) :
      Queues e p (e.queueVideo header p.bytes.length payload)
  | audio (hp : p.isAudio) {header payload} (h : p.payload = some (header, payload)) :
      Queues e p (e.queueAudio (normalizedAudioChannel header.channel) header.pts payload)

theorem queuePacket_of_isVideo (h : p.isVideo = true) : e.queuePacket p =
    if maximumAccessUnitsPerKind ≤ e.unitCount .video then none
    else
      match p.payload with
      | none => some e
      | some (header, payload) => some (e.queueVideo header p.bytes.length payload) := by
  have haudio := p.not_isAudio_of_isVideo h
  rw [PesPacket.isVideo, Bool.and_eq_true, Bool.not_eq_true'] at h
  simp only [queuePacket, PesPacket.payload, h.1, h.2, haudio, Bool.not_true, Bool.false_and, Bool.or_false,
    Bool.false_eq_true, if_false, Bool.true_and, decide_eq_true_eq]
  split
  · rfl
  cases parsePesHeader p.bytes false with
  | none => rfl
  | some header =>
    dsimp only [Option.bind_some]
    split <;> rfl

theorem queuePacket_of_isAudio (h : p.isAudio = true) : e.queuePacket p =
    match p.payload with
    | none => some e
    | some (header, payload) =>
      some (e.queueAudio (normalizedAudioChannel header.channel) header.pts payload) := by
  have hvideo : isVideoCode p.code = false := by
    by_contra hvideo
    rw [Bool.not_eq_false] at hvideo
    rw [PesPacket.isAudio, Bool.and_eq_true] at h
    have hp : p.isVideo = true := by rw [PesPacket.isVideo, hvideo, h.2]; rfl
    rw [p.not_isAudio_of_isVideo hp] at h
    cases h.1
  rw [PesPacket.isAudio, Bool.and_eq_true, Bool.not_eq_true'] at h
  simp only [queuePacket, PesPacket.payload, h.1, h.2, hvideo, Bool.not_true, Bool.and_false, Bool.or_false,
    Bool.false_eq_true, if_false, Bool.false_and, if_true]
  cases parsePesHeader p.bytes true with
  | none => rfl
  | some header =>
    dsimp only [Option.bind_some]
    split <;> rfl

theorem queuePacket_of_neither (hv : ¬ p.isVideo = true) (ha : ¬ p.isAudio = true) :
    e.queuePacket p = some e := by
  rw [PesPacket.isVideo] at hv
  rw [PesPacket.isAudio] at ha
  unfold queuePacket
  rw [if_pos]
  cases hempty : p.bytes.isEmpty
  · simp_all
  · simp

theorem queuePacket_eq_none :
    e.queuePacket p = none ↔ p.isVideo = true ∧ maximumAccessUnitsPerKind ≤ e.unitCount .video := by
  by_cases hv : p.isVideo = true
  · rw [queuePacket_of_isVideo hv]
    split
    · next hfull => exact iff_of_true rfl ⟨hv, hfull⟩
    · next hroom =>
      refine iff_of_false ?_ fun h => hroom h.2
      split <;> exact fun h => nomatch h
  · refine iff_of_false ?_ fun h => hv h.1
    by_cases ha : p.isAudio = true
    · rw [queuePacket_of_isAudio ha]
      split <;> exact fun h => nomatch h
    · rw [queuePacket_of_neither hv ha]
      exact fun h => nomatch h

theorem queuePacket_eq_some (h : e.queuePacket p = some e') :
    (p.isVideo = true → e.unitCount .video < maximumAccessUnitsPerKind) ∧ e.Queues p e' := by
  by_cases hv : p.isVideo = true
  · rw [queuePacket_of_isVideo hv, Option.ite_none_left_eq_some] at h
    refine ⟨fun _ => Nat.lt_of_not_le h.1, ?_⟩
    replace h := h.2
    split at h
    · next hnone => exact Option.some.inj h ▸ .nothing (Or.inl hnone)
    · next hsome => exact Option.some.inj h ▸ .video hv hsome
  refine ⟨fun hv' => absurd hv' hv, ?_⟩
  by_cases ha : p.isAudio = true
  · rw [queuePacket_of_isAudio ha] at h
    split at h
    · next hnone => exact Option.some.inj h ▸ .nothing (Or.inl hnone)
    · next hsome => exact Option.some.inj h ▸ .audio ha hsome
  · rw [queuePacket_of_neither hv ha] at h
    exact Option.some.inj h ▸ .nothing (Or.inr ⟨hv, ha⟩)

/-! ### Queueing keeps the buffers in order -/

theorem normalizedAudioChannel_idem (c : Byte) :
    normalizedAudioChannel (normalizedAudioChannel c) = normalizedAudioChannel c := by
  revert c
  decide

/-- The staged bytes from their first delimiter on. -/
def fromDelimiter (bytes : List Byte) : List Byte := bytes.drop ((findVideoAud bytes 0).getD 0)

theorem fromDelimiter_of_isVideoAud {bytes : List Byte} (h : isVideoAud bytes = true) :
    fromDelimiter bytes = bytes := by
  rw [fromDelimiter, findVideoAud_of_isVideoAud h]
  rfl

theorem isVideoAud_fromDelimiter {bytes : List Byte} (h : findVideoAud bytes 0 ≠ none) :
    isVideoAud (fromDelimiter bytes) = true := by
  obtain ⟨first, hfirst⟩ := Option.ne_none_iff_exists'.1 h
  rw [fromDelimiter, hfirst]
  exact isVideoAud_drop hfirst

theorem foldl_pushVideoUnit_videoBytes (us : List (List Byte)) (e : MediaEngine) (videoBytes : List Byte) :
    us.foldl pushVideoUnit { e with videoBytes } = { us.foldl pushVideoUnit e with videoBytes } := by
  induction us generalizing e with
  | nil => rfl
  | cons u us ih => exact ih (e.pushVideoUnit u)

theorem extractVideo_fromDelimiter (h : findVideoAud e.videoBytes 0 ≠ none) :
    e.extractVideoAccessUnits =
      { e with videoBytes := fromDelimiter e.videoBytes }.extractVideoAccessUnits := by
  have haud := isVideoAud_fromDelimiter h
  obtain ⟨first, hfirst⟩ := Option.ne_none_iff_exists'.1 h
  rw [extractVideoAccessUnits, hfirst, extractVideoAccessUnits, findVideoAud_of_isVideoAud haud]
  dsimp only
  rw [cutVideoUnits_eq, cutVideoUnits_eq, List.drop_zero, fromDelimiter, hfirst, Option.getD_some]
  have hfold := foldl_pushVideoUnit_videoBytes
    (videoUnits.take (e.room .video) (e.videoBytes.drop first)).1 e (e.videoBytes.drop first)
  exact (congrArg (fun cut : MediaEngine =>
    { cut with videoBytes := (videoUnits.take (e.room .video) (e.videoBytes.drop first)).2 }) hfold).symm

/-- Once a delimiter has come the staged bytes begin with one. -/
theorem queueVideo_of_staged (hs : e.Sound) (header : ParsedPes) (size : Nat) {payload : List Byte}
    (h : ¬ (e.videoBytes.isEmpty = true ∧ findVideoAud payload 0 = none)) :
    isVideoAud (fromDelimiter (e.videoBytes ++ payload)) = true ∧
      e.queueVideo header size payload = { e.stageVideo header.pts payload with
        videoBytes := fromDelimiter (e.videoBytes ++ payload) }.extractVideoAccessUnits := by
  have hfind : findVideoAud (e.videoBytes ++ payload) 0 ≠ none := by
    rcases hs.ready with hnil | haud
    · rw [hnil]
      exact fun hnone => h ⟨by rw [hnil]; rfl, hnone⟩
    · rw [findVideoAud_of_isVideoAud (isVideoAud_local.mono haud payload)]
      exact fun hnone => nomatch hnone
  refine ⟨isVideoAud_fromDelimiter hfind, ?_⟩
  rw [queueVideo, if_neg h]
  exact extractVideo_fromDelimiter hfind

theorem Sound.stagedVideo (hs : e.Sound) {videoBytes : List Byte} (pts : Int)
    (haud : isVideoAud videoBytes = true) (payload : List Byte) :
    { e.stageVideo pts payload with videoBytes }.Sound :=
  { hs with ready := Or.inr haud }

theorem Sound.queueVideo (hs : e.Sound) (header : ParsedPes) (size : Nat) (payload : List Byte) :
    (e.queueVideo header size payload).Sound := by
  by_cases hraw : e.videoBytes.isEmpty = true ∧ findVideoAud payload 0 = none
  · rw [MediaEngine.queueVideo, if_pos hraw]
    refine { hs with owned := ?_ }
    intro item hitem
    rcases List.mem_append.1 hitem with hitem | hitem
    · exact hs.owned item hitem
    · rw [List.mem_singleton.1 hitem]
      exact Or.inl rfl
  · obtain ⟨haud, heq⟩ := queueVideo_of_staged hs header size hraw
    rw [heq]
    exact (hs.stagedVideo header.pts haud payload).extractVideo

theorem Settled.queueVideo (hs : e.Sound) (h : e.Settled) (header : ParsedPes) (size : Nat)
    (payload : List Byte) : (e.queueVideo header size payload).Settled := by
  by_cases hraw : e.videoBytes.isEmpty = true ∧ findVideoAud payload 0 = none
  · rw [MediaEngine.queueVideo, if_pos hraw]
    constructor
    · intro _
      rw [List.isEmpty_iff.1 hraw.1]
      rfl
    · intro c
      refine ⟨fun hcount => (h.audio c).1 ?_, (h.audio c).2⟩
      rw [unitCount, List.countP_append] at hcount
      exact Nat.lt_of_le_of_lt (Nat.le_add_right ..) hcount
  · obtain ⟨haud, heq⟩ := queueVideo_of_staged hs header size hraw
    rw [heq]
    have hstaged := hs.stagedVideo header.pts haud payload
    exact ⟨extractVideo_settled hstaged, fun c => SettledAudio.extractVideo (h.audio c) hstaged⟩

section
variable {channel : Byte} {pts : Int} {payload : List Byte}

theorem mem_stagedChannels_stageAudio {c : Byte} :
    c ∈ (e.stageAudio channel pts payload).stagedChannels ↔ c = channel ∨ c ∈ e.stagedChannels := by
  simp only [stageAudio]
  split
  · next h => exact ⟨Or.inr, fun hc => hc.elim (fun hc => hc ▸ h) id⟩
  · rw [List.mem_append, List.mem_singleton, or_comm]

theorem stageAudio_audioStaging_of_ne {c : Byte} (h : c ≠ channel) :
    (e.stageAudio channel pts payload).audioStaging c = e.audioStaging c := Function.update_of_ne h ..

theorem stageAudio_audioStaging : (e.stageAudio channel pts payload).audioStaging channel =
    (e.audioStaging channel).add pts payload := Function.update_self ..

theorem Sound.stageAudio (hs : e.Sound) (hreg : e.audioChannelRegistered channel = true)
    (hnorm : normalizedAudioChannel channel = channel) : (e.stageAudio channel pts payload).Sound := by
  refine ⟨hs.offset, hs.ready, ?_, ?_, ?_, ?_, hs.owned⟩
  · simp only [MediaEngine.stageAudio]
    split
    · exact hs.nodup
    · next hnew => exact hs.nodup.append (List.nodup_singleton _) (List.disjoint_singleton.2 hnew)
  · intro c hc
    rcases mem_stagedChannels_stageAudio.1 hc with rfl | hc
    · exact hreg
    · exact hs.registered c hc
  · intro c hc
    rcases mem_stagedChannels_stageAudio.1 hc with rfl | hc
    · exact hnorm
    · exact hs.normalized c hc
  · intro c hc
    rw [mem_stagedChannels_stageAudio, not_or] at hc
    rw [stageAudio_audioStaging_of_ne hc.1]
    exact hs.staged c hc.2

theorem Sound.queueAudio (hs : e.Sound) (hnorm : normalizedAudioChannel channel = channel) :
    (e.queueAudio channel pts payload).Sound := by
  rw [MediaEngine.queueAudio]
  split
  · exact hs
  · next hreg =>
    rw [Bool.not_eq_true', Bool.not_eq_false] at hreg
    exact (hs.stageAudio hreg hnorm).extractAudio (mem_stagedChannels_stageAudio.2 (Or.inl rfl))

theorem Settled.queueAudio (h : e.Settled) : (e.queueAudio channel pts payload).Settled := by
  rw [MediaEngine.queueAudio]
  split
  · exact h
  refine ⟨SettledVideo.extractAudio h.video, fun c => ?_⟩
  by_cases hc : c = channel
  · rw [hc]
    exact extractAudio_settled _ _
  · refine SettledAudio.extractAudio ?_ hc
    rw [SettledAudio, stageAudio_audioStaging_of_ne hc]
    exact h.audio c

end

theorem Sound.queues (hs : e.Sound) (h : e.Queues p e') : e'.Sound := by
  cases h with
  | nothing _ => exact hs
  | video _ _ => exact hs.queueVideo _ _ _
  | audio _ _ => exact hs.queueAudio (normalizedAudioChannel_idem _)

theorem Settled.queues (hs : e.Sound) (hsettled : e.Settled) (h : e.Queues p e') : e'.Settled := by
  cases h with
  | nothing _ => exact hsettled
  | video _ _ => exact hsettled.queueVideo hs _ _ _
  | audio _ _ => exact hsettled.queueAudio

/-! ### Demuxing -/

variable {order : HashOrder}

/-- One of the extractions before the packets. -/
def extractUnlessEmpty (e : MediaEngine) (channel : Byte) : MediaEngine :=
  if (e.audioStaging channel).bytes.isEmpty then e else e.extractAudioFrames channel

theorem foldl_extract_induction {P : MediaEngine → Prop} {cs : List Byte} (hs : e.Sound)
    (hcs : ∀ c ∈ cs, c ∈ e.stagedChannels) (he : P e)
    (haudio : ∀ e c, e.Sound → c ∈ e.stagedChannels → P e → P (e.extractAudioFrames c)) :
    (cs.foldl extractUnlessEmpty e).Sound ∧ P (cs.foldl extractUnlessEmpty e) := by
  induction cs generalizing e with
  | nil => exact ⟨hs, he⟩
  | cons c cs ih =>
    rw [List.foldl_cons, extractUnlessEmpty]
    have hc := hcs c List.mem_cons_self
    have hrest : ∀ c' ∈ cs, c' ∈ e.stagedChannels := fun c' hc' => hcs c' (List.mem_cons_of_mem c hc')
    split
    · exact ih hs hrest he
    · refine ih (hs.extractAudio hc) (fun c' hc' => ?_) (haudio e c hs hc he)
      rw [extractAudioFrames_stagedChannels]
      exact hrest c' hc'

/-- What every extraction keeps. -/
theorem extractStaged_induction {P : MediaEngine → Prop} (hs : e.Sound)
    (hvideo : P e.extractVideoAccessUnits)
    (haudio : ∀ e c, e.Sound → c ∈ e.stagedChannels → P e → P (e.extractAudioFrames c)) :
    (e.extractStaged order).Sound ∧ P (e.extractStaged order) := by
  refine foldl_extract_induction hs.extractVideo (fun c hc => ?_) hvideo haudio
  rw [extractVideoAccessUnits_stagedChannels]
  exact (order.perm _).mem_iff.1 hc

theorem Sound.extractStaged (hs : e.Sound) : (e.extractStaged order).Sound :=
  (extractStaged_induction (P := fun _ => True) hs trivial fun _ _ _ _ _ => trivial).1

theorem foldl_extract_settled {cs : List Byte} (hvideo : e.SettledVideo)
    (haudio : ∀ c, c ∉ cs → e.SettledAudio c) : (cs.foldl extractUnlessEmpty e).Settled := by
  induction cs generalizing e with
  | nil => exact ⟨hvideo, fun c => haudio c List.not_mem_nil⟩
  | cons c cs ih =>
    rw [List.foldl_cons, extractUnlessEmpty]
    split
    · next hempty =>
      refine ih hvideo fun c' hc' => ?_
      by_cases heq : c' = c
      · rw [heq, SettledAudio, List.isEmpty_iff.1 hempty]
        exact ⟨fun _ => rfl, rfl⟩
      · exact haudio c' fun hmem => (List.mem_cons.1 hmem).elim heq hc'
    · refine ih hvideo.extractAudio fun c' hc' => ?_
      by_cases heq : c' = c
      · rw [heq]
        exact extractAudio_settled e c
      · exact (haudio c' fun hmem => (List.mem_cons.1 hmem).elim heq hc').extractAudio heq

theorem extractStaged_settled (hs : e.Sound) : (e.extractStaged order).Settled := by
  refine foldl_extract_settled (extractVideo_settled hs) fun c hc => ?_
  have hc : c ∉ e.stagedChannels := fun hmem => hc ((order.perm _).mem_iff.2 hmem)
  rw [SettledAudio, extractVideoAccessUnits_audioStaging, hs.staged c hc]
  exact ⟨fun _ => rfl, rfl⟩

/-- The packets that `demuxPackets` queues. -/
def queuedPackets : Nat → MediaEngine → List Byte → List PesPacket
  | 0, _, _ => []
  | n + 1, e, remaining =>
    match nextPacket remaining with
    | none => []
    | some (packet, rest) =>
      match e.queuePacket packet with
      | none => []
      | some e => packet :: queuedPackets n e rest

/-- The packets stop where none is complete or the next one has to wait. -/
structure DemuxesTo (e : MediaEngine) (remaining : List Byte) (ps : List PesPacket) (e' : MediaEngine)
    (remaining' : List Byte) : Prop where
  queued : run queuePacket e ps = some e'
  gives : pesPackets.Gives remaining ps remaining'
  suffix : remaining' <:+ remaining
  size : (ps.map (·.bytes.length)).sum + remaining'.length ≤ remaining.length
  stops : ∀ p rest, nextPacket remaining' = some (p, rest) → e'.queuePacket p = none

theorem demuxPackets_spec {n : Nat} {remaining : List Byte} (hn : remaining.length ≤ n) :
    e.DemuxesTo remaining (queuedPackets n e remaining) (demuxPackets n e remaining).1
      (demuxPackets n e remaining).2 := by
  induction n generalizing e remaining with
  | zero =>
    obtain rfl := List.eq_nil_of_length_eq_zero (Nat.le_zero.1 hn)
    exact ⟨rfl, Gives.refl _ _, List.suffix_rfl, Nat.le_refl 0, fun p rest h => nomatch h⟩
  | succ n ih =>
    rw [demuxPackets, queuedPackets]
    cases hnext : nextPacket remaining with
    | none =>
      refine ⟨rfl, Gives.refl _ _, List.suffix_rfl, Nat.le_of_eq (Nat.zero_add _), fun p rest h => ?_⟩
      rw [hnext] at h
      cases h
    | some cut =>
      obtain ⟨p, rest⟩ := cut
      dsimp only
      cases hq : e.queuePacket p with
      | none =>
        refine ⟨rfl, Gives.refl _ _, List.suffix_rfl, Nat.le_of_eq (Nat.zero_add _), fun p' rest' h => ?_⟩
        rw [hnext] at h
        obtain ⟨rfl, rfl⟩ := Prod.mk.inj (Option.some.inj h)
        exact hq
      | some e' =>
        have hshort := pesPackets.shorter hnext
        have hrest := @ih e' rest (by omega)
        refine ⟨run_cons_eq_some.2 ⟨e', hq, hrest.queued⟩, hrest.gives.cons hnext, ?_, ?_, hrest.stops⟩
        · refine hrest.suffix.trans ?_
          obtain ⟨skip, size, -, -, -, -, rfl⟩ := nextPacket_eq_some.1 hnext
          rw [List.drop_drop]
          exact List.drop_suffix ..
        · have hcut := nextPacket_size hnext
          have hsize := hrest.size
          rw [List.map_cons, List.sum_cons, Nat.add_assoc]
          exact (Nat.add_le_add_left hsize _).trans hcut

theorem Sound.run {ps : List PesPacket} (hs : e.Sound) (h : run queuePacket e ps = some e') : e'.Sound :=
  run_invariant (fun _ _ _ hs h => hs.queues (queuePacket_eq_some h).2) hs h

theorem Settled.run {ps : List PesPacket} (hs : e.Sound) (hsettled : e.Settled)
    (h : run queuePacket e ps = some e') : e'.Settled :=
  (run_invariant (P := fun e => e.Sound ∧ e.Settled)
    (fun _ _ _ hs h => ⟨hs.1.queues (queuePacket_eq_some h).2, hs.2.queues hs.1 (queuePacket_eq_some h).2⟩)
    ⟨hs, hsettled⟩ h).2

/-- The parts that queueing leaves alone. -/
def core (e : MediaEngine) : Nat × List Byte × Nat × List (Word × MediaStream) :=
  (e.capacity, e.encoded, e.encodedOffset, e.streams)

@[simp] theorem core_extractVideoAccessUnits (e : MediaEngine) : e.extractVideoAccessUnits.core = e.core := by
  simp [core]

@[simp] theorem core_extractAudioFrames (e : MediaEngine) (channel : Byte) :
    (e.extractAudioFrames channel).core = e.core := by
  simp [core]

theorem core_extractStaged (hs : e.Sound) : (e.extractStaged order).core = e.core := by
  refine (extractStaged_induction (P := fun e' => e'.core = e.core) hs ?_ ?_).2
  · exact core_extractVideoAccessUnits e
  · intro e₁ c _ _ h
    rw [core_extractAudioFrames, h]

theorem Queues.core (h : e.Queues p e') : e'.core = e.core := by
  cases h with
  | nothing _ => rfl
  | video _ _ =>
    rw [MediaEngine.queueVideo]
    split
    · rfl
    · rw [core_extractVideoAccessUnits]
      rfl
  | audio _ _ =>
    rw [MediaEngine.queueAudio]
    split
    · rfl
    · rw [core_extractAudioFrames]
      rfl

theorem core_run {ps : List PesPacket} (h : run queuePacket e ps = some e') : e'.core = e.core :=
  run_invariant (P := fun e₁ => e₁.core = e.core)
    (fun _ _ _ h hq => (queuePacket_eq_some hq).2.core.trans h) rfl h

theorem demux_eq {queued : MediaEngine} {remaining : List Byte}
    (h : demuxPackets e.active.length (e.extractStaged order) e.active = (queued, remaining)) :
    demux order e =
      if remaining.isEmpty then { queued with encoded := [], encodedOffset := 0 }
      else { queued with encodedOffset := e.encoded.length - remaining.length } := by
  unfold active at h
  unfold demux
  dsimp only
  rw [h]

/-- Demuxing extracts what is staged and then queues packets, and only the packets that wait stay. -/
structure Demuxed (order : HashOrder) (e : MediaEngine) (ps : List PesPacket) (queued : MediaEngine) : Prop where
  packets : (e.extractStaged order).DemuxesTo e.active ps queued (demux order e).active
  sound : queued.Sound
  settled : queued.Settled
  core : queued.core = e.core
  eq : ∃ encoded encodedOffset, encodedOffset ≤ encoded.length ∧
    demux order e = { queued with encoded, encodedOffset }

theorem demux_spec (order : HashOrder) (hs : e.Sound) : Demuxed order e
    (queuedPackets e.active.length (e.extractStaged order) e.active)
    (demuxPackets e.active.length (e.extractStaged order) e.active).1 := by
  have hspec := demuxPackets_spec (e := e.extractStaged order) (Nat.le_refl e.active.length)
  have hstaged : (e.extractStaged order).Sound := hs.extractStaged
  have hcore := (core_run hspec.queued).trans (core_extractStaged hs)
  have hsuffix := hspec.suffix.trans (List.drop_suffix e.encodedOffset e.encoded)
  have hsettled := (extractStaged_settled hs).run hstaged hspec.queued
  have hsound := hstaged.run hspec.queued
  cases hd : demuxPackets e.active.length (e.extractStaged order) e.active with
  | mk queued remaining =>
    rw [hd] at hspec hcore hsuffix hsettled hsound
    have hencoded : queued.encoded = e.encoded := congrArg (·.2.1) hcore
    have heq := demux_eq hd
    have hle := hsuffix.length_le
    have hactive : (demux order e).active = remaining := by
      rw [heq]
      split
      · next hempty => exact (List.isEmpty_iff.1 hempty).symm
      · change queued.encoded.drop _ = remaining
        rw [hencoded]
        exact (List.suffix_iff_eq_drop.1 hsuffix).symm
    refine ⟨hactive ▸ hspec, hsound, hsettled, hcore, ?_⟩
    rw [heq]
    split
    · exact ⟨[], 0, Nat.le_refl 0, rfl⟩
    · refine ⟨queued.encoded, _, ?_, rfl⟩
      rw [hencoded]
      exact Nat.sub_le ..

end MediaEngine

end Psprism
