import Mathlib.Algebra.Order.BigOperators.Group.List
import Mathlib.Algebra.Order.Group.Nat
import Psprism.MediaDelivery

/-!
# What the demuxer holds

Demuxing never makes more of the bytes: a unit counts for no more than the bytes it was cut from, and so does
what is staged of a packet. So an engine holds no more than what it accepted.
-/

namespace Psprism
open Framing Interleaving

theorem toNat_ofNat_le (w n : Nat) : (BitVec.ofNat w n).toNat ≤ n := by
  rw [BitVec.toNat_ofNat]
  exact Nat.mod_le ..

theorem sourceBytes_datedUnits (unit : Int → List Byte → MediaAccessUnit)
    (h : ∀ pts bytes, (unit pts bytes).sourceBytes.toNat ≤ bytes.length) (period pts : Int) (us : List (List Byte)) :
    ((datedUnits unit period pts us).map (·.sourceBytes.toNat)).sum ≤ (us.map List.length).sum := by
  induction us generalizing pts with
  | nil => exact Nat.le_refl 0
  | cons bytes us ih =>
    rw [datedUnits, List.map_cons, List.map_cons, List.sum_cons, List.sum_cons]
    exact Nat.add_le_add (h pts bytes) (ih _)

/-- Where one value of a table changes, its sum changes by as much. -/
theorem sum_map_update {l : List Byte} (hl : l.Nodup) {c : Byte} (hc : c ∈ l) (f : Byte → Nat) (v : Nat) :
    (l.map (Function.update f c v)).sum + f c = (l.map f).sum + v := by
  have hperm := List.perm_cons_erase hc
  have hrest : (l.erase c).map (Function.update f c v) = (l.erase c).map f := by
    refine List.map_congr_left fun x hx => Function.update_of_ne ?_ ..
    rintro rfl
    exact hl.not_mem_erase hx
  rw [(hperm.map _).sum_eq, (hperm.map _).sum_eq, List.map_cons, List.map_cons, hrest, Function.update_self,
    List.sum_cons, List.sum_cons]
  omega

namespace MediaEngine
variable {e e' : MediaEngine} {p : PesPacket} {order : HashOrder} {channel : Byte}

/-- The bytes that are staged or queued. -/
def heldBytes (e : MediaEngine) : Nat := e.videoBytes.length + e.audioStagingSize + e.queuedBytes

theorem bufferedBytes_eq : e.bufferedBytes = e.active.length + e.heldBytes := by
  rw [bufferedBytes, heldBytes, active, List.length_drop]
  omega

theorem queuedBytes_append {units : List (StreamKind × MediaAccessUnit)} {kind : StreamKind}
    {us : List MediaAccessUnit} (h : e'.units = units ++ us.map (kind, ·)) :
    e'.queuedBytes = (units.map (·.2.sourceBytes.toNat)).sum + (us.map (·.sourceBytes.toNat)).sum := by
  rw [queuedBytes, h, List.map_append, List.sum_append, List.map_map]
  rfl

theorem audioStagingSize_update (hs : e.Sound) (hc : channel ∈ e.stagedChannels) {staging : AudioStaging}
    (hkeys : e'.stagedChannels = e.stagedChannels)
    (hupdate : e'.audioStaging = Function.update e.audioStaging channel staging) :
    e'.audioStagingSize + (e.audioStaging channel).bytes.length = e.audioStagingSize + staging.bytes.length := by
  have hfun : (fun c => (e'.audioStaging c).bytes.length) =
      Function.update (fun c => (e.audioStaging c).bytes.length) channel staging.bytes.length := by
    funext c
    rw [hupdate]
    by_cases hcc : c = channel
    · rw [hcc, Function.update_self, Function.update_self]
    · rw [Function.update_of_ne hcc, Function.update_of_ne hcc]
  rw [audioStagingSize, audioStagingSize, hkeys, hfun]
  exact sum_map_update hs.nodup hc _ _

theorem heldBytes_extractVideo (hs : e.Sound) : e.extractVideoAccessUnits.heldBytes ≤ e.heldBytes := by
  rcases hs.ready with hnil | haud
  · rw [extractVideoAccessUnits_nil hnil]
  have htake := take_size videoUnits nextVideoUnit_size (e.room .video) e.videoBytes
  have hqueued := queuedBytes_append (extractVideoAccessUnits_units haud)
  have hunits := sourceBytes_datedUnits stagedVideoUnit (fun _ bytes => toNat_ofNat_le 32 bytes.length) 3003
    e.videoNextPts e.cutVideo
  rw [heldBytes, hqueued, heldBytes, extractVideoAccessUnits_videoBytes haud, audioStagingSize,
    extractVideoAccessUnits_audioStaging, extractVideoAccessUnits_stagedChannels, ← audioStagingSize, ← queuedBytes]
  simp only [cutVideo] at hunits
  simp only [cutVideo]
  omega

theorem heldBytes_extractAudio (hs : e.Sound) (hc : channel ∈ e.stagedChannels) :
    (e.extractAudioFrames channel).heldBytes ≤ e.heldBytes := by
  have htake := take_size audioFrames nextAudioFrame_size (e.room .audio) (e.audioStaging channel).bytes
  have hqueued := queuedBytes_append (extractAudioFrames_units e channel)
  have hunits := sourceBytes_datedUnits (audioUnit channel) (fun _ bytes => toNat_ofNat_le 32 bytes.length) 4180
    (e.audioStaging channel).nextPts (e.cutAudio channel)
  have hawaiting := length_awaitingFrame_le (audioFrames.take (e.room .audio) (e.audioStaging channel).bytes).2
  have hstaged := audioStagingSize_update hs hc (extractAudioFrames_stagedChannels e channel)
    (extractAudioFrames_audioStaging e channel)
  rw [heldBytes, hqueued, heldBytes, extractAudioFrames_videoBytes, ← queuedBytes]
  simp only [cutAudio] at hunits hstaged
  simp only [cutAudio]
  omega

theorem heldBytes_extractStaged (hs : e.Sound) : (e.extractStaged order).heldBytes ≤ e.heldBytes := by
  refine (extractStaged_induction (P := fun e' => e'.heldBytes ≤ e.heldBytes) hs ?_ ?_).2
  · exact heldBytes_extractVideo hs
  · intro e₁ c hs₁ hc h
    exact (heldBytes_extractAudio hs₁ hc).trans h

theorem length_payload_le {header : ParsedPes} {payload : List Byte} (h : p.payload = some (header, payload)) :
    payload.length ≤ p.bytes.length := by
  obtain ⟨header', -, h⟩ := Option.bind_eq_some_iff.1 h
  rw [Option.ite_none_left_eq_some] at h
  obtain ⟨rfl, rfl⟩ := Prod.mk.inj (Option.some.inj h.2)
  rw [List.length_drop]
  exact Nat.sub_le ..

theorem heldBytes_queueVideo (hs : e.Sound) {header : ParsedPes} {payload : List Byte}
    (h : p.payload = some (header, payload)) :
    (e.queueVideo header p.bytes.length payload).heldBytes ≤ e.heldBytes + p.bytes.length := by
  by_cases hraw : e.videoBytes.isEmpty = true ∧ findVideoAud payload 0 = none
  · have hsource := toNat_ofNat_le 32 p.bytes.length
    rw [queueVideo, if_pos hraw]
    simp only [heldBytes, queuedBytes, audioStagingSize, List.map_append, List.sum_append, List.map_cons,
      List.map_nil, List.sum_cons, List.sum_nil]
    omega
  · obtain ⟨haud, heq⟩ := queueVideo_of_staged hs header p.bytes.length hraw
    have hle := length_payload_le h
    have hdrop : (fromDelimiter (e.videoBytes ++ payload)).length ≤ e.videoBytes.length + payload.length := by
      rw [fromDelimiter, List.length_drop, List.length_append]
      exact Nat.sub_le ..
    rw [heq]
    refine (heldBytes_extractVideo (hs.stagedVideo header.pts haud payload)).trans ?_
    change (fromDelimiter (e.videoBytes ++ payload)).length + e.audioStagingSize + e.queuedBytes ≤
      e.videoBytes.length + e.audioStagingSize + e.queuedBytes + p.bytes.length
    omega

theorem audioStagingSize_stageAudio (hs : e.Sound) (channel : Byte) (pts : Int) (payload : List Byte) :
    (e.stageAudio channel pts payload).audioStagingSize = e.audioStagingSize + payload.length := by
  by_cases hc : channel ∈ e.stagedChannels
  · have hsum : (e.stageAudio channel pts payload).audioStagingSize + (e.audioStaging channel).bytes.length =
        e.audioStagingSize + ((e.audioStaging channel).add pts payload).bytes.length :=
      audioStagingSize_update hs hc (if_pos hc) rfl
    rw [AudioStaging.add, List.length_append] at hsum
    omega
  · have hkeys : (e.stageAudio channel pts payload).stagedChannels = e.stagedChannels ++ [channel] := if_neg hc
    have hothers : e.stagedChannels.map (fun c => ((e.stageAudio channel pts payload).audioStaging c).bytes.length) =
        e.stagedChannels.map fun c => (e.audioStaging c).bytes.length := by
      refine List.map_congr_left fun c hmem => ?_
      rw [stageAudio_audioStaging_of_ne]
      rintro rfl
      exact hc hmem
    rw [audioStagingSize, hkeys, List.map_append, List.sum_append, hothers, List.map_singleton, List.sum_singleton,
      stageAudio_audioStaging, AudioStaging.add, hs.staged channel hc]
    rfl

theorem heldBytes_queueAudio (hs : e.Sound) (hnorm : normalizedAudioChannel channel = channel) {pts : Int}
    {header : ParsedPes} {payload : List Byte} (h : p.payload = some (header, payload)) :
    (e.queueAudio channel pts payload).heldBytes ≤ e.heldBytes + p.bytes.length := by
  rw [queueAudio]
  split
  · exact Nat.le_add_right ..
  · next hreg =>
    rw [Bool.not_eq_true', Bool.not_eq_false] at hreg
    refine (heldBytes_extractAudio (hs.stageAudio hreg hnorm)
      (mem_stagedChannels_stageAudio.2 (Or.inl rfl))).trans ?_
    have hle := length_payload_le h
    have hsize := audioStagingSize_stageAudio hs channel pts payload
    change e.videoBytes.length + (e.stageAudio channel pts payload).audioStagingSize + e.queuedBytes ≤
      e.videoBytes.length + e.audioStagingSize + e.queuedBytes + p.bytes.length
    omega

/-- A packet is held at no more than its size. -/
theorem heldBytes_queuePacket (hs : e.Sound) (h : e.queuePacket p = some e') :
    e'.heldBytes ≤ e.heldBytes + p.bytes.length := by
  cases (queuePacket_eq_some h).2 with
  | nothing _ => exact Nat.le_add_right ..
  | video _ hpay => exact heldBytes_queueVideo hs hpay
  | audio _ hpay => exact heldBytes_queueAudio hs (normalizedAudioChannel_idem _) hpay

theorem heldBytes_run {ps : List PesPacket} (hs : e.Sound) (h : run queuePacket e ps = some e') :
    e'.heldBytes ≤ e.heldBytes + (ps.map (·.bytes.length)).sum := by
  induction ps generalizing e with
  | nil =>
    obtain rfl := Option.some.inj h
    exact Nat.le_refl _
  | cons p ps ih =>
    obtain ⟨e₁, hq, hrun⟩ := run_cons_eq_some.1 h
    have hrest := ih (hs.queues (queuePacket_eq_some hq).2) hrun
    have hheld := heldBytes_queuePacket hs hq
    rw [List.map_cons, List.sum_cons]
    omega

/-- Demuxing never makes more of the bytes. -/
theorem bufferedBytes_demux (order : HashOrder) (hs : e.Sound) : (e.demux order).bufferedBytes ≤ e.bufferedBytes := by
  have hspec := demux_spec order hs
  obtain ⟨encoded, encodedOffset, -, heq⟩ := hspec.eq
  have hstaged : (e.extractStaged order).heldBytes ≤ e.heldBytes := heldBytes_extractStaged hs
  have hqueued := heldBytes_run hs.extractStaged hspec.packets.queued
  have hsize := hspec.packets.size
  have hheld : (e.demux order).heldBytes =
      (demuxPackets e.active.length (e.extractStaged order) e.active).1.heldBytes := by
    rw [heq]
    rfl
  rw [bufferedBytes_eq, bufferedBytes_eq, hheld]
  omega

theorem bufferedBytes_pushEncoded (hs : e.Sound) (bytes : List Byte) :
    (e.pushEncoded bytes).bufferedBytes = e.bufferedBytes + bytes.length := by
  obtain ⟨encoded, encodedOffset, hdrop, -, heq⟩ := pushEncoded_eq hs bytes
  have hactive : (e.pushEncoded bytes).active = e.active ++ bytes := by
    rw [heq]
    exact hdrop
  have hheld : (e.pushEncoded bytes).heldBytes = e.heldBytes := by
    rw [heq]
    rfl
  rw [bufferedBytes_eq, bufferedBytes_eq, hactive, hheld, List.length_append]
  omega

theorem bufferedBytes_takeUnit (stream : MediaStream) (unit : MediaAccessUnit) :
    (e.takeUnit stream unit).bufferedBytes ≤ e.bufferedBytes := by
  obtain ⟨_, _, _, _, heq⟩ := units_takeUnit e stream unit
  rw [heq]
  have hqueued : ((e.units.eraseP stream.takes).map (·.2.sourceBytes.toNat)).sum ≤ e.queuedBytes :=
    (List.Sublist.map _ List.eraseP_sublist).sum_le_sum fun _ _ => Nat.zero_le _
  exact Nat.add_le_add_left hqueued _

/-- Bytes are accepted as long as there is room for them. -/
theorem appendPackets_isSome {bytes : List Byte} (h : bytes.length + e.bufferedBytes ≤ e.capacity) :
    (appendPackets order e bytes).isSome = true := by
  rw [appendPackets]
  split
  · rfl
  · rw [if_neg (by omega)]
    rfl

theorem capacity_demux (hs : e.Sound) : (e.demux order).capacity = e.capacity := by
  have hspec := demux_spec order hs
  obtain ⟨encoded, encodedOffset, -, heq⟩ := hspec.eq
  rw [heq]
  exact congrArg (·.1) hspec.core

/-- An engine within its capacity. -/
structure Within (e : MediaEngine) : Prop where
  sound : e.Sound
  le : e.bufferedBytes ≤ e.capacity

theorem Within.appendPackets {bytes : List Byte} (h : e.Within) (happend : appendPackets order e bytes = some e') :
    e'.Within ∧ e'.capacity = e.capacity ∧ e'.bufferedBytes ≤ e.bufferedBytes + bytes.length := by
  unfold MediaEngine.appendPackets at happend
  split at happend
  · obtain rfl := Option.some.inj happend
    exact ⟨h, rfl, Nat.le_add_right ..⟩
  rw [Option.ite_none_left_eq_some, not_or] at happend
  obtain ⟨⟨hsize, hroom⟩, happend⟩ := happend
  obtain rfl := Option.some.inj happend
  have hsound := h.sound.pushEncoded bytes
  have hbuffered := bufferedBytes_demux order hsound
  rw [bufferedBytes_pushEncoded h.sound] at hbuffered
  have hcapacity : ((e.pushEncoded bytes).demux order).capacity = e.capacity := by
    rw [capacity_demux hsound]
    obtain ⟨_, _, -, -, heq⟩ := pushEncoded_eq h.sound bytes
    rw [heq]
  refine ⟨⟨hsound.demux, ?_⟩, hcapacity, hbuffered⟩
  rw [hcapacity]
  omega

theorem Within.nextAccessUnit (order : HashOrder) (uid : Word) (h : e.Within) :
    (nextAccessUnit order e uid).2.Within ∧ (nextAccessUnit order e uid).2.capacity = e.capacity ∧
      (nextAccessUnit order e uid).2.bufferedBytes ≤ e.bufferedBytes := by
  unfold MediaEngine.nextAccessUnit
  split
  · exact ⟨h, rfl, Nat.le_refl _⟩
  split
  · exact ⟨h, rfl, Nat.le_refl _⟩
  next stream _ _ item _ =>
  have hsound := h.sound.takeUnit stream item.2
  have hbuffered := (bufferedBytes_demux order hsound).trans (bufferedBytes_takeUnit stream item.2)
  have hcapacity : ((e.takeUnit stream item.2).demux order).capacity = e.capacity := by
    rw [capacity_demux hsound]
    exact congrArg (·.1) (core_takeUnit e stream item.2)
  refine ⟨⟨hsound.demux, ?_⟩, hcapacity, hbuffered⟩
  rw [hcapacity]
  exact hbuffered.trans h.le

end MediaEngine

end Psprism
