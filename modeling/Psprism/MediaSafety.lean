import Psprism.MediaReads

/-!
# The demuxer stays inside (`mpeg/media_engine.cpp`)

The engine with the reads of `MediaReads`. A loop that cuts units ends because the queue fills or the cursor moves,
the loop over the packets because each turn takes it behind a packet. Every operation answers what the one on lists
answers, so the offset stays inside what is staged, whatever is appended and in whatever pieces (`demux_safe`).
-/

namespace Psprism
open CheckedReads Framing

namespace MediaEngine

def unregisterStream (e : MediaEngine) (uid : Word) : MediaEngine :=
  { e with streams := e.streams.filter (·.1 != uid) }

def flush (e : MediaEngine) : MediaEngine :=
  { capacity := e.capacity, streams := e.streams, nextStream := e.nextStream }

end MediaEngine

namespace MediaReads

/-- What an erasure up to the cursor leaves. -/
def eraseTo (bytes : List Byte) (cursor : Nat) : Demux (List Byte) :=
  if cursor = 0 then return bytes
  else if cursor ≥ bytes.length then return []
  else subspan bytes cursor

theorem eraseTo_eq (bytes : List Byte) (cursor : Nat) : eraseTo bytes cursor = .ok (bytes.drop cursor) := by
  rw [eraseTo]
  split
  · next hzero =>
    subst hzero
    rfl
  split
  · next hlong =>
    rw [List.drop_eq_nil_of_le hlong]
    rfl
  · next hlong => exact subspan_eq (Nat.le_of_not_le hlong)

/-! ### Access units -/

theorem room_pushVideoUnit {e : MediaEngine} {unit : List Byte} (h : e.unitCount .video < maximumAccessUnitsPerKind) :
    (e.pushVideoUnit unit).room .video + 1 = e.room .video := by
  have hcount : (e.pushVideoUnit unit).unitCount .video = e.unitCount .video + 1 := by
    rw [MediaEngine.unitCount, MediaEngine.pushVideoUnit, List.countP_append]
    rfl
  rw [MediaEngine.room, MediaEngine.room, hcount]
  omega

theorem room_pushAudioUnit {e : MediaEngine} {channel : Byte} {frame : List Byte}
    (h : e.unitCount .audio < maximumAccessUnitsPerKind) :
    (e.pushAudioUnit channel frame).room .audio + 1 = e.room .audio := by
  have hcount : (e.pushAudioUnit channel frame).unitCount .audio = e.unitCount .audio + 1 := by
    rw [MediaEngine.unitCount, MediaEngine.pushAudioUnit, List.countP_append]
    rfl
  rw [MediaEngine.room, MediaEngine.room, hcount]
  omega

/-- The loop of `extract_video_access_units`, and where in the staged bytes it stops. -/
def cutVideoUnits (e : MediaEngine) (cursor : Nat) : Demux (MediaEngine × Nat) :=
  if _h : e.unitCount .video < maximumAccessUnitsPerKind then do
    let remaining ← subspan e.videoBytes cursor
    match ← findVideoAud remaining 4 with
    | none => return (e, cursor)
    | some next =>
      let unit ← slice remaining 0 next
      cutVideoUnits (e.pushVideoUnit unit) (cursor + next)
  else return (e, cursor)
termination_by e.room .video
decreasing_by exact Nat.lt_of_succ_le (Nat.le_of_eq (room_pushVideoUnit _h))

def extractVideoAccessUnits (e : MediaEngine) : Demux MediaEngine := do
  match ← findVideoAud e.videoBytes 0 with
  | none =>
    if 4 < e.videoBytes.length then
      return { e with videoBytes := ← subspan e.videoBytes (e.videoBytes.length - 4) }
    else return e
  | some first =>
    let (cut, cursor) ← cutVideoUnits e first
    return { cut with videoBytes := ← eraseTo e.videoBytes cursor }

/-- The loop of `extract_audio_frames` over the bytes of a channel, and where in them it stops. -/
def cutAudioFrames (channel : Byte) (bytes : List Byte) (e : MediaEngine) (cursor : Nat) :
    Demux (MediaEngine × Nat) := do
  let remaining ← subspan bytes cursor
  match search isAudioHeader remaining with
  | none =>
    if 1 < remaining.length then
      if (← cell remaining (remaining.length - 1)) = 0x0f then return (e, bytes.length - 1)
      else return (e, bytes.length)
    else return (e, cursor)
  | some skip =>
    let start := cursor + skip
    if _hstart : bytes.length - start < 4 then return (e, start)
    else
      let size := frameSize (← slice bytes start 4)
      if _hsize : size < 8 ∨ size > 8192 then cutAudioFrames channel bytes e (start + 1)
      else if bytes.length - start < size then return (e, start)
      else if maximumAccessUnitsPerKind ≤ e.unitCount .audio then return (e, start)
      else
        let frame ← slice bytes start size
        cutAudioFrames channel bytes (e.pushAudioUnit channel frame) (start + size)
termination_by bytes.length - cursor

def extractAudioFrames (e : MediaEngine) (channel : Byte) : Demux MediaEngine := do
  let bytes := (e.audioStaging channel).bytes
  let (cut, cursor) ← cutAudioFrames channel bytes e 0
  return cut.setStaging channel { cut.audioStaging channel with bytes := ← eraseTo bytes cursor }

section
variable {e : MediaEngine} {bytes : List Byte} {cursor : Nat}

theorem cutVideoUnits_eq (h : cursor ≤ e.videoBytes.length) : ∃ cut stop, cutVideoUnits e cursor = .ok (cut, stop) ∧
    MediaEngine.cutVideoUnits (e.room .video) e (e.videoBytes.drop cursor) = (cut, e.videoBytes.drop stop) := by
  induction hn : e.room .video generalizing e cursor with
  | zero =>
    have hfull : ¬ e.unitCount .video < maximumAccessUnitsPerKind := Nat.not_lt.2 (Nat.sub_eq_zero_iff_le.1 hn)
    rw [cutVideoUnits, dif_neg hfull]
    exact ⟨e, cursor, rfl, rfl⟩
  | succ n ih =>
    have hroom : e.unitCount .video < maximumAccessUnitsPerKind := Nat.lt_of_sub_eq_succ hn
    rw [cutVideoUnits, dif_pos hroom, subspan_eq h, ok_bind, findVideoAud_eq, ok_bind, MediaEngine.cutVideoUnits,
      nextVideoUnit]
    cases haud : Psprism.findVideoAud (e.videoBytes.drop cursor) 4 with
    | none => exact ⟨e, cursor, rfl, rfl⟩
    | some next =>
      -- the next delimiter lies in what is staged
      obtain ⟨skip, hskip, rfl⟩ := Option.map_eq_some_iff.1 haud
      have hlt := (search_some hskip).1
      rw [List.length_drop, List.length_drop] at hlt
      dsimp only [Option.map_some]
      rw [slice_eq (by rw [List.length_drop]; omega), ok_bind, List.drop_zero, List.drop_drop]
      exact ih (e := e.pushVideoUnit _) (show cursor + (skip + 4) ≤ e.videoBytes.length by omega)
        (Nat.succ.inj ((room_pushVideoUnit hroom).trans hn))

theorem extractVideoAccessUnits_eq (e : MediaEngine) :
    extractVideoAccessUnits e = .ok e.extractVideoAccessUnits := by
  rw [extractVideoAccessUnits, MediaEngine.extractVideoAccessUnits, findVideoAud_eq, ok_bind]
  cases haud : Psprism.findVideoAud e.videoBytes 0 with
  | none =>
    dsimp only
    split
    · rw [subspan_eq (Nat.sub_le ..)]
      rfl
    · rfl
  | some first =>
    rw [findVideoAud_zero] at haud
    obtain ⟨cut, stop, hcut, heq⟩ := cutVideoUnits_eq (Nat.le_of_lt (search_some haud).1)
    simp only [hcut, heq, ok_bind, eraseTo_eq]
    rfl

theorem frameSize_take (bytes : List Byte) : frameSize (bytes.take 4) = frameSize bytes := by
  rw [frameSize, frameSize, byteAt, byteAt, getD_take (by decide), getD_take (by decide)]
  rfl

/-- A turn that takes no frame. -/
theorem cutAudioFrames_stays (channel : Byte) (h : cursor ≤ bytes.length)
    (hnext : e.room .audio = 0 ∨ nextAudioFrame (bytes.drop cursor) = none) :
    ∃ stop, cutAudioFrames channel bytes e cursor = .ok (e, stop) ∧
      awaitingFrame (bytes.drop cursor) = bytes.drop stop := by
  rw [cutAudioFrames, subspan_eq h, ok_bind]
  cases hs : search isAudioHeader (bytes.drop cursor) with
  | none =>
    rw [awaitingFrame_of_none hs]
    dsimp only
    rw [List.length_drop]
    split
    · next hlong =>
      have hlast : (bytes.drop cursor).length - 1 < (bytes.drop cursor).length := by
        rw [List.length_drop]
        omega
      rw [List.getLast?_eq_getElem?, List.getElem?_eq_getElem hlast, ← List.length_drop, cell_eq hlast, ok_bind]
      simp only [Option.some.injEq]
      split
      · refine ⟨bytes.length - 1, rfl, ?_⟩
        rw [List.drop_drop, List.length_drop]
        congr 1
        omega
      · exact ⟨bytes.length, rfl, List.drop_length.symm⟩
    · exact ⟨cursor, rfl, rfl⟩
  | some skip =>
    have hlt := (search_some hs).1
    rw [List.length_drop] at hlt
    rw [awaitingFrame_of_some hs, List.drop_drop]
    refine ⟨cursor + skip, ?_, rfl⟩
    dsimp only
    split
    · rfl
    next hfour =>
    have hframe := frameSize_range (bytes.drop (cursor + skip))
    rw [slice_eq (by omega), ok_bind, frameSize_take, dif_neg (by omega)]
    split
    · rfl
    next hsize =>
    rcases hnext with hfull | hnone
    · rw [if_pos (Nat.sub_eq_zero_iff_le.1 hfull)]
      rfl
    · -- the frame is complete, so it would be taken
      rw [nextAudioFrame, hs] at hnone
      simp only [List.drop_drop, List.length_drop, if_neg hfour, if_neg hsize] at hnone
      cases hnone

/-- A turn that takes a frame. -/
theorem cutAudioFrames_takes (channel : Byte) (h : cursor ≤ bytes.length) (hroom : e.unitCount .audio < maximumAccessUnitsPerKind)
    {frame rest : List Byte} (hnext : nextAudioFrame (bytes.drop cursor) = some (frame, rest)) :
    ∃ next ≤ bytes.length, rest = bytes.drop next ∧
      cutAudioFrames channel bytes e cursor = cutAudioFrames channel bytes (e.pushAudioUnit channel frame) next := by
  obtain ⟨skip, hskip, hfour, hsize, rfl, rfl⟩ := nextAudioFrame_eq_some.1 hnext
  have hframe := frameSize_range ((bytes.drop cursor).drop skip)
  have hstart : (bytes.drop cursor).drop skip = bytes.drop (cursor + skip) := List.drop_drop
  rw [hstart] at hfour hsize hframe ⊢
  rw [List.length_drop] at hfour hsize
  refine ⟨cursor + skip + frameSize (bytes.drop (cursor + skip)), by omega, List.drop_drop, ?_⟩
  rw [cutAudioFrames, subspan_eq h, ok_bind, hskip]
  dsimp only
  rw [dif_neg (by omega), slice_eq (by omega), ok_bind, frameSize_take, dif_neg (by omega), if_neg (by omega),
    if_neg (Nat.not_le.2 hroom), slice_eq (by omega), ok_bind]

theorem cutAudioFrames_eq (channel : Byte) (h : cursor ≤ bytes.length) :
    ∃ cut stop, cutAudioFrames channel bytes e cursor = .ok (cut, stop) ∧
      MediaEngine.cutAudioFrames channel (e.room .audio) e (bytes.drop cursor) = (cut, bytes.drop stop) := by
  induction hn : e.room .audio generalizing e cursor with
  | zero =>
    obtain ⟨stop, hcut, hstop⟩ := cutAudioFrames_stays channel h (Or.inl hn)
    exact ⟨e, stop, hcut, congrArg (Prod.mk e) hstop⟩
  | succ n ih =>
    rw [MediaEngine.cutAudioFrames]
    cases hnext : nextAudioFrame (bytes.drop cursor) with
    | none =>
      obtain ⟨stop, hcut, hstop⟩ := cutAudioFrames_stays channel h (Or.inr hnext)
      exact ⟨e, stop, hcut, congrArg (Prod.mk e) hstop⟩
    | some taken =>
      obtain ⟨frame, rest⟩ := taken
      have hroom : e.unitCount .audio < maximumAccessUnitsPerKind := Nat.lt_of_sub_eq_succ hn
      obtain ⟨next, hle, rfl, hcut⟩ := cutAudioFrames_takes channel h hroom hnext
      rw [hcut]
      exact ih hle (Nat.succ.inj ((room_pushAudioUnit hroom).trans hn))

theorem extractAudioFrames_eq (e : MediaEngine) (channel : Byte) :
    extractAudioFrames e channel = .ok (e.extractAudioFrames channel) := by
  obtain ⟨cut, stop, hcut, heq⟩ :=
    cutAudioFrames_eq (e := e) channel (Nat.zero_le (e.audioStaging channel).bytes.length)
  rw [List.drop_zero] at heq
  rw [extractAudioFrames, MediaEngine.extractAudioFrames]
  simp only [hcut, heq, ok_bind, eraseTo_eq]
  rfl

end

/-! ### Packets -/

def queueAudio (e : MediaEngine) (channel : Byte) (pts : Int) (payload : List Byte) : Demux MediaEngine :=
  if !e.audioChannelRegistered channel then return e
  else extractAudioFrames (e.stageAudio channel pts payload) channel

def queueVideo (e : MediaEngine) (header : ParsedPes) (packetSize : Nat) (payload : List Byte) : Demux MediaEngine := do
  let aud ← findVideoAud payload 0
  if e.videoBytes.isEmpty ∧ aud = none then
    let unit : MediaAccessUnit :=
      { bytes := payload, pts := header.pts, dts := header.dts, sourceBytes := BitVec.ofNat 32 packetSize }
    return { e with units := e.units ++ [(.video, unit)] }
  else extractVideoAccessUnits (e.stageVideo header.pts payload)

def queuePacket (encoded : List Byte) (e : MediaEngine) (range : PacketRange) : Demux (Option MediaEngine) :=
  let video := isVideoCode range.code
  let audio := isAudioCode range.code
  if !video && !audio ∨ range.stop ≤ range.start then return some e
  else if video && maximumAccessUnitsPerKind ≤ e.unitCount .video then return none
  else do
    let packet ← slice encoded range.start (range.stop - range.start)
    match ← parsePesHeader packet audio with
    | none => return some e
    | some header =>
      if packet.length ≤ header.payloadOffset then return some e
      else
        let payload ← subspan packet header.payloadOffset
        if audio then return some (← queueAudio e (normalizedAudioChannel header.channel) header.pts payload)
        else return some (← queueVideo e header packet.length payload)

/-- The loop of `demux`, with the offset up to which the staged bytes are consumed. -/
def demuxFrom (encoded : List Byte) (e : MediaEngine) (cursor : Nat) : Demux (MediaEngine × Nat) :=
  match _h : packetRange encoded cursor with
  | .error fault => .error fault
  | .ok none => return (e, cursor)
  | .ok (some range) => do
    match ← queuePacket encoded e range with
    | none => return (e, cursor)
    | some e => demuxFrom encoded e range.stop
termination_by encoded.length - cursor
decreasing_by
  have := packetRange_inside _h
  omega

section
variable {e : MediaEngine} {encoded : List Byte} {range : PacketRange} {cursor n : Nat}

theorem queueAudio_eq (e : MediaEngine) (channel : Byte) (pts : Int) (payload : List Byte) :
    queueAudio e channel pts payload = .ok (e.queueAudio channel pts payload) := by
  rw [queueAudio, MediaEngine.queueAudio, extractAudioFrames_eq]
  exact (apply_ite Except.ok ..).symm

theorem queueVideo_eq (e : MediaEngine) (header : ParsedPes) (packetSize : Nat) (payload : List Byte) :
    queueVideo e header packetSize payload = .ok (e.queueVideo header packetSize payload) := by
  rw [queueVideo, MediaEngine.queueVideo, findVideoAud_eq, ok_bind, extractVideoAccessUnits_eq]
  exact (apply_ite Except.ok ..).symm

theorem queuePacket_eq (hstart : range.start < range.stop) (hstop : range.stop ≤ encoded.length) :
    queuePacket encoded e range = .ok (e.queuePacket (range.packet encoded)) := by
  have hempty : (range.packet encoded).bytes.isEmpty = false := by
    rw [List.isEmpty_eq_false_iff, ← List.length_pos_iff, PacketRange.packet, List.length_take, List.length_drop]
    omega
  have hcode : (range.packet encoded).code = range.code := rfl
  rw [queuePacket, MediaEngine.queuePacket, hempty, hcode, slice_eq (by omega)]
  simp only [Nat.not_le.2 hstart, or_false, Bool.or_false]
  split
  · rfl
  split
  · rfl
  rw [ok_bind, parsePesHeader_eq, ok_bind, PacketRange.packet]
  cases Psprism.parsePesHeader ((encoded.drop range.start).take (range.stop - range.start)) (isAudioCode range.code) with
  | none => rfl
  | some header =>
    dsimp only
    split
    · rfl
    next hpayload =>
    rw [subspan_eq (Nat.le_of_not_le hpayload), ok_bind, queueAudio_eq, queueVideo_eq]
    split
    · rfl
    · rfl

theorem demuxFrom_of_none (h : packetRange encoded cursor = .ok none) : demuxFrom encoded e cursor = .ok (e, cursor) := by
  rw [demuxFrom]
  split
  · next heq => rw [h] at heq; cases heq
  · rfl
  · next heq => rw [h] at heq; cases heq

theorem demuxFrom_of_some {queued : Option MediaEngine} (h : packetRange encoded cursor = .ok (some range))
    (hqueued : queuePacket encoded e range = .ok queued) :
    demuxFrom encoded e cursor = (queued.map (demuxFrom encoded · range.stop)).getD (.ok (e, cursor)) := by
  rw [demuxFrom]
  split
  · next heq => rw [h] at heq; cases heq
  · next heq => rw [h] at heq; cases heq
  · next heq =>
    rw [h] at heq
    obtain rfl := Option.some.inj (Except.ok.inj heq)
    rw [hqueued, ok_bind]
    cases queued with
    | none => rfl
    | some e' => rfl

theorem demuxFrom_eq (hcursor : cursor ≤ encoded.length) (hn : encoded.length ≤ cursor + n) :
    ∃ queued stop, demuxFrom encoded e cursor = .ok (queued, stop) ∧ stop ≤ encoded.length ∧
      MediaEngine.demuxPackets n e (encoded.drop cursor) = (queued, encoded.drop stop) := by
  induction n generalizing e cursor with
  | zero =>
    have hshort : packetRange encoded cursor = .ok none := by
      rw [packetRange, if_neg (by omega)]
      rfl
    exact ⟨e, cursor, demuxFrom_of_none hshort, hcursor, rfl⟩
  | succ n ih =>
    obtain ⟨found, hfound, hnext⟩ := nextPacket_drop encoded cursor
    rw [MediaEngine.demuxPackets, hnext]
    cases found with
    | none => exact ⟨e, cursor, demuxFrom_of_none hfound, hcursor, rfl⟩
    | some range =>
      obtain ⟨hstart, hsize, hstop⟩ := packetRange_inside hfound
      rw [demuxFrom_of_some hfound (queuePacket_eq (by omega) hstop), Option.map_some]
      dsimp only
      cases e.queuePacket (range.packet encoded) with
      | none => exact ⟨e, cursor, rfl, hcursor, rfl⟩
      | some e' => exact ih hstop (by omega)

end

/-! ### The engine -/

def extractStaged (order : HashOrder) (e : MediaEngine) : Demux MediaEngine := do
  (order.keys e.stagedChannels).foldlM
    (fun e channel => if (e.audioStaging channel).bytes.isEmpty then pure e else extractAudioFrames e channel)
    (← extractVideoAccessUnits e)

def demux (order : HashOrder) (e : MediaEngine) : Demux MediaEngine := do
  let (queued, consumed) ← demuxFrom e.encoded (← extractStaged order e) e.encodedOffset
  if consumed ≥ e.encoded.length then return { queued with encoded := [], encodedOffset := 0 }
  else return { queued with encodedOffset := consumed }

def pushEncoded (e : MediaEngine) (bytes : List Byte) : Demux MediaEngine :=
  if e.encodedOffset > 0 ∧ (e.encodedOffset * 2 ≥ e.encoded.length ∨ e.encodedOffset ≥ 65536) then
    return { e with encoded := (← subspan e.encoded e.encodedOffset) ++ bytes, encodedOffset := 0 }
  else return { e with encoded := e.encoded ++ bytes }

/-- Whether the bytes are accepted, and the engine afterwards. -/
def appendPackets (order : HashOrder) (e : MediaEngine) (bytes : List Byte) : Demux (Bool × MediaEngine) :=
  if bytes.isEmpty then return (true, e)
  else if bytes.length > e.capacity ∨ e.bufferedBytes > e.capacity - bytes.length then return (false, e)
  else return (true, ← demux order (← pushEncoded e bytes))

def nextAccessUnit (order : HashOrder) (e : MediaEngine) (uid : Word) :
    Demux (Option MediaAccessUnit × MediaEngine) :=
  match e.findStream uid with
  | none => return (none, e)
  | some stream =>
    match e.units.find? stream.takes with
    | none => return (none, e)
    | some item => return (some item.2, ← demux order (e.takeUnit stream item.2))

section
variable {e : MediaEngine} {order : HashOrder} {bytes : List Byte}

theorem extractStaged_eq (order : HashOrder) (e : MediaEngine) : extractStaged order e = .ok (e.extractStaged order) := by
  rw [extractStaged, extractVideoAccessUnits_eq, ok_bind, MediaEngine.extractStaged]
  refine foldlM_eq_foldl (fun e channel => ?_) _ _
  rw [extractAudioFrames_eq]
  exact (apply_ite Except.ok ..).symm

theorem demux_eq (order : HashOrder) (h : e.encodedOffset ≤ e.encoded.length) :
    demux order e = .ok (e.demux order) := by
  have hn : e.encoded.length ≤ e.encodedOffset + e.active.length := by
    rw [MediaEngine.active, List.length_drop]
    omega
  obtain ⟨queued, stop, hfrom, hstop, heq⟩ := demuxFrom_eq (e := e.extractStaged order) h hn
  rw [demux, MediaEngine.demux_eq heq, extractStaged_eq, ok_bind, hfrom, ok_bind, List.length_drop,
    Nat.sub_sub_self hstop]
  simp only [List.isEmpty_iff, List.drop_eq_nil_iff]
  exact (apply_ite Except.ok ..).symm

theorem pushEncoded_eq (h : e.encodedOffset ≤ e.encoded.length) (bytes : List Byte) :
    pushEncoded e bytes = .ok (e.pushEncoded bytes) := by
  rw [pushEncoded, MediaEngine.pushEncoded, subspan_eq h]
  exact (apply_ite Except.ok ..).symm

theorem encodedOffset_pushEncoded (h : e.encodedOffset ≤ e.encoded.length) (bytes : List Byte) :
    (e.pushEncoded bytes).encodedOffset ≤ (e.pushEncoded bytes).encoded.length := by
  rw [MediaEngine.pushEncoded]
  split
  · exact Nat.zero_le _
  · rw [List.length_append]
    exact h.trans (Nat.le_add_right ..)

theorem encoded_extractStaged (order : HashOrder) (e : MediaEngine) : (e.extractStaged order).encoded = e.encoded := by
  rw [MediaEngine.extractStaged]
  refine List.foldlRecOn (motive := fun (e' : MediaEngine) => e'.encoded = e.encoded) _ _
    (MediaEngine.extractVideoAccessUnits_encoded e) ?_
  intro e' he' channel _
  split
  · exact he'
  · rw [MediaEngine.extractAudioFrames_encoded, he']

theorem encoded_demuxPackets (n : Nat) (e : MediaEngine) (remaining : List Byte) :
    (MediaEngine.demuxPackets n e remaining).1.encoded = e.encoded := by
  induction n generalizing e remaining with
  | zero => rfl
  | succ n ih =>
    rw [MediaEngine.demuxPackets]
    cases nextPacket remaining with
    | none => rfl
    | some cut =>
      obtain ⟨packet, rest⟩ := cut
      dsimp only
      cases hqueue : e.queuePacket packet with
      | none => rfl
      | some e' =>
        have hcore := (MediaEngine.queuePacket_eq_some hqueue).2.core
        exact (ih e' rest).trans (congrArg (·.2.1) hcore)

theorem encodedOffset_demux (order : HashOrder) (e : MediaEngine) :
    (e.demux order).encodedOffset ≤ (e.demux order).encoded.length := by
  cases hd : MediaEngine.demuxPackets e.active.length (e.extractStaged order) e.active with
  | mk queued remaining =>
    have hencoded := encoded_demuxPackets e.active.length (e.extractStaged order) e.active
    rw [hd, encoded_extractStaged] at hencoded
    rw [MediaEngine.demux_eq hd]
    split
    · exact Nat.le_refl 0
    · dsimp only
      rw [hencoded]
      exact Nat.sub_le ..

/-- An append succeeds, or is rejected and changes nothing. -/
theorem appendPackets_eq (order : HashOrder) (h : e.encodedOffset ≤ e.encoded.length) (bytes : List Byte) :
    appendPackets order e bytes =
      .ok ((e.appendPackets order bytes).isSome, (e.appendPackets order bytes).getD e) := by
  rw [appendPackets, MediaEngine.appendPackets, pushEncoded_eq h, ok_bind,
    demux_eq order (encodedOffset_pushEncoded h bytes), ok_bind]
  split
  · rfl
  split
  · rfl
  · rfl

theorem encodedOffset_appendPackets {e' : MediaEngine} (h : e.encodedOffset ≤ e.encoded.length)
    (happend : e.appendPackets order bytes = some e') : e'.encodedOffset ≤ e'.encoded.length := by
  unfold MediaEngine.appendPackets at happend
  split at happend
  · obtain rfl := Option.some.inj happend
    exact h
  rw [Option.ite_none_left_eq_some] at happend
  obtain rfl := Option.some.inj happend.2
  exact encodedOffset_demux order _

end

/-! ### Runs -/

/-- A call of the engine, with the order in which the staged channels are gone through then. -/
inductive DemuxCall
  | register (type channel : Word)
  | unregister (uid : Word)
  | append (order : HashOrder) (bytes : List Byte)
  | take (order : HashOrder) (uid : Word)
  | flush

def DemuxCall.run (e : MediaEngine) : DemuxCall → Demux MediaEngine
  | .register type channel => return (e.registerStream type channel).2
  | .unregister uid => return e.unregisterStream uid
  | .append order bytes => return (← appendPackets order e bytes).2
  | .take order uid => return (← nextAccessUnit order e uid).2
  | .flush => return e.flush

section
variable {e : MediaEngine}

/-- A call reads inside what is staged only, and leaves the offset there. -/
theorem DemuxCall.run_spec (h : e.encodedOffset ≤ e.encoded.length) (call : DemuxCall) :
    ∃ e', call.run e = .ok e' ∧ e'.encodedOffset ≤ e'.encoded.length := by
  cases call with
  | register type channel => exact ⟨_, rfl, h⟩
  | unregister uid => exact ⟨_, rfl, h⟩
  | append order bytes =>
    rw [run, appendPackets_eq order h, ok_bind]
    refine ⟨_, rfl, ?_⟩
    cases happend : e.appendPackets order bytes with
    | none => exact h
    | some e' => exact encodedOffset_appendPackets h happend
  | take order uid =>
    rw [run, nextAccessUnit]
    cases e.findStream uid with
    | none => exact ⟨e, rfl, h⟩
    | some stream =>
      cases hfound : e.units.find? stream.takes with
      | none => exact ⟨e, by simp only [hfound]; rfl, h⟩
      | some item =>
        have htaken : (e.takeUnit stream item.2).encodedOffset ≤ (e.takeUnit stream item.2).encoded.length := by
          rw [MediaEngine.takeUnit]
          split
          · exact h
          · exact h
          · exact h
        refine ⟨_, ?_, encodedOffset_demux order (e.takeUnit stream item.2)⟩
        simp only [hfound, demux_eq order htaken, ok_bind]
        rfl
  | flush => exact ⟨_, rfl, Nat.le_refl 0⟩

theorem run_spec (h : e.encodedOffset ≤ e.encoded.length) (calls : List DemuxCall) :
    ∃ e', calls.foldlM DemuxCall.run e = .ok e' ∧ e'.encodedOffset ≤ e'.encoded.length := by
  induction calls generalizing e with
  | nil => exact ⟨e, rfl, h⟩
  | cons call calls ih =>
    obtain ⟨next, hnext, hoffset⟩ := call.run_spec h
    rw [List.foldlM_cons, hnext, ok_bind]
    exact ih hoffset

/-- Whatever was appended and in whatever pieces, between whatever other calls: every read was inside what was
staged, the offset is, and of a further append that is rejected nothing is to be seen. A PES header, of any packet, is
read inside the packet and ends in it. -/
theorem demux_safe (requestedCapacity : Nat) (calls : List DemuxCall) :
    (∃ e, calls.foldlM DemuxCall.run (MediaEngine.create requestedCapacity) = .ok e ∧
      e.encodedOffset ≤ e.encoded.length ∧
      ∀ order bytes, ∃ accepted e', appendPackets order e bytes = .ok (accepted, e') ∧
        e'.encodedOffset ≤ e'.encoded.length ∧ (accepted = false → e' = e)) ∧
    ∀ packet privateStream, ∃ found, parsePesHeader packet privateStream = .ok found ∧
      ∀ header ∈ found, header.payloadOffset ≤ packet.length := by
  refine ⟨?_, fun packet privateStream => ⟨_, parsePesHeader_eq packet privateStream, fun header h => parsePesHeader_le h⟩⟩
  obtain ⟨e, hrun, hoffset⟩ := run_spec (e := MediaEngine.create requestedCapacity) (Nat.le_refl 0) calls
  refine ⟨e, hrun, hoffset, fun order bytes => ⟨_, _, appendPackets_eq order hoffset bytes, ?_, ?_⟩⟩
  · cases happend : e.appendPackets order bytes with
    | none => exact hoffset
    | some e' => exact encodedOffset_appendPackets hoffset happend
  · intro hrejected
    rw [Option.isSome_eq_false_iff, Option.isNone_iff_eq_none] at hrejected
    rw [hrejected]
    rfl

end

end MediaReads

end Psprism
