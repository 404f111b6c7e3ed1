import Psprism.Lib.Framing
import Psprism.Reloc

/-!
# The MPEG demuxer (`mpeg/media_engine.cpp`)

`append_packets` takes the bytes that the guest's ring buffer received, and `demux` cuts them: the stream
into PES packets, the payloads of the video packets into access units at their delimiters, and those of the
audio packets into frames, with a staging buffer for the video and one for each audio channel. Of each kind
at most 64 units are queued; `next_access_unit` takes one out and demuxes again. The decoders are left out.

A vector that is cut from the front is a list. A `while` loop that pushes a unit as long as fewer than 64 are
queued is a recursion on the room that is left, which falls by one with each unit.
-/

namespace Psprism
open Framing

inductive StreamKind
  | video | audio | other
deriving DecidableEq, Repr

structure MediaAccessUnit where
  bytes : List Byte
  pts : Int := -1
  dts : Int := -1
  sourceBytes : Word := 0
  channel : Byte := 0
  channels : Byte := 2
deriving DecidableEq, Repr

def maximumAccessUnitsPerKind : Nat := 64

def byteAt (bytes : List Byte) (index : Nat) : Byte := bytes.getD index 0

def readBe16 (bytes : List Byte) (index : Nat) : Nat :=
  (byteAt bytes index).toNat <<< 8 ||| (byteAt bytes (index + 1)).toNat

def readTimestamp (bytes : List Byte) (index : Nat) : Int :=
  ((byteAt bytes index &&& 0x0e).toNat <<< 29 ||| (readBe16 bytes (index + 1) >>> 1) <<< 15 |||
    readBe16 bytes (index + 3) >>> 1 : Nat)

/-! ### PES headers -/

structure ParsedPes where
  payloadOffset : Nat := 0
  pts : Int := -1
  dts : Int := -1
  channel : Byte := 0

/-- The first part of `parse_pes_header`, up to the private-stream fields. -/
def parsePesTimestamps (packet : List Byte) : Option ParsedPes :=
  if packet.length < 9 then none
  else if byteAt packet 6 &&& 0xc0 = 0x80 then
    let flags := byteAt packet 7
    let headerSize := (byteAt packet 8).toNat
    if 9 + headerSize > packet.length then none
    else if flags &&& 0x80 ≠ 0 ∧ 5 ≤ headerSize then
      let pts := readTimestamp packet 9
      let dts := if flags &&& 0x40 ≠ 0 ∧ 10 ≤ headerSize then readTimestamp packet 14 else pts
      some { payloadOffset := 9 + headerSize, pts, dts }
    else some { payloadOffset := 9 + headerSize }
  else
    let cursor := 6 + ((packet.drop 6).takeWhile (· == 0xff)).length
    if cursor ≥ packet.length then none
    else if byteAt packet cursor &&& 0xe0 = 0x20 then
      if cursor + 5 > packet.length then none
      else
        let pts := readTimestamp packet cursor
        some { payloadOffset := cursor + 5, pts, dts := pts }
    else if byteAt packet cursor = 0x0f then some { payloadOffset := cursor + 1 }
    else some { payloadOffset := cursor }

def parsePesHeader (packet : List Byte) (privateStream : Bool) : Option ParsedPes :=
  match parsePesTimestamps packet with
  | none => none
  | some header =>
    if !privateStream then some header
    else if header.payloadOffset + 4 > packet.length then none
    else
      let channel := byteAt packet header.payloadOffset
      let cursor := header.payloadOffset + 4
      if 0xb0 ≤ channel ∧ channel ≤ 0xbf then
        if cursor ≥ packet.length then none else some { header with channel, payloadOffset := cursor + 1 }
      else some { header with channel, payloadOffset := cursor }

/-! ### Delimiters -/

/-- An access-unit delimiter, with a start code of three bytes or of four. -/
def isVideoAud : List Byte → Bool
  | b0 :: b1 :: b2 :: b3 :: bytes =>
    b0 == 0 && b1 == 0 &&
      (b2 == 1 && b3 &&& 0x1f == 9 || b2 == 0 && b3 == 1 && !bytes.isEmpty && byteAt bytes 0 &&& 0x1f == 9)
  | _ => false

def findVideoAud (bytes : List Byte) (start : Nat) : Option Nat :=
  (search isVideoAud (bytes.drop start)).map (· + start)

def isAudioHeader : List Byte → Bool
  | b0 :: b1 :: _ => b0 == 0x0f && b1 == 0xd0
  | _ => false

/-- The start code of a packet. It is looked at only when its fourth byte is there. -/
def isStartCode : List Byte → Bool
  | b0 :: b1 :: b2 :: _ :: _ => b0 == 0 && b1 == 0 && b2 == 1
  | _ => false

def normalizedAudioChannel (channel : Byte) : Byte :=
  if 0x90 ≤ channel ∧ channel ≤ 0x9f then channel &&& 0x0f else channel

/-- The size of an audio frame from the two code bytes after its header. The source's check against 8 and
8192 never fires (`frameSize_range`). -/
def frameSize (frame : List Byte) : Nat :=
  (((byteAt frame 2 &&& 3).toNat <<< 8) ||| (byteAt frame 3).toNat * 8) + 16

/-- A delimiter, the bytes up to the next one, and what is left from there on. -/
def nextVideoUnit (remaining : List Byte) : Option (List Byte × List Byte) :=
  (findVideoAud remaining 4).map fun next => (remaining.take next, remaining.drop next)

/-- The first audio frame, when it is complete, and what follows it. -/
def nextAudioFrame (bytes : List Byte) : Option (List Byte × List Byte) :=
  match search isAudioHeader bytes with
  | none => none
  | some skip =>
    let remaining := bytes.drop skip
    if remaining.length < 4 then none
    else
      let size := frameSize remaining
      if remaining.length < size then none else some (remaining.take size, remaining.drop size)

/-- What is kept for the next packet where no frame is taken: from the next header on, or the first half of
one. A single byte is kept whatever it is. -/
def awaitingFrame (bytes : List Byte) : List Byte :=
  match search isAudioHeader bytes with
  | some skip => bytes.drop skip
  | none =>
    if 1 < bytes.length then
      if bytes.getLast? = some 0x0f then bytes.drop (bytes.length - 1) else []
    else bytes

/-- A PES packet from its start code on, or a pack header, which carries no data. -/
structure PesPacket where
  code : Byte
  bytes : List Byte
deriving DecidableEq

def isVideoCode (code : Byte) : Bool := 0xe0 ≤ code && code ≤ 0xef
def isAudioCode (code : Byte) : Bool := code == 0xbd

/-- The size of the packet that starts here, once its header tells. One that gives no length ends at the
start code after it. -/
def packetSize (remaining : List Byte) : Option Nat :=
  if remaining.length < 6 then none
  else if byteAt remaining 3 = 0xba then
    if remaining.length < 14 then none else some (14 + (byteAt remaining 13 &&& 7).toNat)
  else
    let payloadSize := readBe16 remaining 4
    if payloadSize = 0 then (search isStartCode (remaining.drop 6)).map (6 + ·) else some (6 + payloadSize)

/-- The packet at the next start code, when it is complete, and what follows it. -/
def nextPacket (encoded : List Byte) : Option (PesPacket × List Byte) :=
  match search isStartCode encoded with
  | none => none
  | some skip =>
    let remaining := encoded.drop skip
    match packetSize remaining with
    | none => none
    | some size =>
      if remaining.length < size then none
      else some (⟨byteAt remaining 3, remaining.take size⟩, remaining.drop size)

/-! ### The engine -/

/-- A unit that is cut from the staged video bytes. -/
def stagedVideoUnit (pts : Int) (bytes : List Byte) : MediaAccessUnit :=
  { bytes, pts, dts := pts, sourceBytes := BitVec.ofNat 32 bytes.length }

def audioUnit (channel : Byte) (pts : Int) (frame : List Byte) : MediaAccessUnit :=
  { bytes := frame.drop 8, pts, dts := pts
    sourceBytes := BitVec.ofNat 32 frame.length
    channel := normalizedAudioChannel channel
    channels := if byteAt frame 2 = 0x24 then 1 else 2 }

/-- The date of the unit after one, when there is a date. -/
def datePlus (period pts : Int) : Int := if pts ≥ 0 then pts + period else pts

structure MediaStream where
  kind : StreamKind
  channel : Word
deriving DecidableEq

/-- The units that a stream takes. -/
def MediaStream.takes (stream : MediaStream) (item : StreamKind × MediaAccessUnit) : Bool :=
  item.1 == stream.kind && (item.1 != .audio || item.2.channel.setWidth 32 == stream.channel)

structure AudioStaging where
  bytes : List Byte := []
  nextPts : Int := -1
deriving DecidableEq

/-- A payload is added, and its packet dates the buffer if that is empty. -/
def AudioStaging.add (staging : AudioStaging) (pts : Int) (payload : List Byte) : AudioStaging :=
  { bytes := staging.bytes ++ payload
    nextPts := if staging.bytes.isEmpty ∧ pts ≥ 0 then pts else staging.nextPts }

/-- The order in which an `unordered_map` with these keys is gone through. -/
structure HashOrder where
  keys : List Byte → List Byte
  perm : ∀ l, (keys l).Perm l

/-- The keys in the order in which they were inserted. -/
def HashOrder.insertion : HashOrder := ⟨id, fun l => List.Perm.refl l⟩

/-- `MediaEngine::Implementation`. The map `audio_staging` has the keys `stagedChannels`; elsewhere it holds
what `operator[]` would put there. -/
structure MediaEngine where
  capacity : Nat
  encoded : List Byte := []
  encodedOffset : Nat := 0
  videoBytes : List Byte := []
  stagedChannels : List Byte := []
  audioStaging : Byte → AudioStaging := fun _ => {}
  units : List (StreamKind × MediaAccessUnit) := []
  streams : List (Word × MediaStream) := []
  nextStream : Word := 1
  pendingVideo : Option MediaAccessUnit := none
  pendingAudio : Option MediaAccessUnit := none
  videoNextPts : Int := -1
  lastVideoPts : Int := -1
  lastAudioPts : Int := -1

namespace MediaEngine

def create (requestedCapacity : Nat) : MediaEngine := { capacity := max requestedCapacity 2048 }

def registerStream (e : MediaEngine) (type channel : Word) : Word × MediaEngine :=
  let uid := e.nextStream
  let kind := if type = 0 then .video else if type = 1 ∨ type = 15 then .audio else .other
  let streams :=
    if e.streams.any (·.1 == uid) then e.streams else e.streams ++ [(uid, ⟨kind, channel⟩)]
  (uid, { e with nextStream := uid + 1, streams })

/-- A stream that was registered under the identifier. -/
def findStream (e : MediaEngine) (uid : Word) : Option MediaStream :=
  (e.streams.find? (·.1 == uid)).map (·.2)

def unitCount (e : MediaEngine) (kind : StreamKind) : Nat := e.units.countP (·.1 == kind)

/-- How many units the queue still takes. -/
def room (e : MediaEngine) (kind : StreamKind) : Nat := maximumAccessUnitsPerKind - e.unitCount kind

def audioChannelRegistered (e : MediaEngine) (channel : Byte) : Bool :=
  let normalized := normalizedAudioChannel channel
  e.streams.any fun item => item.2.kind == .audio && item.2.channel == normalized.setWidth 32

def audioStagingSize (e : MediaEngine) : Nat :=
  (e.stagedChannels.map fun channel => (e.audioStaging channel).bytes.length).sum

def queuedBytes (e : MediaEngine) : Nat := (e.units.map fun item => item.2.sourceBytes.toNat).sum

def bufferedBytes (e : MediaEngine) : Nat :=
  (e.encoded.length - e.encodedOffset) + e.videoBytes.length + e.audioStagingSize + e.queuedBytes

def setStaging (e : MediaEngine) (channel : Byte) (staging : AudioStaging) : MediaEngine :=
  { e with audioStaging := Function.update e.audioStaging channel staging }

/-- `units.push_back` of a video unit cut from the staged bytes. -/
def pushVideoUnit (e : MediaEngine) (bytes : List Byte) : MediaEngine :=
  { e with
    lastVideoPts := e.videoNextPts
    units := e.units ++ [(.video, stagedVideoUnit e.videoNextPts bytes)]
    videoNextPts := datePlus 3003 e.videoNextPts }

def cutVideoUnits : Nat → MediaEngine → List Byte → MediaEngine × List Byte
  | 0, e, remaining => (e, remaining)
  | room + 1, e, remaining =>
    match nextVideoUnit remaining with
    | none => (e, remaining)
    | some (unit, rest) => cutVideoUnits room (e.pushVideoUnit unit) rest

def extractVideoAccessUnits (e : MediaEngine) : MediaEngine :=
  match findVideoAud e.videoBytes 0 with
  | none =>
    if 4 < e.videoBytes.length then { e with videoBytes := e.videoBytes.drop (e.videoBytes.length - 4) } else e
  | some first =>
    let (cut, remaining) := cutVideoUnits (e.room .video) e (e.videoBytes.drop first)
    { cut with videoBytes := remaining }

/-- `units.push_back` of the payload of an audio frame. -/
def pushAudioUnit (e : MediaEngine) (channel : Byte) (frame : List Byte) : MediaEngine :=
  let staging := e.audioStaging channel
  { e.setStaging channel { staging with nextPts := datePlus 4180 staging.nextPts } with
    lastAudioPts := staging.nextPts
    units := e.units ++ [(.audio, audioUnit channel staging.nextPts frame)] }

def cutAudioFrames (channel : Byte) : Nat → MediaEngine → List Byte → MediaEngine × List Byte
  | 0, e, bytes => (e, awaitingFrame bytes)
  | room + 1, e, bytes =>
    match nextAudioFrame bytes with
    | none => (e, awaitingFrame bytes)
    | some (frame, rest) => cutAudioFrames channel room (e.pushAudioUnit channel frame) rest

def extractAudioFrames (e : MediaEngine) (channel : Byte) : MediaEngine :=
  let (cut, remaining) := cutAudioFrames channel (e.room .audio) e (e.audioStaging channel).bytes
  cut.setStaging channel { cut.audioStaging channel with bytes := remaining }

def stageAudio (e : MediaEngine) (channel : Byte) (pts : Int) (payload : List Byte) : MediaEngine :=
  { e.setStaging channel ((e.audioStaging channel).add pts payload) with
    stagedChannels :=
      if channel ∈ e.stagedChannels then e.stagedChannels else e.stagedChannels ++ [channel] }

def queueAudio (e : MediaEngine) (channel : Byte) (pts : Int) (payload : List Byte) : MediaEngine :=
  if !e.audioChannelRegistered channel then e else (e.stageAudio channel pts payload).extractAudioFrames channel

def stageVideo (e : MediaEngine) (pts : Int) (payload : List Byte) : MediaEngine :=
  { e with
    videoNextPts := if e.videoNextPts < 0 ∧ pts ≥ 0 then pts else e.videoNextPts
    videoBytes := e.videoBytes ++ payload }

/-- Before the first delimiter each payload is a unit of its own. -/
def queueVideo (e : MediaEngine) (header : ParsedPes) (packetSize : Nat) (payload : List Byte) : MediaEngine :=
  if e.videoBytes.isEmpty ∧ findVideoAud payload 0 = none then
    let unit : MediaAccessUnit :=
      { bytes := payload, pts := header.pts, dts := header.dts, sourceBytes := BitVec.ofNat 32 packetSize }
    { e with units := e.units ++ [(.video, unit)] }
  else (e.stageVideo header.pts payload).extractVideoAccessUnits

/-- `none` when the packet has to wait, which is decided before anything happens. -/
def queuePacket (e : MediaEngine) (p : PesPacket) : Option MediaEngine :=
  let video := isVideoCode p.code
  let audio := isAudioCode p.code
  if !video && !audio || p.bytes.isEmpty then some e
  else if video && maximumAccessUnitsPerKind ≤ e.unitCount .video then none
  else
    match parsePesHeader p.bytes audio with
    | none => some e
    | some header =>
      if p.bytes.length ≤ header.payloadOffset then some e
      else
        let payload := p.bytes.drop header.payloadOffset
        if audio then some (e.queueAudio (normalizedAudioChannel header.channel) header.pts payload)
        else some (e.queueVideo header p.bytes.length payload)

def demuxPackets : Nat → MediaEngine → List Byte → MediaEngine × List Byte
  | 0, e, remaining => (e, remaining)
  | n + 1, e, remaining =>
    match nextPacket remaining with
    | none => (e, remaining)
    | some (packet, rest) =>
      match e.queuePacket packet with
      | none => (e, remaining)
      | some e => demuxPackets n e rest

/-- The units that were held back in the staging buffers. -/
def extractStaged (order : HashOrder) (e : MediaEngine) : MediaEngine :=
  (order.keys e.stagedChannels).foldl
    (fun e channel => if (e.audioStaging channel).bytes.isEmpty then e else e.extractAudioFrames channel)
    e.extractVideoAccessUnits

def demux (order : HashOrder) (e : MediaEngine) : MediaEngine :=
  let active := e.encoded.drop e.encodedOffset
  let (queued, remaining) := demuxPackets active.length (e.extractStaged order) active
  if remaining.isEmpty then { queued with encoded := [], encodedOffset := 0 }
  else { queued with encodedOffset := e.encoded.length - remaining.length }

/-- The bytes are added to those that are not cut yet, and what is cut may be dropped. -/
def pushEncoded (e : MediaEngine) (bytes : List Byte) : MediaEngine :=
  if e.encodedOffset > 0 ∧ (e.encodedOffset * 2 ≥ e.encoded.length ∨ e.encodedOffset ≥ 65536) then
    { e with encoded := e.encoded.drop e.encodedOffset ++ bytes, encodedOffset := 0 }
  else { e with encoded := e.encoded ++ bytes }

/-- `none` when the bytes are refused. -/
def appendPackets (order : HashOrder) (e : MediaEngine) (bytes : List Byte) : Option MediaEngine :=
  if bytes.isEmpty then some e
  else if bytes.length > e.capacity ∨ e.bufferedBytes > e.capacity - bytes.length then none
  else some (demux order (e.pushEncoded bytes))

/-- The unit, with its kind, is out of the queue and pending. -/
def takeUnit (e : MediaEngine) (stream : MediaStream) (unit : MediaAccessUnit) : MediaEngine :=
  let units := e.units.eraseP stream.takes
  match stream.kind with
  | .video =>
    { e with
      units, pendingVideo := some unit
      lastVideoPts := if unit.pts ≥ 0 then unit.pts else e.lastVideoPts }
  | .audio =>
    { e with
      units, pendingAudio := some unit
      lastAudioPts := if unit.pts ≥ 0 then unit.pts else e.lastAudioPts }
  | .other => { e with units }

def nextAccessUnit (order : HashOrder) (e : MediaEngine) (uid : Word) :
    Option MediaAccessUnit × MediaEngine :=
  match e.findStream uid with
  | none => (none, e)
  | some stream =>
    match e.units.find? stream.takes with
    | none => (none, e)
    | some item => (some item.2, demux order (e.takeUnit stream item.2))

/-- With no unit queued the bytes that are staged do not count. -/
def packetsInUse (e : MediaEngine) (packetSize : Nat) : Nat :=
  if packetSize = 0 then 0
  else if e.units.isEmpty then 0
  else (e.bufferedBytes + packetSize - 1) / packetSize

end MediaEngine

end Psprism
