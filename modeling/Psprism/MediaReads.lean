import Psprism.BufferReads
import Psprism.MediaDelivery

/-!
# What the demuxer reads (`mpeg/media_engine.cpp`)

The parsers of the demuxer with their reads and their cursors: `demux` goes through the staged bytes by index, and
each byte, each span and each copy is checked against the vector it is taken from. The loops end because the cursor
moves. No read goes outside, and what is found is what the parsers on lists find; a payload begins in its packet or
where that ends (`parsePesHeader_le`).

The bytes of a condition are all read before it is decided.
-/

namespace Psprism
open CheckedReads Framing

namespace MediaReads

/-- Nothing of the demuxer fails but a read. -/
abbrev Demux := Checked Empty

/-- What follows an offset, which may be the end. -/
def subspan (bytes : List Byte) (offset : Nat) : Demux (List Byte) := slice bytes offset (bytes.length - offset)

def readBe16 (bytes : List Byte) (index : Nat) : Demux Nat :=
  return Psprism.readBe16 (← slice bytes index 2) 0

def readTimestamp (bytes : List Byte) (index : Nat) : Demux Int :=
  return Psprism.readTimestamp (← slice bytes index 5) 0

/-! ### PES headers -/

/-- The first byte that is no stuffing. -/
def skipStuffing (packet : List Byte) (cursor : Nat) : Demux Nat :=
  if cursor < packet.length then do
    if (← cell packet cursor) == 0xff then skipStuffing packet (cursor + 1) else return cursor
  else return cursor
termination_by packet.length - cursor

def parsePesTimestamps (packet : List Byte) : Demux (Option ParsedPes) :=
  if packet.length < 9 then return none
  else do
    let first ← cell packet 6
    if first &&& 0xc0 = 0x80 then
      let flags ← cell packet 7
      let size ← cell packet 8
      let headerSize := size.toNat
      if 9 + headerSize > packet.length then return none
      else if flags &&& 0x80 ≠ 0 ∧ 5 ≤ headerSize then
        let pts ← readTimestamp packet 9
        let dts ← if flags &&& 0x40 ≠ 0 ∧ 10 ≤ headerSize then readTimestamp packet 14 else pure pts
        return some { payloadOffset := 9 + headerSize, pts, dts }
      else return some { payloadOffset := 9 + headerSize }
    else
      let cursor ← skipStuffing packet 6
      if cursor ≥ packet.length then return none
      else
        let mark ← cell packet cursor
        if mark &&& 0xe0 = 0x20 then
          if cursor + 5 > packet.length then return none
          else
            let pts ← readTimestamp packet cursor
            return some { payloadOffset := cursor + 5, pts, dts := pts }
        else if mark = 0x0f then return some { payloadOffset := cursor + 1 }
        else return some { payloadOffset := cursor }

def parsePesHeader (packet : List Byte) (privateStream : Bool) : Demux (Option ParsedPes) := do
  match ← parsePesTimestamps packet with
  | none => return none
  | some header =>
    if !privateStream then return some header
    else if header.payloadOffset + 4 > packet.length then return none
    else
      let channel ← cell packet header.payloadOffset
      let cursor := header.payloadOffset + 4
      if 0xb0 ≤ channel ∧ channel ≤ 0xbf then
        if cursor ≥ packet.length then return none
        else return some { header with channel, payloadOffset := cursor + 1 }
      else return some { header with channel, payloadOffset := cursor }

section
variable {bytes packet : List Byte} {cursor index offset : Nat}

theorem cell_byteAt (h : index < bytes.length) : (cell bytes index : Demux Byte) = .ok (byteAt bytes index) := by
  rw [cell_eq h, byteAt, List.getD_eq_getElem _ _ h]

theorem subspan_eq (h : offset ≤ bytes.length) : subspan bytes offset = .ok (bytes.drop offset) := by
  rw [subspan, slice_eq (by omega), List.take_of_length_le (by rw [List.length_drop])]

theorem byteAt_slice {n i : Nat} (hi : i < n) : byteAt ((bytes.drop index).take n) i = byteAt bytes (index + i) :=
  getD_slice hi

theorem readBe16_eq (h : index + 2 ≤ bytes.length) :
    readBe16 bytes index = .ok (Psprism.readBe16 bytes index) := by
  rw [readBe16, slice_eq h, ok_bind, Psprism.readBe16, byteAt_slice (by decide), byteAt_slice (by decide)]
  rfl

theorem readTimestamp_eq (h : index + 5 ≤ bytes.length) :
    readTimestamp bytes index = .ok (Psprism.readTimestamp bytes index) := by
  rw [readTimestamp, slice_eq h, ok_bind]
  simp only [Psprism.readTimestamp, Psprism.readBe16, byteAt_slice (show 0 < 5 by decide),
    byteAt_slice (show 0 + 1 < 5 by decide), byteAt_slice (show 0 + 1 + 1 < 5 by decide),
    byteAt_slice (show 0 + 3 < 5 by decide), byteAt_slice (show 0 + 3 + 1 < 5 by decide)]
  rfl

theorem skipStuffing_eq (h : cursor ≤ packet.length) :
    skipStuffing packet cursor = .ok (cursor + ((packet.drop cursor).takeWhile (· == 0xff)).length) := by
  induction hn : packet.length - cursor generalizing cursor with
  | zero =>
    rw [skipStuffing, if_neg (by omega), List.drop_eq_nil_of_le (by omega)]
    rfl
  | succ n ih =>
    have hlt : cursor < packet.length := by omega
    rw [skipStuffing, if_pos hlt, cell_eq hlt, ok_bind, List.drop_eq_getElem_cons hlt, List.takeWhile_cons]
    split
    · rw [ih (show cursor + 1 ≤ packet.length from hlt) (by omega), List.length_cons]
      congr 1
      omega
    · rfl

theorem parsePesTimestamps_eq (packet : List Byte) :
    parsePesTimestamps packet = .ok (Psprism.parsePesTimestamps packet) := by
  rw [parsePesTimestamps, Psprism.parsePesTimestamps]
  split
  · rfl
  rw [cell_byteAt (by omega), cell_byteAt (by omega), cell_byteAt (by omega), skipStuffing_eq (by omega)]
  simp only [ok_bind]
  split
  · split
    · rfl
    split
    · next hpts =>
      rw [readTimestamp_eq (by omega), ok_bind]
      split
      · rw [readTimestamp_eq (by omega)]
        rfl
      · rfl
    · rfl
  split
  · rfl
  rw [cell_byteAt (by omega)]
  simp only [ok_bind]
  split
  · split
    · rfl
    · rw [readTimestamp_eq (by omega)]
      rfl
  split
  · rfl
  · rfl

theorem parsePesHeader_eq (packet : List Byte) (privateStream : Bool) :
    parsePesHeader packet privateStream = .ok (Psprism.parsePesHeader packet privateStream) := by
  rw [parsePesHeader, Psprism.parsePesHeader, parsePesTimestamps_eq, ok_bind]
  cases Psprism.parsePesTimestamps packet with
  | none => rfl
  | some header =>
    dsimp only
    split
    · rfl
    split
    · rfl
    rw [cell_byteAt (by omega)]
    simp only [ok_bind]
    split
    · split
      · rfl
      · rfl
    · rfl

/-- The payload begins in the packet, or where the packet ends. -/
theorem parsePesTimestamps_le {header : ParsedPes} (h : Psprism.parsePesTimestamps packet = some header) :
    header.payloadOffset ≤ packet.length := by
  unfold Psprism.parsePesTimestamps at h
  split at h
  · cases h
  split at h
  · dsimp only at h
    rw [Option.ite_none_left_eq_some] at h
    obtain ⟨hsize, h⟩ := h
    split at h
    · obtain rfl := Option.some.inj h
      exact Nat.le_of_not_lt hsize
    · obtain rfl := Option.some.inj h
      exact Nat.le_of_not_lt hsize
  · dsimp only at h
    rw [Option.ite_none_left_eq_some] at h
    obtain ⟨hcursor, h⟩ := h
    split at h
    · rw [Option.ite_none_left_eq_some] at h
      obtain ⟨hroom, h⟩ := h
      obtain rfl := Option.some.inj h
      exact Nat.le_of_not_lt hroom
    split at h
    · obtain rfl := Option.some.inj h
      exact Nat.lt_of_not_le hcursor
    · obtain rfl := Option.some.inj h
      exact Nat.le_of_not_le hcursor

theorem parsePesHeader_le {privateStream : Bool} {header : ParsedPes}
    (h : Psprism.parsePesHeader packet privateStream = some header) : header.payloadOffset ≤ packet.length := by
  unfold Psprism.parsePesHeader at h
  split at h
  · cases h
  next first hfirst =>
  split at h
  · obtain rfl := Option.some.inj h
    exact parsePesTimestamps_le hfirst
  rw [Option.ite_none_left_eq_some] at h
  obtain ⟨hroom, h⟩ := h
  dsimp only at h
  split at h
  · rw [Option.ite_none_left_eq_some] at h
    obtain ⟨hcursor, h⟩ := h
    obtain rfl := Option.some.inj h
    exact Nat.lt_of_not_le hcursor
  · obtain rfl := Option.some.inj h
    exact Nat.le_of_not_lt hroom

end

/-! ### Delimiters -/

/-- Whether an access-unit delimiter is at the index, behind which there are three bytes at least. -/
def videoAudAt (bytes : List Byte) (index : Nat) : Demux Bool := do
  let b0 ← cell bytes index
  let b1 ← cell bytes (index + 1)
  let b2 ← cell bytes (index + 2)
  let b3 ← cell bytes (index + 3)
  if b0 ≠ 0 ∨ b1 ≠ 0 then return false
  else if b2 = 1 ∧ b3 &&& 0x1f = 9 then return true
  else if index + 4 < bytes.length then
    let b4 ← cell bytes (index + 4)
    return b2 == 0 && b3 == 1 && b4 &&& 0x1f == 9
  else return false

def findVideoAud (bytes : List Byte) (index : Nat) : Demux (Option Nat) :=
  if index + 3 < bytes.length then do
    if ← videoAudAt bytes index then return some index else findVideoAud bytes (index + 1)
  else return none
termination_by bytes.length - index

def startCodeAt (bytes : List Byte) (index : Nat) : Demux Bool := do
  let b0 ← cell bytes index
  let b1 ← cell bytes (index + 1)
  let b2 ← cell bytes (index + 2)
  return b0 == 0 && b1 == 0 && b2 == 1

/-- Where the search for a start code stops: at one, or three bytes before the end. -/
def startCode (bytes : List Byte) (cursor : Nat) : Demux Nat :=
  if cursor + 3 < bytes.length then do
    if ← startCodeAt bytes cursor then return cursor else startCode bytes (cursor + 1)
  else return cursor
termination_by bytes.length - cursor

section
variable {bytes : List Byte} {cursor index : Nat}

/-- Four bytes from an index on. -/
theorem drop_eq_four (h : index + 3 < bytes.length) : bytes.drop index =
    byteAt bytes index :: byteAt bytes (index + 1) :: byteAt bytes (index + 2) :: byteAt bytes (index + 3) ::
      bytes.drop (index + 4) := by
  have hcons (i : Nat) (hi : i < bytes.length) : bytes.drop i = byteAt bytes i :: bytes.drop (i + 1) := by
    rw [List.drop_eq_getElem_cons hi, byteAt, List.getD_eq_getElem _ _ hi]
  rw [hcons index (by omega), hcons (index + 1) (by omega), hcons (index + 2) (by omega), hcons (index + 3) h]

theorem videoAudAt_eq (h : index + 3 < bytes.length) :
    videoAudAt bytes index = .ok (isVideoAud (bytes.drop index)) := by
  have hempty : (bytes.drop (index + 4)).isEmpty = !decide (index + 4 < bytes.length) := by
    rw [Bool.eq_iff_iff, List.isEmpty_iff, List.drop_eq_nil_iff]
    simp
  have hfifth : byteAt (bytes.drop (index + 4)) 0 = byteAt bytes (index + 4) := by
    simp [byteAt]
  rw [videoAudAt, drop_eq_four h, cell_byteAt (by omega), cell_byteAt (by omega), cell_byteAt (by omega), cell_byteAt h]
  simp only [ok_bind, isVideoAud, hempty, hfifth, Bool.not_not]
  split
  · next hne =>
    have hzero : (byteAt bytes index == 0 && byteAt bytes (index + 1) == 0) = false := by
      rcases hne with hne | hne
      · rw [beq_eq_false_iff_ne.2 hne, Bool.false_and]
      · rw [beq_eq_false_iff_ne.2 hne, Bool.and_false]
    rw [hzero, Bool.false_and]
    rfl
  next hzero =>
  simp only [ne_eq, not_or, not_not] at hzero
  simp only [hzero.1, hzero.2, beq_self_eq_true, Bool.true_and]
  split
  · next hthree =>
    simp only [hthree.1, hthree.2, beq_self_eq_true, Bool.and_self, Bool.true_or]
    rfl
  next hthree =>
  have hthree' : (byteAt bytes (index + 2) == 1 && byteAt bytes (index + 3) &&& 0x1f == 9) = false := by
    simpa using hthree
  rw [hthree', Bool.false_or]
  split
  · next hroom =>
    rw [cell_byteAt hroom]
    exact congrArg Except.ok (by simp [hroom])
  · next hroom => exact congrArg Except.ok (by simp [hroom])

theorem findVideoAud_eq (bytes : List Byte) (index : Nat) :
    findVideoAud bytes index = .ok (Psprism.findVideoAud bytes index) := by
  induction hn : bytes.length - index generalizing index with
  | zero =>
    rw [findVideoAud, if_neg (by omega), Psprism.findVideoAud, List.drop_eq_nil_of_le (by omega)]
    rfl
  | succ n ih =>
    have hlt : index < bytes.length := by omega
    rw [findVideoAud, Psprism.findVideoAud]
    split
    · next hroom =>
      rw [videoAudAt_eq hroom, ok_bind, search_drop_eq hlt]
      split
      · simp
        rfl
      · rw [ih (index + 1) (by omega), Psprism.findVideoAud, Option.map_map]
        congr 2
        funext i
        exact (Nat.add_right_comm i 1 index).symm
    · rw [search_eq_none_of_short (n := 4) (fun ys hys => Nat.le_of_succ_le_succ (isVideoAud_local.long hys))
        (by rw [List.length_drop]; omega)]
      rfl

theorem startCodeAt_eq (h : index + 3 < bytes.length) :
    startCodeAt bytes index = .ok (isStartCode (bytes.drop index)) := by
  rw [startCodeAt, drop_eq_four h, cell_byteAt (by omega), cell_byteAt (by omega), cell_byteAt (by omega)]
  rfl

theorem isStartCode_long {ys : List Byte} (h : isStartCode ys = true) : 4 ≤ ys.length := by
  match ys, h with
  | b0 :: b1 :: b2 :: b3 :: ys, _ => simp

theorem startCode_eq (bytes : List Byte) (cursor : Nat) : startCode bytes cursor =
    .ok (((search isStartCode (bytes.drop cursor)).map (cursor + ·)).getD (max cursor (bytes.length - 3))) := by
  induction hn : bytes.length - cursor generalizing cursor with
  | zero =>
    rw [startCode, if_neg (by omega), List.drop_eq_nil_of_le (by omega)]
    exact congrArg Except.ok (Nat.max_eq_left (by omega)).symm
  | succ n ih =>
    have hlt : cursor < bytes.length := by omega
    rw [startCode]
    split
    · next hroom =>
      rw [startCodeAt_eq hroom, ok_bind, search_drop_eq hlt]
      split
      · rfl
      · rw [ih (cursor + 1) (by omega), Option.map_map]
        cases search isStartCode (bytes.drop (cursor + 1)) with
        | none => exact congrArg Except.ok (by simp only [Option.map_none, Option.getD_none]; omega)
        | some skip => exact congrArg Except.ok (Nat.add_right_comm ..)
    · rw [search_eq_none_of_short (fun ys => isStartCode_long) (by rw [List.length_drop]; omega)]
      exact congrArg Except.ok (Nat.max_eq_left (by omega)).symm

end

/-! ### Packets -/

/-- Where a packet lies in the staged bytes. -/
structure PacketRange where
  start : Nat
  stop : Nat
  code : Byte

def PacketRange.packet (encoded : List Byte) (range : PacketRange) : PesPacket :=
  ⟨range.code, (encoded.drop range.start).take (range.stop - range.start)⟩

/-- The packet at a start code, or the pack header, once all of it is there. -/
def packetAt (encoded : List Byte) (start : Nat) : Demux (Option PacketRange) :=
  if start + 6 > encoded.length then return none
  else do
    let code ← cell encoded (start + 3)
    if code = 0xba then
      if start + 14 > encoded.length then return none
      else
        let stuffing ← cell encoded (start + 13)
        let stop := start + (14 + (stuffing &&& 7).toNat)
        if stop > encoded.length then return none else return some ⟨start, stop, code⟩
    else
      let payloadSize ← readBe16 encoded (start + 4)
      if payloadSize = 0 then
        let next ← startCode encoded (start + 6)
        if next + 3 ≥ encoded.length then return none else return some ⟨start, next, code⟩
      else
        let stop := start + 6 + payloadSize
        if stop > encoded.length then return none else return some ⟨start, stop, code⟩

/-- A turn of the loop of `demux`, up to the queueing. -/
def packetRange (encoded : List Byte) (cursor : Nat) : Demux (Option PacketRange) :=
  if cursor + 6 ≤ encoded.length then do packetAt encoded (← startCode encoded cursor) else return none

section
variable {encoded : List Byte} {range : PacketRange} {cursor start : Nat}

theorem byteAt_drop (bytes : List Byte) (i j : Nat) : byteAt (bytes.drop i) j = byteAt bytes (i + j) := by
  simp [byteAt]

theorem readBe16_drop (bytes : List Byte) (i j : Nat) :
    Psprism.readBe16 (bytes.drop i) j = Psprism.readBe16 bytes (i + j) := by
  rw [Psprism.readBe16, Psprism.readBe16, byteAt_drop, byteAt_drop, Nat.add_assoc]

theorem packetAt_eq (encoded : List Byte) (start : Nat) : packetAt encoded start =
    .ok ((packetSize (encoded.drop start)).bind fun size =>
      if encoded.length < start + size then none else some ⟨start, start + size, byteAt encoded (start + 3)⟩) := by
  rw [packetAt, packetSize, List.length_drop, byteAt_drop, byteAt_drop, readBe16_drop]
  by_cases hsix : start + 6 > encoded.length
  · rw [if_pos hsix, if_pos (by omega)]
    rfl
  rw [if_neg hsix, if_neg (by omega), cell_byteAt (by omega), readBe16_eq (by omega)]
  simp only [ok_bind]
  split
  · by_cases hpack : start + 14 > encoded.length
    · rw [if_pos hpack, if_pos (by omega)]
      rfl
    · rw [if_neg hpack, if_neg (by omega), cell_byteAt (by omega), ok_bind, Option.bind_some]
      exact (apply_ite Except.ok ..).symm
  split
  · rw [startCode_eq, List.drop_drop, ok_bind]
    cases hs : search isStartCode (encoded.drop (start + 6)) with
    | none =>
      simp only [Option.map_none, Option.getD_none, Option.bind_none]
      rw [if_pos (by omega)]
      rfl
    | some skip =>
      have hlong := isStartCode_long (search_some hs).2
      rw [List.length_drop, List.length_drop] at hlong
      simp only [Option.map_some, Option.getD_some, Option.bind_some]
      rw [if_neg (by omega), if_neg (by omega), Nat.add_assoc]
      rfl
  · rw [Option.bind_some, ← Nat.add_assoc]
    exact (apply_ite Except.ok ..).symm

theorem packetRange_eq (encoded : List Byte) (cursor : Nat) : packetRange encoded cursor =
    .ok ((search isStartCode (encoded.drop cursor)).bind fun skip =>
      (packetSize (encoded.drop (cursor + skip))).bind fun size =>
        if encoded.length < cursor + skip + size then none
        else some ⟨cursor + skip, cursor + skip + size, byteAt encoded (cursor + skip + 3)⟩) := by
  have hshort {start : Nat} (h : encoded.length < start + 6) : packetSize (encoded.drop start) = none := by
    rw [packetSize, if_pos (by rw [List.length_drop]; omega)]
  rw [packetRange]
  split
  · rw [startCode_eq, ok_bind, packetAt_eq]
    cases search isStartCode (encoded.drop cursor) with
    | none => rw [hshort (by simp only [Option.map_none, Option.getD_none]; omega)]; rfl
    | some skip => rfl
  · cases search isStartCode (encoded.drop cursor) with
    | none => rfl
    | some skip => rw [Option.bind_some, hshort (by omega)]; rfl

/-- The loop finds the next packet, and gets on. -/
theorem nextPacket_drop (encoded : List Byte) (cursor : Nat) :
    ∃ found, packetRange encoded cursor = .ok found ∧
      nextPacket (encoded.drop cursor) = found.map fun range => (range.packet encoded, encoded.drop range.stop) := by
  refine ⟨_, packetRange_eq encoded cursor, ?_⟩
  rw [nextPacket]
  cases search isStartCode (encoded.drop cursor) with
  | none => rfl
  | some skip =>
  simp only [Option.bind_some, List.drop_drop]
  cases hsize : packetSize (encoded.drop (cursor + skip)) with
  | none => rfl
  | some size =>
  have hpos := packetSize_ge hsize
  simp only [Option.bind_some, List.length_drop]
  by_cases hroom : encoded.length < cursor + skip + size
  · rw [if_pos hroom, if_pos (by omega)]
    rfl
  · rw [if_neg hroom, if_neg (by omega), byteAt_drop, Option.map_some, PacketRange.packet, Nat.add_sub_cancel_left]

theorem packetRange_inside (h : packetRange encoded cursor = .ok (some range)) :
    cursor ≤ range.start ∧ range.start + 6 ≤ range.stop ∧ range.stop ≤ encoded.length := by
  rw [packetRange_eq] at h
  obtain ⟨skip, hskip, h⟩ := Option.bind_eq_some_iff.1 (Except.ok.inj h)
  obtain ⟨size, hsize, h⟩ := Option.bind_eq_some_iff.1 h
  rw [Option.ite_none_left_eq_some] at h
  obtain ⟨hroom, h⟩ := h
  obtain rfl := Option.some.inj h
  have := packetSize_ge hsize
  exact ⟨Nat.le_add_right .., Nat.add_le_add_left this _, Nat.le_of_not_lt hroom⟩

end

end MediaReads

end Psprism
