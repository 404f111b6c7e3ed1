import Mathlib.Data.List.GetD
import Psprism.MediaEngine

/-!
# What the demuxer cuts

Packets, video access units and audio frames are framings of the bytes they are cut from, since each of the
delimiters is recognised by a few bytes at its place.
-/

namespace Psprism
open Framing

theorem isVideoAud_local : Local isVideoAud 5 where
  mono := by
    intro xs h ys
    match xs, h with
    | [b0, b1, b2, b3], h => simp_all [isVideoAud]
    | b0 :: b1 :: b2 :: b3 :: b4 :: xs, h => exact h
  long := by
    intro xs h
    match xs, h with
    | b0 :: b1 :: b2 :: b3 :: xs, _ => simp
  decided := by
    intro xs h ys
    match xs, h with
    | b0 :: b1 :: b2 :: b3 :: b4 :: xs, _ => rfl

theorem isAudioHeader_local : Local isAudioHeader 2 where
  mono := by
    intro xs h ys
    match xs, h with
    | b0 :: b1 :: xs, h => exact h
  long := by
    intro xs h
    match xs, h with
    | b0 :: b1 :: xs, _ => simp
  decided := by
    intro xs h ys
    match xs, h with
    | b0 :: b1 :: xs, _ => rfl

theorem isStartCode_local : Local isStartCode 4 where
  mono := by
    intro xs h ys
    match xs, h with
    | b0 :: b1 :: b2 :: b3 :: xs, h => exact h
  long := by
    intro xs h
    match xs, h with
    | b0 :: b1 :: b2 :: b3 :: xs, _ => simp
  decided := by
    intro xs h ys
    match xs, h with
    | b0 :: b1 :: b2 :: b3 :: xs, _ => rfl

section
variable {bytes zs : List Byte} {index : Nat}

theorem byteAt_append (h : index < bytes.length) (zs : List Byte) :
    byteAt (bytes ++ zs) index = byteAt bytes index := List.getD_append _ _ _ _ h

theorem readBe16_append (h : index + 1 < bytes.length) (zs : List Byte) :
    readBe16 (bytes ++ zs) index = readBe16 bytes index := by
  rw [readBe16, readBe16, byteAt_append (Nat.lt_of_succ_lt h), byteAt_append h]

theorem frameSize_append (h : 4 ≤ bytes.length) (zs : List Byte) :
    frameSize (bytes ++ zs) = frameSize bytes := by
  rw [frameSize, frameSize, byteAt_append h, byteAt_append (Nat.lt_of_succ_le (Nat.le_of_succ_le h))]

/-- A frame holds more than its eight header bytes, and never so much that its size would be refused. -/
theorem frameSize_range (bytes : List Byte) : 16 ≤ frameSize bytes ∧ frameSize bytes ≤ 8192 := by
  refine ⟨Nat.le_add_left .., ?_⟩
  have hlo : (byteAt bytes 2 &&& 3).toNat <<< 8 < 2 ^ 12 := by
    have : (byteAt bytes 2).toNat &&& 3 ≤ 3 := Nat.and_le_right
    rw [Nat.shiftLeft_eq, BitVec.toNat_and]
    change ((byteAt bytes 2).toNat &&& 3) * 2 ^ 8 < 2 ^ 12
    omega
  have hhi : (byteAt bytes 3).toNat * 8 < 2 ^ 12 := by
    have := (byteAt bytes 3).isLt
    omega
  have := Nat.or_lt_two_pow hlo hhi
  unfold frameSize
  omega

end

/-! ### The framings -/

theorem take_append_of_length_le {size : Nat} {bytes : List Byte} (h : size ≤ bytes.length) (zs : List Byte) :
    (bytes ++ zs).take size = bytes.take size ∧ (bytes ++ zs).drop size = bytes.drop size ++ zs :=
  ⟨List.take_append_of_le_length h, List.drop_append_of_le_length h⟩

theorem nextVideoUnit_eq_some {bytes u rest : List Byte} :
    nextVideoUnit bytes = some (u, rest) ↔
      ∃ next, search isVideoAud (bytes.drop 4) = some next ∧
        u = bytes.take (next + 4) ∧ rest = bytes.drop (next + 4) := by
  simp only [nextVideoUnit, findVideoAud, Option.map_map, Option.map_eq_some_iff, Function.comp_apply,
    Prod.mk.injEq]
  constructor
  · rintro ⟨next, h, rfl, rfl⟩
    exact ⟨next, h, rfl, rfl⟩
  · rintro ⟨next, h, rfl, rfl⟩
    exact ⟨next, h, rfl, rfl⟩

/-- Access units, from one delimiter to the next. -/
def videoUnits : Framing Byte (List Byte) where
  next := nextVideoUnit
  shorter := by
    intro xs u rest h
    obtain ⟨next, hnext, -, rfl⟩ := nextVideoUnit_eq_some.1 h
    have hlt := (search_some hnext).1
    rw [List.length_drop] at hlt
    rw [List.length_drop]
    omega
  stable := by
    intro xs u rest h ys
    obtain ⟨next, hnext, rfl, rfl⟩ := nextVideoUnit_eq_some.1 h
    have hlt := (search_some hnext).1
    rw [List.length_drop] at hlt
    obtain ⟨htake, hdrop⟩ := take_append_of_length_le (by omega : next + 4 ≤ xs.length) ys
    refine nextVideoUnit_eq_some.2 ⟨next, ?_, htake.symm, hdrop.symm⟩
    rw [List.drop_append_of_le_length (by omega)]
    exact search_append isVideoAud_local hnext ys

theorem nextAudioFrame_eq_some {bytes u rest : List Byte} :
    nextAudioFrame bytes = some (u, rest) ↔
      ∃ skip, search isAudioHeader bytes = some skip ∧ 4 ≤ (bytes.drop skip).length ∧
        frameSize (bytes.drop skip) ≤ (bytes.drop skip).length ∧
        u = (bytes.drop skip).take (frameSize (bytes.drop skip)) ∧
        rest = (bytes.drop skip).drop (frameSize (bytes.drop skip)) := by
  unfold nextAudioFrame
  constructor
  · intro h
    split at h
    · cases h
    · next skip hskip =>
      rw [Option.ite_none_left_eq_some] at h
      obtain ⟨hlong, h⟩ := h
      rw [Option.ite_none_left_eq_some] at h
      obtain ⟨hsize, h⟩ := h
      obtain ⟨rfl, rfl⟩ := Prod.mk.inj (Option.some.inj h)
      exact ⟨skip, hskip, Nat.le_of_not_lt hlong, Nat.le_of_not_lt hsize, rfl, rfl⟩
  · rintro ⟨skip, hskip, hlong, hsize, rfl, rfl⟩
    rw [hskip]
    exact (if_neg (Nat.not_lt.2 hlong)).trans (if_neg (Nat.not_lt.2 hsize))

/-- Audio frames with their headers. -/
def audioFrames : Framing Byte (List Byte) where
  next := nextAudioFrame
  shorter := by
    intro xs u rest h
    obtain ⟨skip, hskip, hlong, hsize, -, rfl⟩ := nextAudioFrame_eq_some.1 h
    have hpos := (frameSize_range (xs.drop skip)).1
    rw [List.length_drop, List.length_drop]
    rw [List.length_drop] at hlong
    omega
  stable := by
    intro xs u rest h ys
    obtain ⟨skip, hskip, hlong, hsize, rfl, rfl⟩ := nextAudioFrame_eq_some.1 h
    have hdrop : (xs ++ ys).drop skip = xs.drop skip ++ ys :=
      List.drop_append_of_le_length (Nat.le_of_lt (search_some hskip).1)
    have hframe := frameSize_append hlong ys
    obtain ⟨htake, hrest⟩ := take_append_of_length_le hsize ys
    refine nextAudioFrame_eq_some.2 ⟨skip, search_append isAudioHeader_local hskip ys, ?_, ?_, ?_, ?_⟩
    · rw [hdrop, List.length_append]
      omega
    · rw [hdrop, hframe, List.length_append]
      omega
    · rw [hdrop, hframe, htake]
    · rw [hdrop, hframe, hrest]

theorem packetSize_ge {bytes : List Byte} {size : Nat} (h : packetSize bytes = some size) : 6 ≤ size := by
  unfold packetSize at h
  split at h
  · cases h
  split at h
  · rw [Option.ite_none_left_eq_some] at h
    obtain rfl := Option.some.inj h.2
    omega
  dsimp only at h
  split at h
  · obtain ⟨next, -, rfl⟩ := Option.map_eq_some_iff.1 h
    exact Nat.le_add_right ..
  · obtain rfl := Option.some.inj h
    exact Nat.le_add_right ..

theorem packetSize_append {bytes : List Byte} {size : Nat} (h : packetSize bytes = some size) (zs : List Byte) :
    packetSize (bytes ++ zs) = some size := by
  unfold packetSize at h ⊢
  have hlen : (bytes ++ zs).length = bytes.length + zs.length := List.length_append
  split at h
  · cases h
  rename_i hsix
  rw [if_neg (by omega), byteAt_append (by omega)]
  split at h
  · next hpack =>
    rw [Option.ite_none_left_eq_some] at h
    rw [if_pos hpack, if_neg (by omega), byteAt_append (by omega)]
    exact h.2
  · next hpack =>
    rw [if_neg hpack, readBe16_append (by omega)]
    dsimp only at h ⊢
    split at h
    · next hzero =>
      obtain ⟨next, hnext, rfl⟩ := Option.map_eq_some_iff.1 h
      rw [if_pos hzero, List.drop_append_of_le_length (by omega), search_append isStartCode_local hnext zs]
      rfl
    · next hzero =>
      rw [if_neg hzero]
      exact h

theorem nextPacket_eq_some {bytes rest : List Byte} {p : PesPacket} :
    nextPacket bytes = some (p, rest) ↔
      ∃ skip size, search isStartCode bytes = some skip ∧ packetSize (bytes.drop skip) = some size ∧
        size ≤ (bytes.drop skip).length ∧
        p = ⟨byteAt (bytes.drop skip) 3, (bytes.drop skip).take size⟩ ∧ rest = (bytes.drop skip).drop size := by
  unfold nextPacket
  constructor
  · intro h
    split at h
    · cases h
    next skip hskip =>
    dsimp only at h
    split at h
    · cases h
    next size hsize =>
    rw [Option.ite_none_left_eq_some] at h
    obtain ⟨rfl, rfl⟩ := Prod.mk.inj (Option.some.inj h.2)
    exact ⟨skip, size, hskip, hsize, Nat.le_of_not_lt h.1, rfl, rfl⟩
  · rintro ⟨skip, size, hskip, hsize, hlong, rfl, rfl⟩
    rw [hskip]
    dsimp only
    rw [hsize]
    exact if_neg (Nat.not_lt.2 hlong)

/-- The packets of a stream. -/
def pesPackets : Framing Byte PesPacket where
  next := nextPacket
  shorter := by
    intro xs u rest h
    obtain ⟨skip, size, hskip, hsize, hlong, -, rfl⟩ := nextPacket_eq_some.1 h
    have hpos := packetSize_ge hsize
    rw [List.length_drop] at hlong
    rw [List.length_drop, List.length_drop]
    omega
  stable := by
    intro xs u rest h ys
    obtain ⟨skip, size, hskip, hsize, hlong, rfl, rfl⟩ := nextPacket_eq_some.1 h
    have hdrop : (xs ++ ys).drop skip = xs.drop skip ++ ys :=
      List.drop_append_of_le_length (Nat.le_of_lt (search_some hskip).1)
    have hpos := packetSize_ge hsize
    obtain ⟨htake, hrest⟩ := take_append_of_length_le hlong ys
    refine nextPacket_eq_some.2 ⟨skip, size, search_append isStartCode_local hskip ys, ?_, ?_, ?_, ?_⟩
    · rw [hdrop]
      exact packetSize_append hsize ys
    · rw [hdrop, List.length_append]
      omega
    · rw [hdrop, htake, byteAt_append (by omega)]
    · rw [hdrop, hrest]

theorem nextVideoUnit_size {xs u rest : List Byte} (h : nextVideoUnit xs = some (u, rest)) :
    u.length + rest.length ≤ xs.length := by
  obtain ⟨next, -, rfl, rfl⟩ := nextVideoUnit_eq_some.1 h
  rw [← List.length_append, List.take_append_drop]

theorem nextAudioFrame_size {xs u rest : List Byte} (h : nextAudioFrame xs = some (u, rest)) :
    u.length + rest.length ≤ xs.length := by
  obtain ⟨skip, -, -, -, rfl, rfl⟩ := nextAudioFrame_eq_some.1 h
  rw [← List.length_append, List.take_append_drop, List.length_drop]
  exact Nat.sub_le ..

theorem nextPacket_size {xs rest : List Byte} {p : PesPacket} (h : nextPacket xs = some (p, rest)) :
    p.bytes.length + rest.length ≤ xs.length := by
  obtain ⟨skip, size, -, -, -, rfl, rfl⟩ := nextPacket_eq_some.1 h
  rw [← List.length_append, List.take_append_drop, List.length_drop]
  exact Nat.sub_le ..

/-! ### Staged bytes -/

theorem nextAudioFrame_skip {xs ws : List Byte}
    (h : search isAudioHeader (xs ++ ws) = (search isAudioHeader ws).map (· + xs.length)) :
    nextAudioFrame (xs ++ ws) = nextAudioFrame ws := by
  unfold nextAudioFrame
  rw [h]
  cases search isAudioHeader ws with
  | none => rfl
  | some skip =>
    have hdrop : (xs ++ ws).drop (skip + xs.length) = ws.drop skip := by
      rw [Nat.add_comm, List.drop_length_add_append]
    simp only [Option.map_some, hdrop]

theorem awaitingFrame_of_none {bytes : List Byte} (h : search isAudioHeader bytes = none) :
    awaitingFrame bytes =
      if 1 < bytes.length then
        if bytes.getLast? = some 0x0f then bytes.drop (bytes.length - 1) else []
      else bytes := by
  rw [awaitingFrame, h]

theorem awaitingFrame_of_some {bytes : List Byte} {skip : Nat} (h : search isAudioHeader bytes = some skip) :
    awaitingFrame bytes = bytes.drop skip := by
  rw [awaitingFrame, h]

/-- The bytes that are dropped do not matter to the frames to come. -/
theorem nextAudioFrame_awaitingFrame (bytes zs : List Byte) :
    nextAudioFrame (awaitingFrame bytes ++ zs) = nextAudioFrame (bytes ++ zs) := by
  cases h : search isAudioHeader bytes with
  | some skip =>
    rw [awaitingFrame_of_some h]
    have hle : skip ≤ bytes.length := Nat.le_of_lt (search_some h).1
    have hsplit : bytes ++ zs = bytes.take skip ++ (bytes.drop skip ++ zs) := by
      rw [← List.append_assoc, List.take_append_drop]
    have hkept := search_append isAudioHeader_local (search_drop h) zs
    have hall := search_append isAudioHeader_local h zs
    rw [hsplit] at hall ⊢
    refine (nextAudioFrame_skip ?_).symm
    rw [hall, hkept, List.length_take, Nat.min_eq_left hle, Option.map_some, Nat.zero_add]
  | none =>
    rw [awaitingFrame_of_none h]
    split
    swap
    · rfl
    next hlong =>
    obtain ⟨init, last, rfl⟩ :=
      (List.eq_nil_or_concat' bytes).resolve_left (List.ne_nil_of_length_pos (by omega))
    have hskip := search_skip isAudioHeader_local h (by simp) zs
    have hframe := nextAudioFrame_skip hskip
    rw [List.append_assoc, hframe, List.getLast?_concat]
    split
    · rw [List.length_append, List.length_singleton, Nat.add_sub_cancel, List.drop_left]
    · next hlast =>
      -- the last byte cannot begin a header either
      have hneg : ¬ isAudioHeader (last :: zs) = true := by
        intro hheader
        cases zs with
        | nil => cases hheader
        | cons z zs =>
          rw [isAudioHeader, Bool.and_eq_true, beq_iff_eq] at hheader
          exact hlast (congrArg some hheader.1)
      have hlast : nextAudioFrame ([last] ++ zs) = nextAudioFrame zs :=
        nextAudioFrame_skip (search_cons_of_neg hneg)
      exact hlast.symm

theorem gives_awaitingFrame (bytes : List Byte) : audioFrames.Gives bytes [] (awaitingFrame bytes) :=
  Gives.of_next_eq fun zs => (nextAudioFrame_awaitingFrame bytes zs).symm

theorem length_awaitingFrame_le (bytes : List Byte) : (awaitingFrame bytes).length ≤ bytes.length := by
  unfold awaitingFrame
  split
  · rw [List.length_drop]
    exact Nat.sub_le ..
  split
  swap
  · exact Nat.le_refl _
  split
  · rw [List.length_drop]
    exact Nat.sub_le ..
  · exact Nat.zero_le _

theorem nextAudioFrame_awaiting_eq (bytes : List Byte) :
    nextAudioFrame (awaitingFrame bytes) = nextAudioFrame bytes := by
  have := nextAudioFrame_awaitingFrame bytes []
  rwa [List.append_nil, List.append_nil] at this

theorem awaitingFrame_idem (bytes : List Byte) : awaitingFrame (awaitingFrame bytes) = awaitingFrame bytes := by
  cases h : search isAudioHeader bytes with
  | some skip =>
    rw [awaitingFrame_of_some h, awaitingFrame_of_some (search_drop h)]
    rfl
  | none =>
    rw [awaitingFrame_of_none h]
    split
    swap
    · next hshort => rw [awaitingFrame_of_none h, if_neg hshort]
    next hlong =>
    have hone : ∀ short : List Byte, short.length ≤ 1 → awaitingFrame short = short := by
      intro short hshort
      have hnone : search isAudioHeader short = none := by
        match short, hshort with
        | [], _ => rfl
        | [b], _ => rfl
      rw [awaitingFrame_of_none hnone, if_neg (Nat.not_lt.2 hshort)]
    split
    · refine hone _ ?_
      rw [List.length_drop]
      omega
    · exact hone [] (Nat.zero_le 1)

/-- What is staged for audio when no complete frame is held back. -/
def audioRemainder (bytes : List Byte) : List Byte := awaitingFrame (audioFrames.rest bytes)

theorem audioRemainder_awaitingFrame (bytes : List Byte) :
    audioRemainder (awaitingFrame bytes) = audioRemainder bytes := by
  unfold audioRemainder
  have heq := nextAudioFrame_awaiting_eq bytes
  cases h : audioFrames.next bytes with
  | none => rw [rest_of_none h, rest_of_none (heq.trans h), awaitingFrame_idem]
  | some cut =>
    obtain ⟨u, rest⟩ := cut
    rw [rest_of_some h, rest_of_some (heq.trans h)]

theorem isVideoAud_rest {bytes u rest : List Byte} (h : nextVideoUnit bytes = some (u, rest)) :
    isVideoAud rest = true := by
  obtain ⟨next, hnext, -, rfl⟩ := nextVideoUnit_eq_some.1 h
  have := (search_some hnext).2
  rwa [List.drop_drop, Nat.add_comm] at this

theorem findVideoAud_zero (bytes : List Byte) : findVideoAud bytes 0 = search isVideoAud bytes :=
  Option.map_id'

theorem findVideoAud_of_isVideoAud {bytes : List Byte} (h : isVideoAud bytes = true) :
    findVideoAud bytes 0 = some 0 := by
  rw [findVideoAud_zero]
  cases bytes with
  | nil => cases h
  | cons b bytes => exact search_cons_of_pos h

theorem isVideoAud_drop {bytes : List Byte} {first : Nat} (h : findVideoAud bytes 0 = some first) :
    isVideoAud (bytes.drop first) = true := by
  rw [findVideoAud_zero] at h
  exact (search_some h).2

end Psprism
