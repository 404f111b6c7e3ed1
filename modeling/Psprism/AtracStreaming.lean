import Psprism.AtracReset
import Psprism.Lib.Ring

/-!
# Streaming an ATRAC track (`atrac_state.hpp`)

A guest that has only the first part of a track in memory asks where it may write more of it, and says how much it has
written. Its buffer is a ring: the byte at an offset of the file lies at that offset counted modulo the size of the
buffer. What the decoder holds are the bytes handed over, in their order, and no window that it offers covers a byte
that is still to be decoded (`Streams`). When data is set, a window that was announced for earlier data is not taken
back, and what the guest then says it has written is taken from there; so streaming goes right exactly if nothing is
left of such a window, or it could as well have been announced for the new data (`AtracDecoder.streams_iff`).
-/

namespace Psprism
open Transducer

/-- Bytes that a guest has handed over, with the address they were at. -/
structure StreamPiece where
  address : Word
  bytes : List Byte

/-- Each piece lies in the ring where the bytes before it end. -/
def PiecesInOrder (ring : Word) (size : Nat) : Nat → List StreamPiece → Prop
  | _, [] => True
  | held, piece :: pieces =>
    piece.address = ring + BitVec.ofNat 32 (held % size) ∧ held % size + piece.bytes.length ≤ size ∧
      PiecesInOrder ring size (held + piece.bytes.length) pieces

theorem PiecesInOrder.append {ring : Word} {size held : Nat} {pieces pieces' : List StreamPiece}
    (h : PiecesInOrder ring size held pieces)
    (h' : PiecesInOrder ring size (held + (pieces.flatMap (·.bytes)).length) pieces') :
    PiecesInOrder ring size held (pieces ++ pieces') := by
  induction pieces generalizing held with
  | nil => exact h'
  | cons piece pieces ih =>
    obtain ⟨haddress, hinside, hrest⟩ := h
    rw [List.flatMap_cons, List.length_append, ← Nat.add_assoc] at h'
    exact ⟨haddress, hinside, ih hrest h'⟩

namespace AtracDecoder
open Atrac
variable {σ α : Type} {codec : AtracCodec σ α} {d d' e first : AtracDecoder σ} {pieces : List StreamPiece}

/-- What a call hands over, if anything. -/
def handed (d : AtracDecoder σ) : AtracCall → List StreamPiece
  | .addStreamData mapped byteCount =>
    if byteCount.toNat > d.pendingWritableBytes then []
    else if byteCount.toNat = 0 then []
    else
      match mapped d.pendingWritePointer byteCount.toNat with
      | none => []
      | some source => [⟨d.pendingWritePointer, (List.range byteCount.toNat).map source⟩]
  | _ => []

def handedOver (codec : AtracCodec σ α) : AtracDecoder σ → List AtracCall → List StreamPiece
  | _, [] => []
  | d, call :: calls => d.handed call ++ handedOver codec (d.step codec call).2 calls

/-- What streaming promises, in a state in which `pieces` were handed over after the data was set. -/
structure Streams (codec : AtracCodec σ α) (first d : AtracDecoder σ) (pieces : List StreamPiece) : Prop where
  held : d.encoded = first.encoded ++ pieces.flatMap (·.bytes)
  inOrder : PiecesInOrder first.guestBuffer first.guestBufferSize first.encoded.length pieces
  size : d.encoded.length ≤ first.track.fileSize.toNat
  /-- Of the window and the file offset that the guest is told. -/
  offered : ∃ (k : Nat) (writable offset : Word),
    (d.step codec .getStreamDataInfo).1.words = [first.guestBuffer + BitVec.ofNat 32 k, writable, offset] ∧
      offset.toNat = d.encoded.length ∧ k + writable.toNat ≤ first.guestBufferSize ∧
      (0 < writable.toNat → k = d.encoded.length % first.guestBufferSize) ∧
      ∀ i < writable.toNat, ∀ j, d.dataCursor ≤ j → j < d.encoded.length → k + i ≠ j % first.guestBufferSize

/-! ### Windows -/

/-- A window lies in the buffer, where the bytes held end, and does not cover what is to be decoded. -/
def WindowFree (d : AtracDecoder σ) (window : Word × Nat) : Prop :=
  ∃ k, window.1 = d.guestBuffer + BitVec.ofNat 32 k ∧ k + window.2 ≤ d.guestBufferSize ∧
    (0 < window.2 → k = d.encoded.length % d.guestBufferSize ∧
      d.encoded.length + window.2 ≤ d.track.fileSize.toNat) ∧
    ∀ i < window.2, ∀ j, d.dataCursor ≤ j → j < d.encoded.length → k + i ≠ j % d.guestBufferSize

theorem windowFree_zero (d : AtracDecoder σ) : d.WindowFree (d.guestBuffer, 0) := by
  refine ⟨0, (BitVec.add_zero _).symm, Nat.zero_le _, ?_, ?_⟩
  · intro hpos
    exact absurd hpos (Nat.lt_irrefl 0)
  · intro i hi
    exact absurd hi (Nat.not_lt_zero i)

theorem windowFree_streamWindow (d : AtracDecoder σ) : d.WindowFree d.streamWindow := by
  by_cases hempty : d.guestBufferSize = 0 ∨ d.encoded.length ≥ d.track.fileSize.toNat
  · rw [streamWindow, if_pos hempty]
    exact windowFree_zero d
  by_cases hfull : d.encoded.length - d.dataCursor ≥ d.guestBufferSize
  · rw [streamWindow, if_neg hempty, if_pos hfull]
    exact windowFree_zero d
  obtain ⟨hsize, hfile⟩ := not_or.1 hempty
  have hmod : d.encoded.length % d.guestBufferSize < d.guestBufferSize := Nat.mod_lt _ (Nat.pos_of_ne_zero hsize)
  rw [streamWindow, if_neg hempty, if_neg hfull]
  refine ⟨_, rfl, by dsimp only; omega, fun _ => ⟨rfl, by dsimp only; omega⟩, ?_⟩
  intro i hi j hcursor hj
  dsimp only at hi
  -- the byte at `j` and the one at `encoded.length + i` are less than a buffer apart
  have hoffset : d.encoded.length % d.guestBufferSize + i = (0 + (d.encoded.length + i)) % d.guestBufferSize := by
    have hcontiguous : d.encoded.length % d.guestBufferSize + i < d.guestBufferSize := by omega
    rw [Nat.zero_add, Nat.add_mod, Nat.mod_eq_of_lt (show i < d.guestBufferSize by omega),
      Nat.mod_eq_of_lt hcontiguous]
  have hne : (0 + j) % d.guestBufferSize ≠ (0 + (d.encoded.length + i)) % d.guestBufferSize :=
    Ring.mod_ne_of_lt (by omega) (by omega)
  rw [hoffset]
  rw [Nat.zero_add] at hne
  exact hne.symm

/-- The announced window goes on where the bytes held end, in the buffer and in the file. -/
def WindowFits (d : AtracDecoder σ) : Prop :=
  d.pendingWritableBytes = 0 ∨
    d.pendingWritePointer = d.guestBuffer + BitVec.ofNat 32 (d.encoded.length % d.guestBufferSize) ∧
      d.encoded.length % d.guestBufferSize + d.pendingWritableBytes ≤ d.guestBufferSize ∧
      d.encoded.length + d.pendingWritableBytes ≤ d.track.fileSize.toNat

theorem windowFits_streamDataInfo (d : AtracDecoder σ) : d.streamDataInfo.WindowFits := by
  obtain ⟨k, hpointer, hinside, hplace, -⟩ := d.windowFree_streamWindow
  rcases Nat.eq_zero_or_pos d.streamWindow.2 with hzero | hpos
  · exact Or.inl hzero
  · obtain ⟨rfl, hfile⟩ := hplace hpos
    exact Or.inr ⟨hpointer, hinside, hfile⟩

theorem WindowFits.of_sameData (h : d.SameData d') (hfits : d.WindowFits) : d'.WindowFits := by
  rw [WindowFits, h.pendingWritableBytes, h.pendingWritePointer, h.guestBuffer, h.guestBufferSize, h.encoded, h.track]
  exact hfits

/-! ### Steps -/

/-- What a call of a decoder with a window that fits leaves behind. -/
structure Hands (d d' : AtracDecoder σ) (pieces : List StreamPiece) : Prop where
  continues : Continues d d' (pieces.flatMap (·.bytes))
  inOrder : PiecesInOrder d.guestBuffer d.guestBufferSize d.encoded.length pieces
  size : d.encoded.length ≤ d.track.fileSize.toNat → d'.encoded.length ≤ d'.track.fileSize.toNat
  windowFits : d'.WindowFits

theorem Hands.of_sameData (h : d.SameData d') (hfits : d.WindowFits) : Hands d d' [] := by
  refine ⟨.of_sameData h, trivial, ?_, hfits.of_sameData h⟩
  rw [h.encoded, h.track]
  exact id

/-- The decoder with bytes taken from the announced window. -/
def extend (d : AtracDecoder σ) (bytes : List Byte) : AtracDecoder σ :=
  { d with
    encoded := d.encoded ++ bytes
    pendingWritePointer := d.pendingWritePointer + BitVec.ofNat 32 bytes.length
    pendingWritableBytes := d.pendingWritableBytes - bytes.length }

theorem step_addStreamData (codec : AtracCodec σ α) (d : AtracDecoder σ) (mapped : Word → Nat → Option Bytes)
    (byteCount : Word) :
    (d.step codec (.addStreamData mapped byteCount)).2 = d ∧ d.handed (.addStreamData mapped byteCount) = [] ∨
      ∃ bytes, 0 < bytes.length ∧ bytes.length ≤ d.pendingWritableBytes ∧
        (d.step codec (.addStreamData mapped byteCount)).2 = d.extend bytes ∧
        d.handed (.addStreamData mapped byteCount) = [⟨d.pendingWritePointer, bytes⟩] := by
  rw [step, addStreamData, handed]
  split
  · exact Or.inl ⟨rfl, rfl⟩
  next hroom =>
  split
  · exact Or.inl ⟨rfl, rfl⟩
  next hpos =>
  cases mapped d.pendingWritePointer byteCount.toNat with
  | none => exact Or.inl ⟨rfl, rfl⟩
  | some source =>
    have hlength : ((List.range byteCount.toNat).map source).length = byteCount.toNat := by
      rw [List.length_map, List.length_range]
    refine Or.inr ⟨(List.range byteCount.toNat).map source, by omega, by omega, ?_, rfl⟩
    rw [extend, hlength]

theorem hands_extend {bytes : List Byte} (hpos : 0 < bytes.length) (hroom : bytes.length ≤ d.pendingWritableBytes)
    (hfits : d.WindowFits) : Hands d (d.extend bytes) [⟨d.pendingWritePointer, bytes⟩] := by
  obtain ⟨hpointer, hinside, hfile⟩ := hfits.resolve_left (by omega)
  have hlength : (d.extend bytes).encoded.length = d.encoded.length + bytes.length := List.length_append
  refine ⟨⟨rfl, rfl, rfl, rfl, ?_⟩, ⟨hpointer, (Nat.add_le_add_left hroom _).trans hinside, trivial⟩, fun _ => ?_, ?_⟩
  · rw [List.flatMap_singleton]
    rfl
  · rw [hlength]
    exact (Nat.add_le_add_left hroom _).trans hfile
  · rcases Nat.eq_zero_or_pos (d.pendingWritableBytes - bytes.length) with hzero | hleft
    · exact Or.inl hzero
    -- the rest of the window begins before the end of the buffer
    have hplace : d.encoded.length % d.guestBufferSize + bytes.length < d.guestBufferSize := by omega
    have hmod : (d.encoded.length + bytes.length) % d.guestBufferSize =
        d.encoded.length % d.guestBufferSize + bytes.length := by
      rw [Nat.add_mod, Nat.mod_eq_of_lt (show bytes.length < d.guestBufferSize by omega), Nat.mod_eq_of_lt hplace]
    refine Or.inr ⟨?_, ?_, ?_⟩
    · rw [hlength]
      change d.pendingWritePointer + BitVec.ofNat 32 bytes.length =
        d.guestBuffer + BitVec.ofNat 32 ((d.encoded.length + bytes.length) % d.guestBufferSize)
      rw [hpointer, hmod, BitVec.ofNat_add, BitVec.add_assoc]
    · rw [hlength]
      change (d.encoded.length + bytes.length) % d.guestBufferSize + (d.pendingWritableBytes - bytes.length) ≤
        d.guestBufferSize
      omega
    · rw [hlength]
      change d.encoded.length + bytes.length + (d.pendingWritableBytes - bytes.length) ≤ d.track.fileSize.toNat
      omega

theorem hands_step (codec : AtracCodec σ α) (call : AtracCall) (hfits : d.WindowFits) :
    Hands d (d.step codec call).2 (d.handed call) := by
  cases call with
  | decodeData => exact .of_sameData (sameData_decode codec d) hfits
  | resetPlayPosition sample => exact .of_sameData (sameData_resetPlayPosition codec d sample) hfits
  | rewind => exact .of_sameData ⟨rfl, rfl, rfl, rfl, rfl, rfl, rfl, Or.inl rfl⟩ hfits
  | setLoopNum count =>
    rw [step, setLoopNum]
    split
    · exact .of_sameData (.refl d) hfits
    · exact ⟨⟨rfl, rfl, rfl, rfl, (List.append_nil _).symm⟩, trivial, id, hfits⟩
  | getStreamDataInfo =>
    exact ⟨⟨rfl, rfl, rfl, rfl, (List.append_nil _).symm⟩, trivial, id, windowFits_streamDataInfo d⟩
  | addStreamData mapped byteCount =>
    rcases step_addStreamData codec d mapped byteCount with ⟨hstep, hhanded⟩ | ⟨bytes, hpos, hroom, hstep, hhanded⟩
    · rw [hstep, hhanded]
      exact .of_sameData (.refl d) hfits
    · rw [hstep, hhanded]
      exact hands_extend hpos hroom hfits
  | _ => exact .of_sameData (.refl d) hfits

/-! ### Runs -/

theorem Hands.refl (hfits : d.WindowFits) : Hands d d [] := .of_sameData (.refl d) hfits

theorem Hands.trans {pieces' : List StreamPiece} (h : Hands d d' pieces) (h' : Hands d' e pieces') :
    Hands d e (pieces ++ pieces') := by
  have hcontinues := h.continues
  refine ⟨?_, h.inOrder.append ?_, fun hsize => h'.size (h.size hsize), h'.windowFits⟩
  · rw [List.flatMap_append]
    exact hcontinues.trans h'.continues
  · have hnext := h'.inOrder
    rwa [hcontinues.guestBuffer, hcontinues.guestBufferSize, hcontinues.encoded, List.length_append] at hnext

theorem hands_run (codec : AtracCodec σ α) (calls : List AtracCall) (hfits : d.WindowFits) :
    Hands d (after (step codec) d calls) (handedOver codec d calls) := by
  induction calls generalizing d with
  | nil => exact .refl hfits
  | cons call calls ih =>
    have hstep := hands_step codec call hfits
    exact hstep.trans (ih hstep.windowFits)

/-- A run after a state with a window that fits. -/
theorem Hands.streams (h : Hands first d pieces) (hsize : first.encoded.length ≤ first.track.fileSize.toNat)
    (hbuffer : first.guestBufferSize < 2 ^ 32) : Streams codec first d pieces := by
  have hcontinues := h.continues
  have hlength := h.size hsize
  refine ⟨hcontinues.encoded, h.inOrder, hcontinues.track ▸ hlength, ?_⟩
  obtain ⟨k, hpointer, hinside, hplace, hfree⟩ := d.windowFree_streamWindow
  rw [hcontinues.guestBufferSize] at hinside hplace hfree
  rw [hcontinues.guestBuffer] at hpointer
  have hwritable : (BitVec.ofNat 32 d.streamWindow.2).toNat = d.streamWindow.2 := by
    rw [BitVec.toNat_ofNat, Nat.mod_eq_of_lt (by omega)]
  refine ⟨k, BitVec.ofNat 32 d.streamWindow.2, BitVec.ofNat 32 d.encoded.length, ?_, ?_, ?_⟩
  · rw [step, hpointer]
  · have := d.track.fileSize.isLt
    rw [BitVec.toNat_ofNat, Nat.mod_eq_of_lt (by omega)]
  · rw [hwritable]
    exact ⟨hinside, fun hpos => (hplace hpos).1, hfree⟩

/-! ### New data -/

/-- What is left of a window announced before could have been announced for new data at the address. -/
def LeftFits (d : AtracDecoder σ) (address size fileSize : Word) : Prop :=
  d.pendingWritableBytes = 0 ∨ d.pendingWritePointer = address ∧ d.pendingWritableBytes ≤ size.toNat ∧
    size.toNat + d.pendingWritableBytes ≤ fileSize.toNat

/-- What is held and announced when data was set. -/
structure Given (d d' : AtracDecoder σ) (address size : Word) : Prop where
  guestBuffer : d'.guestBuffer = address
  guestBufferSize : d'.guestBufferSize = size.toNat
  length : d'.encoded.length = size.toNat
  nonempty : 0 < size.toNat
  pendingWritePointer : d'.pendingWritePointer = d.pendingWritePointer
  pendingWritableBytes : d'.pendingWritableBytes = d.pendingWritableBytes

theorem given_of_setDataAt {mapped : Word → Nat → Option Bytes} {address size : Word}
    (h : d.setDataAt codec mapped address size = (success, d')) : Given d d' address size := by
  rcases setDataAt_cases codec mapped address size with ⟨r, hr, hset⟩ | ⟨r, source, parsed, hlength, hparsed, hset⟩
  · rw [hset] at h
    exact absurd (Prod.mk.inj h).1 hr
  · have hpos : 0 < size.toNat := by
      refine Nat.pos_of_ne_zero fun hzero => ?_
      rw [List.length_eq_zero_iff.1 (hlength.trans hzero)] at hparsed
      cases hparsed
    rw [hset] at h
    split_ifs at h
    · exact absurd (Prod.mk.inj h).1 (by decide)
    · obtain ⟨-, rfl⟩ := Prod.mk.inj h
      refine ⟨rfl, ?_, hlength, hpos, rfl, rfl⟩
      change source.length % 2 ^ 32 = size.toNat
      rw [hlength, Nat.mod_eq_of_lt size.isLt]

theorem Given.windowFits {address size : Word} (h : Given d d' address size) :
    d'.WindowFits ↔ d.LeftFits address size d'.track.fileSize := by
  rw [WindowFits, LeftFits, h.pendingWritableBytes, h.pendingWritePointer, h.guestBuffer, h.guestBufferSize, h.length,
    Nat.mod_self, Nat.zero_add, BitVec.add_zero]

/-- Memory that is all there. -/
def zeros (_ : Word) (_ : Nat) : Option Bytes := some fun _ => 0

theorem addStreamData_zeros {n : Nat} (hpos : 0 < n) (hfits : n < 2 ^ 32) (hroom : n ≤ d.pendingWritableBytes)
    (h : ∀ calls, Streams codec d (after (step codec) d calls) (handedOver codec d calls)) :
    ∃ bytes, bytes.length = n ∧ Streams codec d (d.extend bytes) [⟨d.pendingWritePointer, bytes⟩] := by
  have hn : (BitVec.ofNat 32 n).toNat = n := by rw [BitVec.toNat_ofNat, Nat.mod_eq_of_lt hfits]
  have hlength : ((List.range n).map fun _ => (0 : Byte)).length = n := by rw [List.length_map, List.length_range]
  refine ⟨(List.range n).map fun _ => 0, hlength, ?_⟩
  have hrun := h [.addStreamData zeros (BitVec.ofNat 32 n)]
  have hstep : (d.step codec (.addStreamData zeros (BitVec.ofNat 32 n))).2 =
      d.extend ((List.range n).map fun _ => 0) := by
    rw [step, addStreamData, hn, if_neg (by omega), if_neg (by omega), extend, hlength]
    rfl
  have hhanded : d.handed (.addStreamData zeros (BitVec.ofNat 32 n)) =
      [⟨d.pendingWritePointer, (List.range n).map fun _ => 0⟩] := by
    rw [handed, hn, if_neg (by omega), if_neg (by omega)]
    rfl
  rw [after_cons, after_nil, handedOver, handedOver, List.append_nil, hstep, hhanded] at hrun
  exact hrun

/-- A window that does not fit can be made use of. -/
theorem windowFits_of_streams (hpos : 0 < d.encoded.length) (hsize : d.encoded.length ≤ d.track.fileSize.toNat)
    (h : ∀ calls, Streams codec d (after (step codec) d calls) (handedOver codec d calls)) : d.WindowFits := by
  rcases Nat.eq_zero_or_pos d.pendingWritableBytes with hzero | hleft
  · exact Or.inl hzero
  have hword := d.track.fileSize.isLt
  have hfile : d.encoded.length + d.pendingWritableBytes ≤ d.track.fileSize.toNat := by
    by_contra hover
    -- one byte more than the file has
    obtain ⟨bytes, hlength, hstreams⟩ := addStreamData_zeros (n := d.track.fileSize.toNat - d.encoded.length + 1)
      (Nat.succ_pos _) (by omega) (by omega) h
    have hheld := hstreams.size
    rw [extend, List.length_append, hlength] at hheld
    omega
  obtain ⟨bytes, hlength, hstreams⟩ := addStreamData_zeros hleft (by omega) (Nat.le_refl _) h
  obtain ⟨hpointer, hinside, -⟩ := hstreams.inOrder
  rw [hlength] at hinside
  exact Or.inr ⟨hpointer, hinside, hfile⟩

/-- Streaming goes right after data was set that is no larger than its file, whatever calls follow, exactly if no
window announced before is left over, or it fits. -/
theorem streams_iff (codec : AtracCodec σ α) (d d' : AtracDecoder σ) (mapped : Word → Nat → Option Bytes)
    (address size : Word) (hset : d.setDataAt codec mapped address size = (success, d'))
    (hfile : size ≤ d'.track.fileSize) :
    (∀ calls, Streams codec d' (after (step codec) d' calls) (handedOver codec d' calls)) ↔
      d.LeftFits address size d'.track.fileSize := by
  have hgiven := given_of_setDataAt hset
  have hlength : d'.encoded.length ≤ d'.track.fileSize.toNat := hgiven.length ▸ hfile
  constructor
  · intro h
    refine hgiven.windowFits.1 (windowFits_of_streams ?_ hlength h)
    rw [hgiven.length]
    exact hgiven.nonempty
  · intro hleft calls
    exact (hands_run codec calls (hgiven.windowFits.2 hleft)).streams hlength
      (hgiven.guestBufferSize ▸ size.isLt)

/-- A new decoder is given all of a file but its last byte. -/
theorem streams_iff_shortTrack :
    let given := (new (σ := Unit) 0).setDataAt indexCodec shortMemory 0x08804000 138
    given.1 = success ∧ ∀ calls,
      Streams indexCodec given.2 (after (step indexCodec) given.2 calls) (handedOver indexCodec given.2 calls) := by
  intro given
  have hgiven : given = (success, given.2) := Prod.fst_eq_iff.1 (by decide +kernel)
  refine ⟨congrArg Prod.fst hgiven, ?_⟩
  exact (streams_iff indexCodec (new 0) given.2 shortMemory 0x08804000 138 hgiven (by decide +kernel)).2 (Or.inl rfl)

/-- It is asked where the last byte may be written, and then is given the whole file: the byte may still be added,
behind the end. -/
theorem window_left :
    let part := AtracUse.setData shortMemory 0x08804000 138
    let d := after (use indexCodec) (new (σ := Unit) 0) [part, .call .getStreamDataInfo]
    let given := d.setDataAt indexCodec shortMemory 0x08804000 139
    let calls := [AtracCall.addStreamData shortMemory 1]
    (given.1 = success ∧ (139 : Word) ≤ given.2.track.fileSize) ∧
      ¬ Streams indexCodec given.2 (after (step indexCodec) given.2 calls) (handedOver indexCodec given.2 calls) := by
  intro part d given calls
  refine ⟨by decide +kernel, fun h => ?_⟩
  have hover : given.2.track.fileSize.toNat < (after (step indexCodec) given.2 calls).encoded.length := by
    decide +kernel
  exact absurd h.size (Nat.not_le.2 hover)

end AtracDecoder

end Psprism
