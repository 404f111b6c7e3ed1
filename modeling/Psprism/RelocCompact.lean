import Mathlib.Data.Fin.VecNotation
import Psprism.Lib.Codec
import Psprism.Reloc

/-!
# The compact relocation stream (`relocation.hpp`, `src/emitter/relocations.cpp`)

`compactRelocations` writes each record as one of three shapes: a one-byte short record (segments
0 and 1), a one-byte extended short record (both segments 0), or the escape `0xff` followed by the
zigzag offset delta and, when they changed, the type and segments. Deltas run per patch segment.
`CompactRelocationDecoder.next` reads one record back, and `apply_compact_psp_relocations` patches
the buffer record by record, looking ahead for LO16 on a copy of the decoder.
-/

namespace Psprism

open Codec

/-! ### Encoder -/

/-- What `compact_relocations` carries from record to record. `previous` is none until the first
record (`have_metadata`). -/
structure CompactEncoder where
  previousOffsets : Byte → Word := fun _ => 0
  previous : Option Relocation := none

def typeCode (type : Byte) : Option Byte :=
  match type with
  | 0#8 => some 0
  | 2#8 => some 1
  | 4#8 => some 2
  | 5#8 => some 3
  | 6#8 => some 4
  | _ => none

def extendedShortCode (type : Byte) : Option Byte :=
  match type with
  | 2#8 => some 5
  | 4#8 => some 6
  | 6#8 => some 7
  | _ => none

/-- The offset delta against the last record of the same patch segment. -/
def CompactEncoder.delta (e : CompactEncoder) (r : Relocation) : Int :=
  r.offset.toNat - (e.previousOffsets r.patchSegment).toNat

/-- The short record, when it fits. -/
def shortRecord (r : Relocation) (delta : Int) : Option Byte :=
  match typeCode r.type with
  | none => none
  | some code =>
    if r.patchSegment < 2 ∧ r.targetSegment < 2 ∧ 0 ≤ delta ∧ delta % 4 = 0 ∧ delta ≤ 28 then
      some ((BitVec.ofNat 8 (delta.toNat / 4) <<< 5) ||| (r.targetSegment <<< 4) |||
        (r.patchSegment <<< 3) ||| code)
    else none

/-- The extended short record, when it fits and does not collide with the escape `0xff`. -/
def extendedShortRecord (r : Relocation) (delta : Int) : Option Byte :=
  match extendedShortCode r.type with
  | none => none
  | some code =>
    if r.patchSegment = 0 ∧ r.targetSegment = 0 ∧ 0 ≤ delta ∧ delta % 4 = 0 ∧ delta ≤ 124 ∧
        ¬ (code = 7 ∧ delta = 124) then
      some ((BitVec.ofNat 8 (delta.toNat / 4) <<< 3) ||| code)
    else none

/-- Type and segments of a long record: packed into one byte, or escaped by `0xff`. -/
def metadataBytes (r : Relocation) : List Byte :=
  let packed := r.type ||| (r.patchSegment <<< 4) ||| (r.targetSegment <<< 6)
  if (r.type < 16 ∧ r.patchSegment < 4 ∧ r.targetSegment < 4) ∧ packed ≠ 0xff then [packed]
  else [0xff, r.type, r.patchSegment, r.targetSegment]

def CompactEncoder.metadataChanged (e : CompactEncoder) (r : Relocation) : Bool :=
  match e.previous with
  | none => true
  | some p =>
    r.type != p.type || r.patchSegment != p.patchSegment || r.targetSegment != p.targetSegment

def CompactEncoder.longRecord (e : CompactEncoder) (r : Relocation) : List Byte :=
  let changed := e.metadataChanged r
  0xff :: (varint (zigzag (e.delta r) * 2 + changed.toNat) ++
    if changed then metadataBytes r else [])

/-- One iteration of the loop of `compact_relocations`. -/
def CompactEncoder.step (e : CompactEncoder) (r : Relocation) : List Byte × CompactEncoder :=
  let bytes :=
    match shortRecord r (e.delta r) with
    | some b => [b]
    | none =>
      match extendedShortRecord r (e.delta r) with
      | some b => [b]
      | none => e.longRecord r
  (bytes, ⟨Function.update e.previousOffsets r.patchSegment r.offset, some r⟩)

def compactRelocations (relocations : List Relocation) : List Byte :=
  encodeAll CompactEncoder.step {} relocations

/-! ### Decoder -/

/-- `bytes` are those from `cursor_` on, so `cursor_ == size_` is `bytes = []`. -/
structure CompactRelocationDecoder where
  bytes : List Byte
  decoded : Nat := 0
  previousOffsets : Byte → Word := fun _ => 0
  type : Byte := 0
  patchSegment : Byte := 0
  targetSegment : Byte := 0
  hasMetadata : Bool := false

namespace CompactRelocationDecoder

/-- The `switch` on the low three bits of a one-byte record: type, segments and delta. -/
def shortFields (first : Byte) : Byte × Byte × Byte × Int :=
  let short (type : Byte) : Byte × Byte × Byte × Int :=
    (type, (first >>> 3) &&& 1, (first >>> 4) &&& 1, (first >>> 5).toNat * 4)
  let extended (type : Byte) : Byte × Byte × Byte × Int := (type, 0, 0, (first >>> 3).toNat * 4)
  match first &&& 7 with
  | 0#8 => short 0
  | 1#8 => short 2
  | 2#8 => short 4
  | 3#8 => short 5
  | 4#8 => short 6
  | 5#8 => extended 2
  | 6#8 => extended 4
  | _ => extended 6

/-- Reads type and segments of a long record. -/
def readMetadata : List Byte → Option (Byte × Byte × Byte × List Byte)
  | [] => none
  | packed :: rest =>
    if packed ≠ 0xff then some (packed &&& 0x0f, (packed >>> 4) &&& 3, packed >>> 6, rest)
    else
      match rest with
      | type :: patch :: target :: rest => some (type, patch, target, rest)
      | _ => none

/-- The end of `next`: the delta is applied to the previous offset of the record's segment. -/
def emit (d : CompactRelocationDecoder) (delta : Int) :
    Option (Relocation × CompactRelocationDecoder) :=
  let nextOffset : Int := (d.previousOffsets d.patchSegment).toNat + delta
  if nextOffset < 0 ∨ 0xffffffff < nextOffset then none
  else
    let offset := BitVec.ofNat 32 nextOffset.toNat
    some (⟨offset, d.type, d.patchSegment, d.targetSegment⟩,
      { d with previousOffsets := Function.update d.previousOffsets d.patchSegment offset })

/-- `next`; `none` where it clears `valid_` and returns false. -/
def next (d : CompactRelocationDecoder) : Option (Relocation × CompactRelocationDecoder) :=
  match d.bytes with
  | [] => none
  | first :: rest =>
    if first ≠ 0xff then
      let (type, patch, target, delta) := shortFields first
      emit { d with bytes := rest, type := type, patchSegment := patch, targetSegment := target,
                    hasMetadata := true } delta
    else
      match readVarint 63 rest 0 0 with
      | none => none
      | some (tag, rest) =>
        let d? : Option CompactRelocationDecoder :=
          if tag % 2 = 1 then
            match readMetadata rest with
            | none => none
            | some (type, patch, target, rest) =>
              some { d with bytes := rest, type := type, patchSegment := patch,
                            targetSegment := target, hasMetadata := true }
          else some { d with bytes := rest }
        match d? with
        | none => none
        | some d => if d.hasMetadata then emit d (unzigzag (tag / 2)) else none

def noteDecoded (d : CompactRelocationDecoder) : CompactRelocationDecoder :=
  { d with decoded := d.decoded + 1 }

/-- `consumed`, on a decoder whose last `next` succeeded (`valid_`). -/
def consumed (d : CompactRelocationDecoder) (relocationCount : Nat) : Bool :=
  d.decoded == relocationCount && d.bytes.isEmpty

end CompactRelocationDecoder

/-! ### Applying the stream -/

section
variable (sizeBits memorySize : Nat) (guestBase : Word) (segments : List PspLoadSegment)

/-- The LO16 lookahead over at most `count` further records of a copy of the decoder. -/
def lowWordCompact (targetSegment : Byte) (memory : Bytes) :
    Nat → CompactRelocationDecoder → Except RelocationResult Word
  | 0, _ => .error .missingLo16
  | count + 1, lookahead =>
    match lookahead.next with
    | none => .error .invalidStream
    | some (low, lookahead) =>
      if low.type ≠ 6 ∨ low.targetSegment ≠ targetSegment then
        lowWordCompact targetSegment memory count lookahead.noteDecoded
      else
        match relocationWordOffset sizeBits low segments memorySize with
        | none => .error .invalidPatch
        | some lowOffset => .ok (readU32 memory lowOffset)

/-- The loop of `apply_compact_psp_relocations` with `count` records to go, `total` in all. -/
def applyCompact (total : Nat) (memory : Bytes) :
    Nat → CompactRelocationDecoder → RelocationResult × Bytes
  | 0, d => (if d.consumed total then .success else .invalidStream, memory)
  | count + 1, d =>
    match d.next with
    | none => (.invalidStream, memory)
    | some (r, d) =>
      let d := d.noteDecoded
      match findSegment segments r.targetSegment with
      | none => (.invalidSegment, memory)
      | some target =>
        match relocationWordOffset sizeBits r segments memorySize with
        | none => (.invalidPatch, memory)
        | some patchOffset =>
          match patchedWord r.type (readU32 memory patchOffset) (guestBase + target.address)
              (lowWordCompact sizeBits memorySize segments r.targetSegment memory count d) with
          | .error e => (e, memory)
          | .ok word => applyCompact total (writeU32 memory patchOffset word) count d

end

def applyCompactPspRelocations (sizeBits : Nat) (memory : Option Bytes) (memorySize : Nat)
    (guestBase : Word) (segments : Option (List PspLoadSegment)) (bytes : List Byte)
    (relocationCount : Nat) : RelocationResult × Option Bytes :=
  match memory, segments with
  | some memory, some segments =>
    let (result, memory) := applyCompact sizeBits memorySize guestBase segments relocationCount
      memory relocationCount { bytes := bytes }
    (result, some memory)
  | memory, _ => (.invalidPatch, memory)

/-! ### One record read back -/

theorem byte_eq_ofNat_fin {n : Nat} {b : Byte} (h : b.toNat < n) :
    ∃ i : Fin n, b = BitVec.ofNat 8 i.val :=
  ⟨⟨b.toNat, h⟩, by simp⟩

theorem exists_delta {delta : Int} {n : Nat} (h0 : 0 ≤ delta) (h4 : delta % 4 = 0)
    (hn : delta ≤ 4 * n) : ∃ q : Fin (n + 1), delta = q.val * 4 ∧ delta.toNat / 4 = q.val :=
  ⟨⟨delta.toNat / 4, by omega⟩, by simp only; omega, rfl⟩

/-- The types the short codes stand for. -/
def shortType : Fin 5 → Byte := ![0, 2, 4, 5, 6]

def extendedType : Fin 3 → Byte := ![2, 4, 6]

theorem typeCode_spec {type code : Byte} (h : typeCode type = some code) :
    ∃ c : Fin 5, type = shortType c ∧ code = BitVec.ofNat 8 c.val := by
  unfold typeCode at h
  split at h <;> simp only [Option.some.injEq, reduceCtorEq] at h <;> subst h
  exacts [⟨0, rfl, rfl⟩, ⟨1, rfl, rfl⟩, ⟨2, rfl, rfl⟩, ⟨3, rfl, rfl⟩, ⟨4, rfl, rfl⟩]

theorem extendedShortCode_spec {type code : Byte} (h : extendedShortCode type = some code) :
    ∃ c : Fin 3, type = extendedType c ∧ code = BitVec.ofNat 8 (c.val + 5) := by
  unfold extendedShortCode at h
  split at h <;> simp only [Option.some.injEq, reduceCtorEq] at h <;> subst h
  exacts [⟨0, rfl, rfl⟩, ⟨1, rfl, rfl⟩, ⟨2, rfl, rfl⟩]

theorem shortFields_short : ∀ (q : Fin 8) (t p : Fin 2) (c : Fin 5),
    let b : Byte := (BitVec.ofNat 8 q.val <<< 5) ||| (BitVec.ofNat 8 t.val <<< 4) |||
      (BitVec.ofNat 8 p.val <<< 3) ||| BitVec.ofNat 8 c.val
    b ≠ 0xff ∧ CompactRelocationDecoder.shortFields b =
      (shortType c, BitVec.ofNat 8 p.val, BitVec.ofNat 8 t.val, (q.val * 4 : Int)) := by
  decide

theorem shortFields_extended : ∀ (q : Fin 32) (c : Fin 3),
    let b : Byte := (BitVec.ofNat 8 q.val <<< 3) ||| BitVec.ofNat 8 (c.val + 5)
    (b = 0xff → BitVec.ofNat 8 (c.val + 5) = (7 : Byte) ∧ q.val = 31) ∧
      CompactRelocationDecoder.shortFields b = (extendedType c, 0, 0, (q.val * 4 : Int)) := by
  decide

theorem packed_fields : ∀ (type : Fin 16) (patch target : Fin 4),
    let b : Byte := BitVec.ofNat 8 type.val ||| (BitVec.ofNat 8 patch.val <<< 4) |||
      (BitVec.ofNat 8 target.val <<< 6)
    b &&& 0x0f = BitVec.ofNat 8 type.val ∧ (b >>> 4) &&& 3 = BitVec.ofNat 8 patch.val ∧
      b >>> 6 = BitVec.ofNat 8 target.val := by
  decide

theorem shortRecord_spec {r : Relocation} {delta : Int} {b : Byte}
    (h : shortRecord r delta = some b) :
    b ≠ 0xff ∧ CompactRelocationDecoder.shortFields b =
      (r.type, r.patchSegment, r.targetSegment, delta) := by
  unfold shortRecord at h
  cases hcode : typeCode r.type with
  | none => simp [hcode] at h
  | some code =>
    simp only [hcode, Option.ite_none_right_eq_some, Option.some.injEq] at h
    obtain ⟨⟨hp, ht, h0, h4, h28⟩, rfl⟩ := h
    obtain ⟨c, htype, rfl⟩ := typeCode_spec hcode
    obtain ⟨p, hp⟩ := byte_eq_ofNat_fin (n := 2) hp
    obtain ⟨t, ht⟩ := byte_eq_ofNat_fin (n := 2) ht
    obtain ⟨q, hd, hq⟩ := exists_delta (n := 7) h0 h4 h28
    rw [hq, hp, ht, hd, htype]
    exact shortFields_short q t p c

theorem extendedShortRecord_spec {r : Relocation} {delta : Int} {b : Byte}
    (h : extendedShortRecord r delta = some b) :
    b ≠ 0xff ∧ CompactRelocationDecoder.shortFields b =
      (r.type, r.patchSegment, r.targetSegment, delta) := by
  unfold extendedShortRecord at h
  cases hcode : extendedShortCode r.type with
  | none => simp [hcode] at h
  | some code =>
    simp only [hcode, Option.ite_none_right_eq_some, Option.some.injEq] at h
    obtain ⟨⟨hp, ht, h0, h4, h124, hff⟩, rfl⟩ := h
    obtain ⟨c, htype, rfl⟩ := extendedShortCode_spec hcode
    obtain ⟨q, hd, hq⟩ := exists_delta (n := 31) h0 h4 h124
    rw [hq, hp, ht, hd, htype]
    obtain ⟨h1, h2⟩ := shortFields_extended q c
    refine ⟨fun hb => hff ?_, h2⟩
    obtain ⟨hc, hq31⟩ := h1 hb
    exact ⟨hc, by omega⟩

theorem readMetadata_metadataBytes (r : Relocation) (rest : List Byte) :
    CompactRelocationDecoder.readMetadata (metadataBytes r ++ rest) =
      some (r.type, r.patchSegment, r.targetSegment, rest) := by
  by_cases h : (r.type < 16 ∧ r.patchSegment < 4 ∧ r.targetSegment < 4) ∧
      r.type ||| (r.patchSegment <<< 4) ||| (r.targetSegment <<< 6) ≠ 0xff
  · obtain ⟨⟨htype, hpatch, htarget⟩, hff⟩ := h
    obtain ⟨y, hy⟩ := byte_eq_ofNat_fin (n := 16) htype
    obtain ⟨p, hp⟩ := byte_eq_ofNat_fin (n := 4) hpatch
    obtain ⟨t, ht⟩ := byte_eq_ofNat_fin (n := 4) htarget
    obtain ⟨h1, h2, h3⟩ := packed_fields y p t
    have hm : metadataBytes r = [_] := if_pos ⟨⟨htype, hpatch, htarget⟩, hff⟩
    rw [hm, List.singleton_append]
    simp only [CompactRelocationDecoder.readMetadata, if_pos hff]
    rw [hy, hp, ht, h1, h2, h3]
  · have hm : metadataBytes r = [_, _, _, _] := if_neg h
    rw [hm]
    simp [CompactRelocationDecoder.readMetadata]

/-! ### The decoder follows the encoder -/

/-- The decoder has `rest` ahead of it and carries the encoder's offsets and last metadata. -/
structure CompactSync (e : CompactEncoder) (rest : List Byte) (d : CompactRelocationDecoder) :
    Prop where
  bytes : d.bytes = rest
  offsets : d.previousOffsets = e.previousOffsets
  metadata : ∀ p, e.previous = some p → d.hasMetadata = true ∧ d.type = p.type ∧
    d.patchSegment = p.patchSegment ∧ d.targetSegment = p.targetSegment

namespace CompactSync
variable {e : CompactEncoder} {d : CompactRelocationDecoder} {rest : List Byte}

/-- Applying the encoder's delta restores the offset. -/
theorem emit_delta (r : Relocation) (hoff : d.previousOffsets = e.previousOffsets)
    (htype : d.type = r.type) (hpatch : d.patchSegment = r.patchSegment)
    (htarget : d.targetSegment = r.targetSegment) (hmeta : d.hasMetadata = true) :
    ∃ d', d.emit (e.delta r) = some (r, d') ∧
      CompactSync ⟨Function.update e.previousOffsets r.patchSegment r.offset, some r⟩ d.bytes d' := by
  have hlt := r.offset.isLt
  have hnext : ((d.previousOffsets d.patchSegment).toNat : Int) + e.delta r = r.offset.toNat := by
    rw [CompactEncoder.delta, hoff, hpatch]; omega
  refine ⟨{ d with previousOffsets := Function.update d.previousOffsets d.patchSegment r.offset },
    ?_, rfl, by rw [hoff, hpatch], fun p hp => ?_⟩
  · simp only [CompactRelocationDecoder.emit, hnext]
    rw [if_neg (by omega)]
    simp [htype, hpatch, htarget]
  · obtain rfl := Option.some.inj hp
    exact ⟨hmeta, htype, hpatch, htarget⟩

theorem zigzag_delta_lt (e : CompactEncoder) (r : Relocation) : zigzag (e.delta r) < 2 ^ 33 := by
  have h1 := r.offset.isLt
  have h2 := (e.previousOffsets r.patchSegment).isLt
  exact zigzag_lt (by rw [CompactEncoder.delta]; omega) (by rw [CompactEncoder.delta]; omega)

/-- A one-byte record other than the escape. -/
theorem next_short (r : Relocation) (b : Byte) (hs : CompactSync e (b :: rest) d) (hff : b ≠ 0xff)
    (hf : CompactRelocationDecoder.shortFields b =
      (r.type, r.patchSegment, r.targetSegment, e.delta r)) :
    ∃ d', d.next = some (r, d') ∧
      CompactSync ⟨Function.update e.previousOffsets r.patchSegment r.offset, some r⟩ rest d' := by
  simp only [CompactRelocationDecoder.next, hs.bytes, if_pos hff, hf]
  exact emit_delta r hs.offsets rfl rfl rfl rfl

/-- A long record: the tag carries the delta and whether metadata follows. -/
theorem next_long (r : Relocation) (hs : CompactSync e (e.longRecord r ++ rest) d) :
    ∃ d', d.next = some (r, d') ∧
      CompactSync ⟨Function.update e.previousOffsets r.patchSegment r.offset, some r⟩ rest d' := by
  have hz := zigzag_delta_lt e r
  have hb := hs.bytes
  simp only [CompactEncoder.longRecord, List.cons_append, List.append_assoc] at hb
  simp only [CompactRelocationDecoder.next, hb, ne_eq, not_true_eq_false, if_false]
  cases hchg : e.metadataChanged r with
  | true =>
    rw [readVarint_varint _ 0 0 _ (by decide) (by decide) (by simp; omega)]
    simp only [Bool.toNat_true, if_true, Nat.pow_zero, Nat.mul_one, Nat.zero_add,
      show (zigzag (e.delta r) * 2 + 1) % 2 = 1 by omega, readMetadata_metadataBytes,
      show (zigzag (e.delta r) * 2 + 1) / 2 = zigzag (e.delta r) by omega, unzigzag_zigzag]
    exact emit_delta r hs.offsets rfl rfl rfl rfl
  | false =>
    rw [readVarint_varint _ 0 0 _ (by decide) (by decide) (by simp; omega)]
    -- unchanged metadata: there is a previous record, and it has this record's type and segments
    cases hprev : e.previous with
    | none => simp [CompactEncoder.metadataChanged, hprev] at hchg
    | some p =>
      obtain ⟨hmeta, h1, h2, h3⟩ := hs.metadata p hprev
      simp only [CompactEncoder.metadataChanged, hprev, Bool.or_eq_false_iff, bne_eq_false_iff_eq]
        at hchg
      obtain ⟨⟨g1, g2⟩, g3⟩ := hchg
      simp only [Bool.toNat_false, Nat.add_zero, Nat.pow_zero, Nat.mul_one, Nat.zero_add,
        show ¬ zigzag (e.delta r) * 2 % 2 = 1 by omega, if_false, hmeta, if_true,
        show zigzag (e.delta r) * 2 / 2 = zigzag (e.delta r) by omega, unzigzag_zigzag,
        Bool.false_eq_true, List.nil_append]
      exact emit_delta r hs.offsets (h1.trans g1.symm) (h2.trans g2.symm) (h3.trans g3.symm) rfl

/-- The decoder undoes one step of the encoder. -/
theorem next_step (e : CompactEncoder) (r : Relocation) (rest : List Byte)
    (d : CompactRelocationDecoder) (hs : CompactSync e ((e.step r).1 ++ rest) d) :
    ∃ d', d.next = some (r, d') ∧ CompactSync (e.step r).2 rest d' := by
  unfold CompactEncoder.step at hs ⊢
  cases hshort : shortRecord r (e.delta r) with
  | some b =>
    rw [hshort] at hs
    obtain ⟨hff, hf⟩ := shortRecord_spec hshort
    exact next_short r b hs hff hf
  | none =>
    cases hext : extendedShortRecord r (e.delta r) with
    | some b =>
      rw [hshort, hext] at hs
      obtain ⟨hff, hf⟩ := extendedShortRecord_spec hext
      exact next_short r b hs hff hf
    | none =>
      rw [hshort, hext] at hs
      exact next_long r hs

end CompactSync

namespace CompactRelocationDecoder
variable {d d' : CompactRelocationDecoder} {r : Relocation}

/-- Reading a record leaves the count to `noteDecoded`. -/
theorem emit_decoded {delta : Int} (h : d.emit delta = some (r, d')) : d'.decoded = d.decoded := by
  simp only [emit, Option.ite_none_left_eq_some, Option.some.injEq, Prod.mk.injEq] at h
  obtain ⟨-, -, rfl⟩ := h
  rfl

theorem next_decoded (h : d.next = some (r, d')) : d'.decoded = d.decoded := by
  cases hb : d.bytes with
  | nil => simp [next, hb] at h
  | cons first rest =>
    by_cases hff : first ≠ 0xff
    · simp only [next, hb, if_pos hff] at h
      exact (emit_decoded h).trans rfl
    · cases hv : readVarint 63 rest 0 0 with
      | none => simp only [next, hb, if_neg hff, hv, reduceCtorEq] at h
      | some p =>
        by_cases htag : p.1 % 2 = 1
        · cases hm : readMetadata p.2 with
          | none => simp only [next, hb, if_neg hff, hv, if_pos htag, hm, reduceCtorEq] at h
          | some q =>
            simp only [next, hb, if_neg hff, hv, if_pos htag, hm, if_true] at h
            exact (emit_decoded h).trans rfl
        · simp only [next, hb, if_neg hff, hv, if_neg htag, Option.ite_none_right_eq_some] at h
          exact (emit_decoded h.2).trans rfl

/-- One round of a decoding loop: `next`, then `note_decoded`. -/
def nextNoted (d : CompactRelocationDecoder) : Option (Relocation × CompactRelocationDecoder) :=
  d.next.map fun p => (p.1, p.2.noteDecoded)

theorem nextNoted_eq_some (h : d.nextNoted = some (r, d')) :
    ∃ d₁, d.next = some (r, d₁) ∧ d₁.noteDecoded = d' ∧ d'.decoded = d.decoded + 1 := by
  obtain ⟨⟨r₁, d₁⟩, hnext, heq⟩ := Option.map_eq_some_iff.1 h
  simp only [Prod.mk.injEq] at heq
  obtain ⟨rfl, rfl⟩ := heq
  exact ⟨d₁, hnext, rfl, congrArg (· + 1) (next_decoded hnext)⟩

/-- The decoder gives back `relocations`, one a round, and then has no bytes left. -/
abbrev Decodes (d : CompactRelocationDecoder) (relocations : List Relocation) : Prop :=
  Yields nextNoted (fun d => d.bytes = []) d relocations

/-- Every field of every relocation comes back, in order. -/
theorem decodes_compactRelocations (relocations : List Relocation) :
    Decodes { bytes := compactRelocations relocations } relocations := by
  refine Yields.of_sync CompactSync (fun e r rest d hs => ?_) (fun _ _ h => h.bytes) relocations {} _
    ⟨rfl, rfl, fun _ h => by cases h⟩
  obtain ⟨d', hnext, hs'⟩ := CompactSync.next_step e r rest d hs
  exact ⟨d'.noteDecoded, by rw [nextNoted, hnext, Option.map_some], ⟨hs'.bytes, hs'.offsets, hs'.metadata⟩⟩

end CompactRelocationDecoder

/-! ### Both appliers agree -/

section
variable {sizeBits memorySize : Nat} {guestBase : Word} {segments : List PspLoadSegment}

open CompactRelocationDecoder

/-- The lookahead on a copy of the decoder finds the word the list lookahead finds. -/
theorem lowWordCompact_eq (target : Byte) (memory : Bytes) :
    ∀ (relocations : List Relocation) (d : CompactRelocationDecoder), d.Decodes relocations →
      lowWordCompact sizeBits memorySize segments target memory relocations.length d =
        lowWord sizeBits memorySize segments target memory relocations
  | [], _, _ => rfl
  | r :: rest, d, h => by
    obtain ⟨d', hnoted, hrest⟩ := h
    obtain ⟨d₁, hnext, rfl, -⟩ := nextNoted_eq_some hnoted
    have ih := lowWordCompact_eq target memory rest _ hrest
    simp only [List.length_cons, lowWordCompact, hnext, ih]
    rfl

/-- From any decoder that still decodes `relocations`, with the rest of `total` counted already. -/
theorem applyCompact_eq (total : Nat) :
    ∀ (relocations : List Relocation) (memory : Bytes) (d : CompactRelocationDecoder),
      d.Decodes relocations → d.decoded + relocations.length = total →
      applyCompact sizeBits memorySize guestBase segments total memory relocations.length d =
        applyRelocations sizeBits memorySize guestBase segments memory relocations
  | [], memory, d, h, htotal => by
    have hbytes : d.bytes = [] := h
    have hdone : d.consumed total = true := by simp [consumed, hbytes, ← htotal]
    simp only [List.length_nil, applyCompact, applyRelocations, hdone, if_true]
  | r :: rest, memory, d, h, htotal => by
    obtain ⟨d', hnoted, hrest⟩ := h
    obtain ⟨d₁, hnext, rfl, hcount⟩ := nextNoted_eq_some hnoted
    have hlow : lowWordCompact sizeBits memorySize segments r.targetSegment memory rest.length _ =
        lowWord sizeBits memorySize segments r.targetSegment memory rest :=
      lowWordCompact_eq r.targetSegment memory rest _ hrest
    have hcount' : d₁.noteDecoded.decoded + rest.length = total := by
      rw [List.length_cons] at htotal; omega
    simp only [List.length_cons, applyCompact, hnext, hlow,
      applyCompact_eq total rest _ _ hrest hcount']
    rfl

/-- Applying the compact stream of a list is applying the list: same result, same bytes. -/
theorem applyCompactPspRelocations_compactRelocations (sizeBits memorySize : Nat)
    (memory : Option Bytes) (guestBase : Word) (segments : Option (List PspLoadSegment))
    (relocations : List Relocation) :
    Decodes { bytes := compactRelocations relocations } relocations ∧
      applyCompactPspRelocations sizeBits memory memorySize guestBase segments
          (compactRelocations relocations) relocations.length =
        applyPspRelocations sizeBits memory memorySize guestBase segments relocations := by
  have hdec := decodes_compactRelocations relocations
  refine ⟨hdec, ?_⟩
  cases memory with
  | none => rfl
  | some memory =>
    cases segments with
    | none => rfl
    | some segments =>
      have happly : applyCompact sizeBits memorySize guestBase segments relocations.length memory
            relocations.length _ =
          applyRelocations sizeBits memorySize guestBase segments memory relocations :=
        applyCompact_eq relocations.length relocations memory _ hdec (Nat.zero_add _)
      simp only [applyCompactPspRelocations, applyPspRelocations, happly]

end

end Psprism
