import Psprism.RelocCompact
import Psprism.RelocRun

/-!
# The compact decoder on its bytes (`CompactRelocationDecoder`, `relocation.hpp`)

The decoder with its cursor, with every operation that could go wrong on arbitrary bytes checked: a byte is read
only below the size, a shift or a sum keeps all its bits, a narrowed value fits, a word is read and written inside
the buffer. Where no check fails the steps are those of the header, and none ever fails: the checked decoder is
the decoder on the list of bytes that are left.
-/

namespace Psprism

open Codec

/-- What a run of the header must never do. -/
inductive StreamFault
  | pastEnd | overflow | outsideBuffer
deriving DecidableEq, Repr

/-! ### Checked operations -/

/-- A `std::uint64_t`. -/
def uint64 (x : Nat) : Except StreamFault Nat := if x < 2 ^ 64 then .ok x else .error .overflow

/-- A `std::int64_t`. -/
def int64 (x : Int) : Except StreamFault Int := if -2 ^ 63 ≤ x ∧ x < 2 ^ 63 then .ok x else .error .overflow

/-- `static_cast<std::uint32_t>` of a `std::int64_t`. -/
def uint32 (x : Int) : Except StreamFault Word :=
  if 0 ≤ x ∧ x < 2 ^ 32 then .ok (BitVec.ofNat 32 x.toNat) else .error .overflow

/-- `read_u32`, in a buffer of `memorySize` bytes. -/
def checkedReadU32 (memorySize : Nat) (memory : Bytes) (offset : Nat) : Except StreamFault Word :=
  if offset + 4 ≤ memorySize then .ok (readU32 memory offset) else .error .outsideBuffer

/-- `write_u32`, in a buffer of `memorySize` bytes. -/
def checkedWriteU32 (memorySize : Nat) (memory : Bytes) (offset : Nat) (value : Word) :
    Except StreamFault Bytes :=
  if offset + 4 ≤ memorySize then .ok (writeU32 memory offset value) else .error .outsideBuffer

section
variable {memorySize offset : Nat} {x : Nat} {z : Int}

theorem uint64_eq (h : x < 2 ^ 64) : uint64 x = .ok x := if_pos h

theorem int64_eq (hlo : -2 ^ 63 ≤ z) (hhi : z < 2 ^ 63) : int64 z = .ok z := if_pos ⟨hlo, hhi⟩

theorem uint32_eq (hlo : 0 ≤ z) (hhi : z < 2 ^ 32) : uint32 z = .ok (BitVec.ofNat 32 z.toNat) :=
  if_pos ⟨hlo, hhi⟩

theorem checkedReadU32_eq (memory : Bytes) (h : offset + 4 ≤ memorySize) :
    checkedReadU32 memorySize memory offset = .ok (readU32 memory offset) := if_pos h

theorem checkedWriteU32_eq (memory : Bytes) (value : Word) (h : offset + 4 ≤ memorySize) :
    checkedWriteU32 memorySize memory offset value = .ok (writeU32 memory offset value) := if_pos h

theorem ok_bind {ε α β : Type} (x : α) (f : α → Except ε β) : (Except.ok x >>= f) = f x := rfl

end

/-! ### The decoder -/

/-- `CompactRelocationDecoder`; `size_` is the length of `bytes`. -/
structure CursorDecoder where
  bytes : List Byte
  cursor : Nat := 0
  decoded : Nat := 0
  previousOffsets : Byte → Word := fun _ => 0
  type : Byte := 0
  patchSegment : Byte := 0
  targetSegment : Byte := 0
  hasMetadata : Bool := false

namespace CursorDecoder

/-- `bytes_[cursor_++]`. -/
def readByte (d : CursorDecoder) : Except StreamFault (Byte × CursorDecoder) :=
  match d.bytes[d.cursor]? with
  | none => .error .pastEnd
  | some b => .ok (b, { d with cursor := d.cursor + 1 })

/-- The loop that reads the tag of a long record. -/
def readTag (d : CursorDecoder) (tag shift : Nat) : Except StreamFault (Option (Nat × CursorDecoder)) :=
  if d.bytes.length ≤ d.cursor ∨ 63 ≤ shift then .ok none
  else do
    let (byte, d) ← d.readByte
    let payload ← uint64 ((byte &&& 0x7f).toNat <<< shift)
    if byte &&& 0x80 = 0 then .ok (some (tag ||| payload, d)) else d.readTag (tag ||| payload) (shift + 7)
termination_by 63 - shift

/-- Type and segments of a long record. -/
def readMetadata (d : CursorDecoder) : Except StreamFault (Option CursorDecoder) :=
  if d.bytes.length ≤ d.cursor then .ok none
  else do
    let (packed, d) ← d.readByte
    if packed ≠ 0xff then
      .ok (some { d with type := packed &&& 0x0f, patchSegment := (packed >>> 4) &&& 3,
                         targetSegment := packed >>> 6, hasMetadata := true })
    else if d.bytes.length < d.cursor ∨ d.bytes.length - d.cursor < 3 then .ok none
    else do
      let (type, d) ← d.readByte
      let (patch, d) ← d.readByte
      let (target, d) ← d.readByte
      .ok (some { d with type := type, patchSegment := patch, targetSegment := target, hasMetadata := true })

/-- The delta of a tag. -/
def tagDelta (tag : Nat) : Except StreamFault Int :=
  let zigzag := tag >>> 1
  let magnitude := zigzag >>> 1
  if zigzag % 2 = 1 then do
    let successor ← uint64 (magnitude + 1)
    let negated ← int64 successor
    int64 (-negated)
  else int64 magnitude

/-- The end of `next`. -/
def emit (d : CursorDecoder) (delta : Int) : Except StreamFault (Option (Relocation × CursorDecoder)) := do
  let nextOffset ← int64 ((d.previousOffsets d.patchSegment).toNat + delta)
  if nextOffset < 0 ∨ 0xffffffff < nextOffset then .ok none
  else do
    let offset ← uint32 nextOffset
    .ok (some (⟨offset, d.type, d.patchSegment, d.targetSegment⟩,
      { d with previousOffsets := Function.update d.previousOffsets d.patchSegment offset }))

/-- `next`; `none` where it clears `valid_` and returns false. -/
def next (d : CursorDecoder) : Except StreamFault (Option (Relocation × CursorDecoder)) :=
  if d.bytes.length ≤ d.cursor then .ok none
  else do
    let (first, d) ← d.readByte
    if first ≠ 0xff then
      let (type, patch, target, delta) := CompactRelocationDecoder.shortFields first
      emit { d with type := type, patchSegment := patch, targetSegment := target, hasMetadata := true } delta
    else
      match ← d.readTag 0 0 with
      | none => .ok none
      | some (tag, d) =>
        match ← if tag % 2 = 1 then d.readMetadata else .ok (some d) with
        | none => .ok none
        | some d =>
          if d.hasMetadata then do
            let delta ← tagDelta tag
            d.emit delta
          else .ok none

def noteDecoded (d : CursorDecoder) : CursorDecoder := { d with decoded := d.decoded + 1 }

/-- `consumed`, on a decoder whose last `next` succeeded. -/
def consumed (d : CursorDecoder) (relocationCount : Nat) : Bool :=
  d.decoded == relocationCount && d.cursor == d.bytes.length

/-- The decoder on the bytes that are left. -/
def view (d : CursorDecoder) : CompactRelocationDecoder where
  bytes := d.bytes.drop d.cursor
  decoded := d.decoded
  previousOffsets := d.previousOffsets
  type := d.type
  patchSegment := d.patchSegment
  targetSegment := d.targetSegment
  hasMetadata := d.hasMetadata

theorem view_noteDecoded (d : CursorDecoder) : d.noteDecoded.view = d.view.noteDecoded := rfl

end CursorDecoder

/-! ### Applying the stream -/

section
variable (sizeBits memorySize : Nat) (guestBase : Word) (segments : List PspLoadSegment)

/-- The LO16 lookahead over at most `count` further records of a copy of the decoder. -/
def checkedLowWord (targetSegment : Byte) (memory : Bytes) :
    Nat → CursorDecoder → Except StreamFault (Except RelocationResult Word)
  | 0, _ => .ok (.error .missingLo16)
  | count + 1, lookahead => do
    match ← lookahead.next with
    | none => .ok (.error .invalidStream)
    | some (low, lookahead) =>
      if low.type ≠ 6 ∨ low.targetSegment ≠ targetSegment then
        checkedLowWord targetSegment memory count lookahead.noteDecoded
      else
        match relocationWordOffset sizeBits low segments memorySize with
        | none => .ok (.error .invalidPatch)
        | some lowOffset => do
          let word ← checkedReadU32 memorySize memory lowOffset
          .ok (.ok word)

/-- The lookahead runs for HI16 only. -/
def checkedLow (r : Relocation) (memory : Bytes) (count : Nat) (d : CursorDecoder) :
    Except StreamFault (Except RelocationResult Word) :=
  if r.type = 5 then checkedLowWord sizeBits memorySize segments r.targetSegment memory count d
  else .ok (.error .missingLo16)

/-- The loop of `apply_compact_psp_relocations` with `count` records to go, `total` in all. -/
def checkedApply (total : Nat) (memory : Bytes) :
    Nat → CursorDecoder → Except StreamFault (RelocationResult × Bytes)
  | 0, d => .ok (if d.consumed total then .success else .invalidStream, memory)
  | count + 1, d => do
    match ← d.next with
    | none => .ok (.invalidStream, memory)
    | some (r, d) =>
      let d := d.noteDecoded
      match findSegment segments r.targetSegment with
      | none => .ok (.invalidSegment, memory)
      | some target =>
        match relocationWordOffset sizeBits r segments memorySize with
        | none => .ok (.invalidPatch, memory)
        | some patchOffset => do
          let word ← checkedReadU32 memorySize memory patchOffset
          let low ← checkedLow sizeBits memorySize segments r memory count d
          match patchedWord r.type word (guestBase + target.address) low with
          | .error e => .ok (e, memory)
          | .ok word => do
            let memory ← checkedWriteU32 memorySize memory patchOffset word
            checkedApply total memory count d

end

/-- `apply_compact_psp_relocations`, checked. -/
def checkedApplyCompact (sizeBits : Nat) (memory : Option Bytes) (memorySize : Nat) (guestBase : Word)
    (segments : Option (List PspLoadSegment)) (bytes : List Byte) (relocationCount : Nat) :
    Except StreamFault (RelocationResult × Option Bytes) :=
  match memory, segments with
  | some memory, some segments => do
    let (result, memory) ← checkedApply sizeBits memorySize guestBase segments relocationCount memory
      relocationCount { bytes := bytes }
    .ok (result, some memory)
  | memory, _ => .ok (.invalidPatch, memory)

/-! ### No check of the decoder fails -/

namespace CursorDecoder
variable {d : CursorDecoder}

/-- A byte below the size. -/
theorem readByte_spec (h : d.cursor < d.bytes.length) :
    ∃ b, d.bytes.drop d.cursor = b :: d.bytes.drop (d.cursor + 1) ∧
      d.readByte = .ok (b, { d with cursor := d.cursor + 1 }) := by
  refine ⟨d.bytes[d.cursor], List.drop_eq_getElem_cons h, ?_⟩
  rw [readByte, List.getElem?_eq_getElem h]

theorem drop_of_le (h : d.bytes.length ≤ d.cursor) : d.bytes.drop d.cursor = [] :=
  List.drop_eq_nil_of_le h

/-- The tag is that of the list of bytes, and stays below 2 ^ 63. -/
theorem readTag_spec (tag shift : Nat) :
    ∀ d : CursorDecoder, tag < 2 ^ shift → shift % 7 = 0 → d.cursor ≤ d.bytes.length →
    match readVarint 63 (d.bytes.drop d.cursor) shift tag with
    | none => d.readTag tag shift = .ok none
    | some (t, rest) => ∃ c, d.cursor < c ∧ c ≤ d.bytes.length ∧ rest = d.bytes.drop c ∧ t < 2 ^ 63 ∧
        d.readTag tag shift = .ok (some (t, { d with cursor := c })) := by
  induction hn : 63 - shift using Nat.strongRecOn generalizing tag shift with
  | ind n ih =>
    intro d htag hmod hcursor
    rcases Nat.lt_or_ge d.cursor d.bytes.length with hlt | hge
    · obtain ⟨b, hdrop, hread⟩ := readByte_spec hlt
      rw [hdrop, readVarint]
      by_cases hshift : 63 ≤ shift
      · rw [if_pos hshift, readTag, if_pos (.inr hshift)]
      · have hle : shift + 7 ≤ 63 := by omega
        have hpow : 2 ^ (shift + 7) ≤ 2 ^ 63 := Nat.pow_le_pow_right (by decide) hle
        have hmask : ∀ b : Byte, (b &&& 0x7f).toNat < 2 ^ 7 := by decide
        have hpayload := hmask b
        have hshifted : (b &&& 0x7f).toNat <<< shift < 2 ^ (shift + 7) := by
          rw [Nat.shiftLeft_eq, Nat.pow_add, Nat.mul_comm]
          exact Nat.mul_lt_mul_of_pos_left hpayload (Nat.two_pow_pos shift)
        have htag' : tag ||| (b &&& 0x7f).toNat <<< shift < 2 ^ (shift + 7) :=
          Nat.or_lt_two_pow (htag.trans_le (Nat.pow_le_pow_right (by decide) (by omega))) hshifted
        have hlt64 : (b &&& 0x7f).toNat <<< shift < 2 ^ 64 := by omega
        have hstep : d.readTag tag shift =
            if b &&& 0x80 = 0 then .ok (some (tag ||| (b &&& 0x7f).toNat <<< shift, { d with cursor := d.cursor + 1 }))
            else readTag { d with cursor := d.cursor + 1 } (tag ||| (b &&& 0x7f).toNat <<< shift) (shift + 7) := by
          rw [readTag, if_neg (by omega), hread, ok_bind]
          dsimp only
          rw [uint64_eq hlt64, ok_bind]
        rw [if_neg hshift, hstep]
        dsimp only
        by_cases hlast : b &&& 0x80 = 0
        · rw [if_pos hlast, if_pos hlast]
          exact ⟨d.cursor + 1, Nat.lt_succ_self _, hlt, rfl, by omega, rfl⟩
        · rw [if_neg hlast, if_neg hlast]
          have hrec := ih (63 - (shift + 7)) (by omega) _ (shift + 7) rfl { d with cursor := d.cursor + 1 }
            htag' (by omega) hlt
          dsimp only at hrec
          split at hrec
          next heq =>
            rw [heq]
            exact hrec
          next t rest heq =>
            obtain ⟨c, hc, hrec⟩ := hrec
            rw [heq]
            exact ⟨c, by omega, hrec⟩
    · rw [drop_of_le hge, readVarint, readTag, if_pos (.inl hge)]

/-- The metadata are those of the list of bytes. -/
theorem readMetadata_spec (d : CursorDecoder) :
    match CompactRelocationDecoder.readMetadata (d.bytes.drop d.cursor) with
    | none => d.readMetadata = .ok none
    | some (type, patch, target, rest) => ∃ c, d.cursor < c ∧ c ≤ d.bytes.length ∧ rest = d.bytes.drop c ∧
        d.readMetadata = .ok (some { d with cursor := c, type := type, patchSegment := patch,
                                            targetSegment := target, hasMetadata := true }) := by
  rcases Nat.lt_or_ge d.cursor d.bytes.length with hlt | hge
  · obtain ⟨packed, hdrop, hread⟩ := readByte_spec hlt
    rw [hdrop, CompactRelocationDecoder.readMetadata.eq_def, readMetadata, if_neg (Nat.not_le.2 hlt), hread, ok_bind]
    dsimp only
    by_cases hff : packed ≠ 0xff
    · rw [if_pos hff, if_pos hff]
      exact ⟨d.cursor + 1, by omega, hlt, rfl, rfl⟩
    · rw [if_neg hff, if_neg hff]
      by_cases hshort : d.bytes.length - (d.cursor + 1) < 3
      · rw [if_pos (.inr hshort)]
        have hlength : (d.bytes.drop (d.cursor + 1)).length < 3 := by rwa [List.length_drop]
        split
        next => rfl
        next heq =>
          split at heq
          next heq' =>
            rw [heq'] at hlength
            simp only [List.length_cons] at hlength
            omega
          next => cases heq
      · rw [if_neg (by omega)]
        obtain ⟨type, hdrop₁, hread₁⟩ := @readByte_spec { d with cursor := d.cursor + 1 } (by dsimp only; omega)
        obtain ⟨patch, hdrop₂, hread₂⟩ := @readByte_spec { d with cursor := d.cursor + 2 } (by dsimp only; omega)
        obtain ⟨target, hdrop₃, hread₃⟩ := @readByte_spec { d with cursor := d.cursor + 3 } (by dsimp only; omega)
        dsimp only at hdrop₁ hdrop₂ hdrop₃
        rw [hdrop₁, hdrop₂, hdrop₃, hread₁, ok_bind]
        dsimp only
        rw [hread₂, ok_bind]
        dsimp only
        rw [hread₃, ok_bind]
        exact ⟨d.cursor + 4, by omega, by omega, rfl, rfl⟩
  · rw [drop_of_le hge, CompactRelocationDecoder.readMetadata, readMetadata, if_pos hge]

/-- A tag's delta, within 2 ^ 61. -/
theorem tagDelta_spec {tag : Nat} (h : tag < 2 ^ 63) :
    tagDelta tag = .ok (unzigzag (tag / 2)) ∧ -2 ^ 61 ≤ unzigzag (tag / 2) ∧ unzigzag (tag / 2) ≤ 2 ^ 61 := by
  have h1 : ∀ x : Nat, x >>> 1 = x / 2 := fun x => Nat.shiftRight_eq_div_pow x 1
  rw [tagDelta, h1, h1, unzigzag]
  split
  · rw [uint64_eq (by omega), ok_bind, int64_eq (by omega) (by omega), ok_bind, int64_eq (by omega) (by omega)]
    refine ⟨?_, by omega, by omega⟩
    congr 1
  · rw [int64_eq (by omega) (by omega)]
    exact ⟨rfl, by omega, by omega⟩

/-- The checked operation gives what the list's gives, and the cursor has moved on within the bytes. -/
def Follows (d : CursorDecoder) (checked : Except StreamFault (Option (Relocation × CursorDecoder)))
    (listed : Option (Relocation × CompactRelocationDecoder)) : Prop :=
  ∃ outcome, checked = .ok outcome ∧ outcome.map (fun p => (p.1, p.2.view)) = listed ∧
    ∀ r d', outcome = some (r, d') → d'.bytes = d.bytes ∧ d.cursor < d'.cursor ∧ d'.cursor ≤ d.bytes.length

theorem follows_none : Follows d (.ok none) none := ⟨none, rfl, rfl, fun _ _ h => by cases h⟩

theorem emit_spec {d₀ : CursorDecoder} {delta : Int} (hlo : -2 ^ 61 ≤ delta) (hhi : delta ≤ 2 ^ 61)
    (hbytes : d.bytes = d₀.bytes) (hcursor : d₀.cursor < d.cursor) (hle : d.cursor ≤ d₀.bytes.length) :
    Follows d₀ (d.emit delta) (d.view.emit delta) := by
  have hlt := (d.previousOffsets d.patchSegment).isLt
  rw [emit, int64_eq (by omega) (by omega), ok_bind]
  -- the sum stays unbounded on the list's side
  have hlisted : d.view.emit delta =
      if ((d.previousOffsets d.patchSegment).toNat + delta : Int) < 0 ∨
          0xffffffff < ((d.previousOffsets d.patchSegment).toNat + delta : Int) then none
      else
        let offset := BitVec.ofNat 32 ((d.previousOffsets d.patchSegment).toNat + delta : Int).toNat
        some (⟨offset, d.type, d.patchSegment, d.targetSegment⟩,
          { d.view with previousOffsets := Function.update d.previousOffsets d.patchSegment offset }) := rfl
  by_cases hrange : ((d.previousOffsets d.patchSegment).toNat + delta : Int) < 0 ∨
      0xffffffff < ((d.previousOffsets d.patchSegment).toNat + delta : Int)
  · rw [hlisted, if_pos hrange, if_pos hrange]
    exact follows_none
  · rw [hlisted, if_neg hrange, if_neg hrange, uint32_eq (by omega) (by omega), ok_bind]
    refine ⟨_, rfl, rfl, ?_⟩
    rintro r d' heq
    obtain ⟨-, rfl⟩ := Prod.mk.inj (Option.some.inj heq)
    exact ⟨hbytes, hcursor, hle⟩

theorem shortFields_delta (first : Byte) :
    0 ≤ (CompactRelocationDecoder.shortFields first).2.2.2 ∧
      (CompactRelocationDecoder.shortFields first).2.2.2 ≤ 2 ^ 61 := by
  revert first
  decide

/-- `next` reads below the size and overflows nothing, on every byte stream and in every state. -/
theorem next_spec (d : CursorDecoder) : Follows d d.next d.view.next := by
  rcases Nat.lt_or_ge d.cursor d.bytes.length with hlt | hge
  · obtain ⟨first, hdrop, hread⟩ := readByte_spec hlt
    have hview : d.view.bytes = first :: d.bytes.drop (d.cursor + 1) := hdrop
    rw [next, if_neg (Nat.not_le.2 hlt), hread, ok_bind, CompactRelocationDecoder.next, hview]
    dsimp only
    by_cases hff : first ≠ 0xff
    · rw [if_pos hff, if_pos hff]
      obtain ⟨hlo, hhi⟩ := shortFields_delta first
      exact emit_spec (Int.le_trans (by decide) hlo) hhi rfl (Nat.lt_succ_self _) hlt
    · rw [if_neg hff, if_neg hff]
      have htag := readTag_spec 0 0 { d with cursor := d.cursor + 1 } (by decide) rfl hlt
      dsimp only at htag
      split at htag
      next heq =>
        rw [htag, heq, ok_bind]
        exact follows_none
      next tag rest heq =>
        obtain ⟨c, hc, hle, rfl, htag63, htag⟩ := htag
        obtain ⟨hdelta, hlo, hhi⟩ := tagDelta_spec htag63
        rw [htag, heq, ok_bind]
        dsimp only
        by_cases hodd : tag % 2 = 1
        · rw [if_pos hodd, if_pos hodd]
          have hmeta := readMetadata_spec { d with cursor := c }
          dsimp only at hmeta
          cases hvalue : CompactRelocationDecoder.readMetadata (d.bytes.drop c) with
          | none =>
            rw [hvalue] at hmeta
            rw [hmeta, ok_bind]
            exact follows_none
          | some value =>
            obtain ⟨type, patch, target, rest⟩ := value
            rw [hvalue] at hmeta
            obtain ⟨c', hc', hle', rfl, hmeta⟩ := hmeta
            rw [hmeta, ok_bind, hdelta]
            exact emit_spec hlo hhi rfl (by dsimp only; omega) hle'
        · rw [if_neg hodd, if_neg hodd, ok_bind]
          dsimp only
          by_cases hmeta : d.hasMetadata = true
          · rw [if_pos hmeta, hdelta, if_pos (show d.view.hasMetadata = true from hmeta)]
            exact emit_spec hlo hhi rfl (by dsimp only; omega) hle
          · rw [if_neg hmeta, if_neg (show ¬ d.view.hasMetadata = true from hmeta)]
            exact follows_none
  · have hview : d.view.bytes = [] := drop_of_le hge
    rw [next, if_pos hge, CompactRelocationDecoder.next, hview]
    exact follows_none

/-- The decoders that calls of `next` lead to. -/
inductive Reached (bytes : List Byte) : CursorDecoder → Prop
  | start : Reached bytes { bytes := bytes }
  | next {d d' : CursorDecoder} {r : Relocation} (h : Reached bytes d) (hnext : d.next = .ok (some (r, d'))) :
    Reached bytes d'
  | noteDecoded {d : CursorDecoder} (h : Reached bytes d) : Reached bytes d.noteDecoded

theorem Reached.bytes_eq {bytes : List Byte} (h : Reached bytes d) : d.bytes = bytes ∧ d.cursor ≤ bytes.length := by
  induction h with
  | start => exact ⟨rfl, Nat.zero_le _⟩
  | @next d d' r h hnext ih =>
    obtain ⟨outcome, hok, -, hmoved⟩ := next_spec d
    rw [hnext] at hok
    obtain ⟨hbytes, -, hle⟩ := hmoved r d' (Except.ok.inj hok).symm
    rw [ih.1] at hbytes hle
    exact ⟨hbytes, hle⟩
  | noteDecoded h ih => exact ih

end CursorDecoder

/-! ### No check of the applier fails -/

section
variable {sizeBits memorySize : Nat} {guestBase : Word} {segments : List PspLoadSegment}

theorem relocationWordOffset_le {r : Relocation} {offset : Nat}
    (h : relocationWordOffset sizeBits r segments memorySize = some offset) : offset + 4 ≤ memorySize := by
  rw [relocationWordOffset] at h
  split at h
  · cases h
  · simp only [Option.ite_none_left_eq_some, Option.ite_none_right_eq_some, Option.some.injEq] at h
    obtain ⟨-, ⟨hle, hroom⟩, rfl⟩ := h
    omega

/-- Only a HI16 looks at the outcome of the lookahead. -/
theorem patchedWord_of_ne {type : Byte} (htype : type ≠ 5) (word relocateTo : Word)
    (low low' : Except RelocationResult Word) :
    patchedWord type word relocateTo low = patchedWord type word relocateTo low' := by
  unfold patchedWord
  split
  case h_4 => exact absurd rfl htype
  all_goals rfl

theorem checkedLowWord_eq (targetSegment : Byte) (memory : Bytes) :
    ∀ (count : Nat) (d : CursorDecoder),
      checkedLowWord sizeBits memorySize segments targetSegment memory count d =
        .ok (lowWordCompact sizeBits memorySize segments targetSegment memory count d.view)
  | 0, _ => rfl
  | count + 1, d => by
    obtain ⟨outcome, hnext, hview, -⟩ := CursorDecoder.next_spec d
    rw [checkedLowWord, lowWordCompact, hnext, ← hview, ok_bind]
    cases outcome with
    | none => rfl
    | some p =>
      obtain ⟨low, d'⟩ := p
      dsimp only [Option.map_some]
      split
      · exact checkedLowWord_eq targetSegment memory count d'.noteDecoded
      · cases hoffset : relocationWordOffset sizeBits low segments memorySize with
        | none => rfl
        | some offset =>
          dsimp only
          rw [checkedReadU32_eq memory (relocationWordOffset_le hoffset), ok_bind]

theorem checkedLow_spec (r : Relocation) (memory : Bytes) (word relocateTo : Word) (count : Nat) (d : CursorDecoder) :
    ∃ low, checkedLow sizeBits memorySize segments r memory count d = .ok low ∧
      patchedWord r.type word relocateTo low = patchedWord r.type word relocateTo
        (lowWordCompact sizeBits memorySize segments r.targetSegment memory count d.view) := by
  by_cases htype : r.type = 5
  · rw [checkedLow, if_pos htype, checkedLowWord_eq]
    exact ⟨_, rfl, rfl⟩
  · rw [checkedLow, if_neg htype]
    exact ⟨_, rfl, patchedWord_of_ne htype _ _ _ _⟩

/-- The checked applier is the applier, and fails on no stream. -/
theorem checkedApply_eq (total : Nat) :
    ∀ (count : Nat) (memory : Bytes) (d : CursorDecoder), d.cursor ≤ d.bytes.length →
      checkedApply sizeBits memorySize guestBase segments total memory count d =
        .ok (applyCompact sizeBits memorySize guestBase segments total memory count d.view)
  | 0, memory, d, hle => by
    have hend : (d.cursor == d.bytes.length) = d.view.bytes.isEmpty := by
      rw [Bool.eq_iff_iff, beq_iff_eq, List.isEmpty_iff, CursorDecoder.view, List.drop_eq_nil_iff]
      omega
    have hconsumed : d.consumed total = d.view.consumed total := by
      rw [CursorDecoder.consumed, CompactRelocationDecoder.consumed, hend]
      rfl
    rw [checkedApply, applyCompact, hconsumed]
  | count + 1, memory, d, hle => by
    obtain ⟨outcome, hnext, hview, hmoved⟩ := CursorDecoder.next_spec d
    rw [checkedApply, applyCompact, hnext, ← hview, ok_bind]
    cases outcome with
    | none => rfl
    | some p =>
      obtain ⟨r, d'⟩ := p
      obtain ⟨hbytes, -, hle'⟩ := hmoved r d' rfl
      dsimp only [Option.map_some]
      cases findSegment segments r.targetSegment with
      | none => rfl
      | some target =>
        dsimp only
        cases hoffset : relocationWordOffset sizeBits r segments memorySize with
        | none => rfl
        | some offset =>
          dsimp only
          have hroom := relocationWordOffset_le hoffset
          rw [checkedReadU32_eq memory hroom, ok_bind]
          obtain ⟨low, hlow, hpatched⟩ := checkedLow_spec r memory (readU32 memory offset) (guestBase + target.address)
            count d'.noteDecoded
          rw [hlow, ok_bind, hpatched, CursorDecoder.view_noteDecoded]
          cases patchedWord r.type (readU32 memory offset) (guestBase + target.address)
            (lowWordCompact sizeBits memorySize segments r.targetSegment memory count d'.view.noteDecoded) with
          | error e => rfl
          | ok word =>
            dsimp only
            rw [checkedWriteU32_eq memory word hroom, ok_bind]
            refine checkedApply_eq total count _ d'.noteDecoded ?_
            show d'.cursor ≤ d'.bytes.length
            rwa [hbytes]

theorem checkedApplyCompact_eq (sizeBits : Nat) (memory : Option Bytes) (memorySize : Nat) (guestBase : Word)
    (segments : Option (List PspLoadSegment)) (bytes : List Byte) (relocationCount : Nat) :
    checkedApplyCompact sizeBits memory memorySize guestBase segments bytes relocationCount =
      .ok (applyCompactPspRelocations sizeBits memory memorySize guestBase segments bytes relocationCount) := by
  cases memory with
  | none => rfl
  | some memory =>
    cases segments with
    | none => rfl
    | some segments =>
      rw [checkedApplyCompact, applyCompactPspRelocations, checkedApply_eq _ _ _ _ (Nat.zero_le _), ok_bind]
      rfl

/-! ### Patches stay inside the segments -/

/-- The byte of the buffer belongs to the segment; an address is a `size_t`. -/
def PspLoadSegment.Covers (sizeBits : Nat) (s : PspLoadSegment) (i : Nat) : Prop :=
  ∃ k < s.memorySize.toNat, i = (s.address.toNat + k) % 2 ^ sizeBits

/-- A segment that ends within the addresses covers a range. -/
theorem PspLoadSegment.covers_iff {s : PspLoadSegment} (h : s.address.toNat + s.memorySize.toNat ≤ 2 ^ sizeBits)
    (i : Nat) : s.Covers sizeBits i ↔ s.address.toNat ≤ i ∧ i < s.address.toNat + s.memorySize.toNat := by
  constructor
  · rintro ⟨k, hk, rfl⟩
    rw [Nat.mod_eq_of_lt (by omega)]
    omega
  · rintro ⟨hlo, hhi⟩
    refine ⟨i - s.address.toNat, by omega, ?_⟩
    rw [Nat.mod_eq_of_lt (by omega)]
    omega

theorem relocationWordOffset_covers {r : Relocation} {offset : Nat} (hsize : memorySize < 2 ^ sizeBits)
    (h : relocationWordOffset sizeBits r segments memorySize = some offset) {j : Nat} (hj : j < 4) :
    ∃ s ∈ segments, s.Covers sizeBits (offset + j) := by
  have hroom := relocationWordOffset_le h
  rw [relocationWordOffset] at h
  split at h
  · cases h
  next s hs =>
    simp only [Option.ite_none_left_eq_some, Option.ite_none_right_eq_some, Option.some.injEq] at h
    obtain ⟨hguard, -, rfl⟩ := h
    obtain ⟨hle, hfour⟩ := not_or.1 hguard
    rw [BitVec.not_lt] at hle hfour
    have hfour' : 4 ≤ s.memorySize.toNat - r.offset.toNat := by
      rw [← BitVec.toNat_sub_of_le hle]
      exact hfour
    refine ⟨s, List.mem_of_find?_eq_some hs, r.offset.toNat + j, by omega, ?_⟩
    rw [← Nat.add_assoc, ← Nat.mod_add_mod (s.address.toNat + r.offset.toNat)]
    exact (Nat.mod_eq_of_lt (by omega)).symm

/-- A byte that no relocation can patch keeps its value. -/
theorem applyCompact_keeps {i : Nat}
    (h : ∀ r offset, relocationWordOffset sizeBits r segments memorySize = some offset → ∀ j < 4, i ≠ offset + j)
    (total : Nat) : ∀ (count : Nat) (memory : Bytes) (d : CompactRelocationDecoder),
      (applyCompact sizeBits memorySize guestBase segments total memory count d).2 i = memory i
  | 0, _, _ => rfl
  | count + 1, memory, d => by
    rw [applyCompact]
    split
    · rfl
    dsimp only
    split
    · rfl
    split
    · rfl
    next r d' _ _ _ _ offset hoffset =>
      split
      · rfl
      · rw [applyCompact_keeps h total count]
        exact writeU32_of_not_mem _ _ _ (h _ _ hoffset)

end

/-- On every byte stream the decoder reads below its size and overflows nothing, and a record that it returns has moved
its cursor on. So for every record count the applier ends with a result, without a fault, and what it has changed lies
in the buffer and in a segment. -/
theorem compact_relocations_safe (sizeBits : Nat) (memory : Option Bytes) (memorySize : Fin (2 ^ sizeBits))
    (guestBase : Word) (segments : Option (List PspLoadSegment)) (bytes : List Byte) (relocationCount : Nat) :
    (∀ d, CursorDecoder.Reached bytes d → ∃ outcome, d.next = .ok outcome ∧
      ∀ r d', outcome = some (r, d') → d'.bytes = bytes ∧ d.cursor < d'.cursor ∧ d'.cursor ≤ bytes.length) ∧
    ∃ result after,
      checkedApplyCompact sizeBits memory memorySize guestBase segments bytes relocationCount = .ok (result, after) ∧
      ∀ loaded before m, segments = some loaded → memory = some before → after = some m →
        ∀ i, m i ≠ before i → i < memorySize ∧ ∃ s ∈ loaded, s.Covers sizeBits i ∧
          (s.address.toNat + s.memorySize.toNat ≤ 2 ^ sizeBits →
            s.address.toNat ≤ i ∧ i < s.address.toNat + s.memorySize.toNat) := by
  constructor
  · intro d hreached
    obtain ⟨outcome, hok, -, hmoved⟩ := CursorDecoder.next_spec d
    rw [hreached.bytes_eq.1] at hmoved
    exact ⟨outcome, hok, hmoved⟩
  · refine ⟨_, _, checkedApplyCompact_eq _ _ _ _ _ _ _, ?_⟩
    rintro segments before m rfl rfl hm i hchanged
    rw [← Option.some.inj hm] at hchanged
    -- a changed byte belongs to a word that some relocation patches
    have hpatched : ∃ r offset, relocationWordOffset sizeBits r segments memorySize = some offset ∧
        ∃ j < 4, i = offset + j := by
      by_contra hnone
      refine hchanged (applyCompact_keeps (fun r offset hoffset j hj heq => ?_) _ _ _ _)
      exact hnone ⟨r, offset, hoffset, j, hj, heq⟩
    obtain ⟨r, offset, hoffset, j, hj, rfl⟩ := hpatched
    have hroom := relocationWordOffset_le hoffset
    obtain ⟨s, hs, hcovers⟩ := relocationWordOffset_covers memorySize.isLt hoffset hj
    exact ⟨by omega, s, hs, hcovers, fun hend => (PspLoadSegment.covers_iff hend _).1 hcovers⟩

end Psprism
