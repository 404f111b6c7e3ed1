import Mathlib.Data.BitVec

/-!
# PRX relocations (`include/psprecomp/relocation.hpp`)

The relocation records of a PRX, the load-segment table and `apply_psp_relocations`, which patches
a byte buffer in place. A buffer is the total function of the bytes behind its pointer together
with the size the caller passes; a null pointer is `none`. `sizeBits` is the width of the host's
`size_t`: 32 on the PSP, 64 on a desktop host.
-/

namespace Psprism

abbrev Byte := BitVec 8
abbrev Word := BitVec 32

-- a constant, so that membership of a list of words is decided by one term everywhere
instance : LawfulBEq Word := inferInstance

/-- The bytes behind a host pointer. -/
abbrev Bytes := Nat → Byte

/-- `PspRelocationRecord`, also the loader's `Relocation`. -/
structure Relocation where
  offset : Word
  type : Byte
  patchSegment : Byte
  targetSegment : Byte
deriving DecidableEq, Repr

structure PspLoadSegment where
  address : Word
  memorySize : Word
  programIndex : Byte
deriving DecidableEq, Repr

inductive RelocationResult
  | success | invalidSegment | invalidPatch | invalidStream | missingLo16 | unsupportedType
deriving DecidableEq, Repr

/-- The first segment with the program index. -/
def findSegment (segments : List PspLoadSegment) (programIndex : Byte) : Option PspLoadSegment :=
  segments.find? fun s => s.programIndex == programIndex

/-- Where in the buffer a relocation patches, when all four bytes lie in its segment and in the
buffer. -/
def relocationWordOffset (sizeBits : Nat) (r : Relocation) (segments : List PspLoadSegment)
    (memorySize : Nat) : Option Nat :=
  match findSegment segments r.patchSegment with
  | none => none
  | some segment =>
    if segment.memorySize < r.offset ∨ segment.memorySize - r.offset < 4 then none
    else
      let result := (segment.address.toNat + r.offset.toNat) % 2 ^ sizeBits
      if result ≤ memorySize ∧ 4 ≤ memorySize - result then some result else none

def readU32 (memory : Bytes) (offset : Nat) : Word :=
  (memory offset).setWidth 32 ||| ((memory (offset + 1)).setWidth 32 <<< 8) |||
    ((memory (offset + 2)).setWidth 32 <<< 16) ||| ((memory (offset + 3)).setWidth 32 <<< 24)

def writeU32 (memory : Bytes) (offset : Nat) (value : Word) : Bytes := fun i =>
  if i = offset then value.setWidth 8
  else if i = offset + 1 then (value >>> 8).setWidth 8
  else if i = offset + 2 then (value >>> 16).setWidth 8
  else if i = offset + 3 then (value >>> 24).setWidth 8
  else memory i

/-- Byte `i` of a little-endian word. -/
def wordByte (value : Word) (i : Nat) : Byte := (value >>> (8 * i)).setWidth 8

/-- The `switch` on the relocation type: the patched word. `low` is the outcome of the LO16
lookahead, looked at by HI16 only. -/
def patchedWord (type : Byte) (word relocateTo : Word) (low : Except RelocationResult Word) :
    Except RelocationResult Word :=
  match type with
  | 0#8 => .ok word
  | 2#8 => .ok (word + relocateTo)
  | 4#8 =>
    let base : Word := relocateTo >>> 2
    let targetField : Word := ((word &&& 0x03ffffff) + base) &&& 0x03ffffff
    .ok ((word &&& 0xfc000000) ||| targetField)
  | 5#8 =>
    match low with
    | .error e => .error e
    | .ok lowWord =>
      let high : Word := (word &&& 0xffff) <<< 16
      let full : Word := high + (lowWord.setWidth 16).signExtend 32 + relocateTo
      let rounded : Word := full + 0x8000
      .ok ((word &&& (0xffff0000 : Word)) ||| (rounded >>> 16))
  | 6#8 =>
    .ok ((word &&& 0xffff0000) |||
      (((word.setWidth 16).signExtend 32 + relocateTo) &&& 0xffff))
  | _ => .error .unsupportedType

section
variable (sizeBits memorySize : Nat) (guestBase : Word) (segments : List PspLoadSegment)

/-- The word at the first LO16 after a HI16 with the same target segment. -/
def lowWord (targetSegment : Byte) (memory : Bytes) :
    List Relocation → Except RelocationResult Word
  | [] => .error .missingLo16
  | low :: rest =>
    if low.type ≠ 6 ∨ low.targetSegment ≠ targetSegment then lowWord targetSegment memory rest
    else
      match relocationWordOffset sizeBits low segments memorySize with
      | none => .error .invalidPatch
      | some lowOffset => .ok (readU32 memory lowOffset)

/-- The loop of `apply_psp_relocations`. -/
def applyRelocations (memory : Bytes) : List Relocation → RelocationResult × Bytes
  | [] => (.success, memory)
  | r :: rest =>
    match findSegment segments r.targetSegment with
    | none => (.invalidSegment, memory)
    | some target =>
      match relocationWordOffset sizeBits r segments memorySize with
      | none => (.invalidPatch, memory)
      | some patchOffset =>
        match patchedWord r.type (readU32 memory patchOffset) (guestBase + target.address)
            (lowWord sizeBits memorySize segments r.targetSegment memory rest) with
        | .error e => (e, memory)
        | .ok word => applyRelocations (writeU32 memory patchOffset word) rest

end

/-- `apply_psp_relocations`. The relocation pointer of a `std::vector` is null only when the list
is empty, so that part of the null check never fires. -/
def applyPspRelocations (sizeBits : Nat) (memory : Option Bytes) (memorySize : Nat)
    (guestBase : Word) (segments : Option (List PspLoadSegment)) (relocations : List Relocation) :
    RelocationResult × Option Bytes :=
  match memory, segments with
  | some memory, some segments =>
    let (result, memory) := applyRelocations sizeBits memorySize guestBase segments memory relocations
    (result, some memory)
  | memory, _ => (.invalidPatch, memory)

end Psprism
