import Psprism.State

/-!
# Loads and stores by the byte (`include/psprecomp/runtime.hpp`)

The loads and stores of 16 and 32 bits try the image first, in line, and go through `mapped_address` where that
fails. They read and write the bytes that `mapped_address` finds, or fault, as long as the image has room for one
access (`accesses_bytewise`); an address that is not aligned always faults. In an image that is smaller than an
access the inline test lets every address pass.
-/

namespace Psprism

namespace GuestMemory
variable {m : GuestMemory} {address : Word} {width offset : Nat} {r : Region}

/-- The allocation behind a region. -/
def buffer (m : GuestMemory) : Region → Buffer
  | .memory => m.memory
  | .scratchpad => m.scratchpad
  | .videoMemory => m.videoMemory
  | .volatileMemory => m.volatileMemory
  | .direct => ⟨some m.direct, 2 ^ 32⟩

/-- An access inside an allocation. -/
structure Within (m : GuestMemory) (r : Region) (offset width : Nat) : Prop where
  host : (m.buffer r).host.isSome = true
  size : offset + width ≤ (m.buffer r).size

theorem regionAddress_spec {b : Buffer} {base canon : Word}
    (h : regionAddress b base canon width = some offset) :
    b.host.isSome = true ∧ (offset ≤ b.size ∧ width ≤ b.size - offset) ∧ offset = (canon - base).toNat ∧
      base.toNat + offset = canon.toNat := by
  rw [regionAddress] at h
  split at h
  · cases h
  next hbase =>
  dsimp only at h
  split at h
  next hsize =>
    obtain rfl := Option.some.inj h
    rw [not_or, Bool.not_eq_true, Option.isNone_eq_false_iff, BitVec.not_lt, BitVec.le_def] at hbase
    refine ⟨hbase.1, hsize, rfl, ?_⟩
    rw [BitVec.toNat_sub]
    omega
  · cases h

/-- The allocation for the top byte of a physical address, where the image does not have it. -/
def regionOfTag (tag : Word) : Option Region :=
  if tag = 0x00 then some .scratchpad
  else if tag = 0x04 then some .videoMemory
  else if tag = 0x08 then some .volatileMemory
  else none

def regionBase (m : GuestMemory) : Region → Word
  | .memory => m.memoryBase
  | .scratchpad => 0x00010000
  | .videoMemory => 0x04000000
  | .volatileMemory => 0x08400000
  | .direct => 0

/-- The access lies in the image. -/
def InImage (m : GuestMemory) (address : Word) (width : Nat) : Prop :=
  m.memory.host.isSome ∧ m.imageOffset address ≤ m.memory.size ∧ width ≤ m.memory.size - m.imageOffset address

theorem mappedAddress_of_inImage (h : m.InImage address width) :
    m.mappedAddress address width = some (.memory, m.imageOffset address) := if_pos h

theorem mappedAddress_of_not_inImage (h : ¬ m.InImage address width) :
    m.mappedAddress address width = (regionOfTag (canonicalAddress address >>> 24)).bind fun r =>
      (regionAddress (m.buffer r) (m.regionBase r) (canonicalAddress address) width).map fun o => (r, o) := by
  refine (if_neg h).trans ?_
  rw [regionOfTag]
  split
  · rfl
  split
  · rfl
  split <;> rfl

/-- Every mapped access is in the image, or else in the allocation of its top byte. -/
theorem mappedAddress_cases (h : m.mappedAddress address width = some (r, offset)) :
    (m.InImage address width ∧ r = .memory ∧ offset = m.imageOffset address) ∨
    (¬ m.InImage address width ∧ regionOfTag (canonicalAddress address >>> 24) = some r ∧
      regionAddress (m.buffer r) (m.regionBase r) (canonicalAddress address) width = some offset) := by
  by_cases himage : m.InImage address width
  · rw [mappedAddress_of_inImage himage, Option.some.injEq, Prod.mk.injEq] at h
    exact .inl ⟨himage, h.1.symm, h.2.symm⟩
  · rw [mappedAddress_of_not_inImage himage, Option.bind_eq_some_iff] at h
    obtain ⟨r', htag, hmap⟩ := h
    obtain ⟨o, ho, heq⟩ := Option.map_eq_some_iff.1 hmap
    obtain ⟨rfl, rfl⟩ := Prod.mk.inj heq
    exact .inr ⟨himage, htag, ho⟩

theorem mappedAddress_of_region (himage : ¬ m.InImage address width)
    (htag : regionOfTag (canonicalAddress address >>> 24) = some r)
    (ho : regionAddress (m.buffer r) (m.regionBase r) (canonicalAddress address) width = some offset) :
    m.mappedAddress address width = some (r, offset) := by
  rw [mappedAddress_of_not_inImage himage, htag, Option.bind_some, ho, Option.map_some]

/-- A place knows the physical address it belongs to. -/
theorem offset_of_mappedAddress {p : Region × Nat} (h : m.mappedAddress address width = some p) :
    p.2 = (canonicalAddress address - m.regionBase p.1).toNat := by
  obtain ⟨r, o⟩ := p
  rcases mappedAddress_cases h with ⟨-, rfl, rfl⟩ | ⟨-, -, ho⟩
  · rfl
  · exact (regionAddress_spec ho).2.2.1

theorem regionOfTag_ne_direct {tag : Word} (h : regionOfTag tag = some r) : r ≠ .direct := by
  rintro rfl
  unfold regionOfTag at h
  split_ifs at h <;> cases h

theorem mappedAddress_within (h : m.mappedAddress address width = some (r, offset)) : m.Within r offset width := by
  rcases mappedAddress_cases h with ⟨⟨hhost, hoffset, hwidth⟩, rfl, rfl⟩ | ⟨-, -, ho⟩
  · exact ⟨hhost, by change _ ≤ m.memory.size; omega⟩
  · obtain ⟨hhost, hsize, -⟩ := regionAddress_spec ho
    exact ⟨hhost, by omega⟩

/-- The inline test of an aligned access agrees with `mapped_address`, in an image with room for one. -/
theorem access_eq (hmax : m.memory.size < 2 ^ 64) (hroom : m.memory.host.isSome = true → width ≤ m.memory.size)
    (hdirect : m.directMemoryAccess = false) :
    m.access address width (m.imageOffset address ≤ sizeSub m.memory.size width) =
      if address.toNat % width = 0 then m.mappedAddress address width else none := by
  rw [access]
  split
  · next hfast =>
    obtain ⟨hhost, hoffset, haligned⟩ := hfast
    have hwidth := hroom hhost
    have hle : m.imageOffset address ≤ m.memory.size - width := by
      have htest := of_decide_eq_true hoffset
      rw [sizeSub] at htest
      omega
    rw [if_pos haligned, mappedAddress, if_pos ⟨hhost, by omega, by omega⟩]
  · by_cases haligned : address.toNat % width = 0
    · rw [if_neg (not_not.2 haligned), if_pos haligned, directAccess, hdirect]
      exact Option.or_none
    · rw [if_pos haligned, if_neg haligned]

end GuestMemory

/-! ### The byte-wise definition -/

/-- A load of the bytes that `mapped_address` finds. -/
def loadBytes {n : Nat} (s : State) (address : Word) (width : Nat) (value : (Nat → Byte) → BitVec n) :
    BitVec n × State :=
  match s.mem.mappedAddress address width with
  | some (r, offset) => (value fun i => s.mem.bytes r (offset + i), s)
  | none => (0, noteMemoryFault s address)

/-- A store to the bytes that `mapped_address` finds. -/
def storeBytes (s : State) (address : Word) (width : Nat) (value : Nat → Byte) : State :=
  match s.mem.mappedAddress address width with
  | some (r, offset) =>
    { s with
      mem := s.mem.setBytes r fun i =>
        if offset ≤ i ∧ i < offset + width then value (i - offset) else s.mem.bytes r i }
  | none => noteMemoryFault s address

def halfOfBytes (b : Nat → Byte) : BitVec 16 := (b 0).setWidth 16 ||| ((b 1).setWidth 16 <<< 8)

def halfByte (value : BitVec 16) (i : Nat) : Byte := (value >>> (8 * i)).setWidth 8

theorem writeU16_eq (memory : Bytes) (offset : Nat) (value : BitVec 16) : writeU16 memory offset value =
    fun i => if offset ≤ i ∧ i < offset + 2 then halfByte value (i - offset) else memory i := by
  funext i
  rw [writeU16]
  by_cases h₀ : i = offset
  · rw [if_pos h₀, if_pos (by omega), h₀, Nat.sub_self]
    rfl
  by_cases h₁ : i = offset + 1
  · rw [if_neg h₀, if_pos h₁, if_pos (by omega), h₁, Nat.add_sub_cancel_left]
    rfl
  · rw [if_neg h₀, if_neg h₁, if_neg (by omega)]

theorem writeU32_eq (memory : Bytes) (offset : Nat) (value : Word) : writeU32 memory offset value =
    fun i => if offset ≤ i ∧ i < offset + 4 then wordByte value (i - offset) else memory i := by
  funext i
  rw [writeU32]
  by_cases h₀ : i = offset
  · rw [if_pos h₀, if_pos (by omega), h₀, Nat.sub_self]
    rfl
  by_cases h₁ : i = offset + 1
  · rw [if_neg h₀, if_pos h₁, if_pos (by omega), h₁, Nat.add_sub_cancel_left]
    rfl
  by_cases h₂ : i = offset + 2
  · rw [if_neg h₀, if_neg h₁, if_pos h₂, if_pos (by omega), h₂, Nat.add_sub_cancel_left]
    rfl
  by_cases h₃ : i = offset + 3
  · rw [if_neg h₀, if_neg h₁, if_neg h₂, if_pos h₃, if_pos (by omega), h₃, Nat.add_sub_cancel_left]
    rfl
  · rw [if_neg h₀, if_neg h₁, if_neg h₂, if_neg h₃, if_neg (by omega)]

/-! ### The loads and stores -/

section
variable {s : State} {address : Word}

/-- The image is not there, or has room for an access; its size is a `size_t`. -/
structure GuestMemory.HasRoom (m : GuestMemory) (width : Nat) : Prop where
  size_lt : m.memory.size < 2 ^ 64
  room : m.memory.host.isSome = true → width ≤ m.memory.size

theorem load16_eq (hroom : s.mem.HasRoom 2) (hdirect : s.mem.directMemoryAccess = false) : load16 s address =
    if address.toNat % 2 = 0 then loadBytes s address 2 halfOfBytes else (0, noteMemoryFault s address) := by
  rw [load16, GuestMemory.access16, GuestMemory.access_eq hroom.size_lt hroom.room hdirect]
  split
  · rw [loadBytes]
    cases s.mem.mappedAddress address 2 with
    | none => rfl
    | some place => rfl
  · rfl

theorem load32_eq (hroom : s.mem.HasRoom 4) (hdirect : s.mem.directMemoryAccess = false) : load32 s address =
    if address.toNat % 4 = 0 then loadBytes s address 4 wordOfBytes else (0, noteMemoryFault s address) := by
  rw [load32, GuestMemory.access32, GuestMemory.access_eq hroom.size_lt hroom.room hdirect]
  split
  · rw [loadBytes]
    cases s.mem.mappedAddress address 4 with
    | none => rfl
    | some place => rfl
  · rfl

theorem store16_eq (hroom : s.mem.HasRoom 2) (hdirect : s.mem.directMemoryAccess = false) (value : BitVec 16) :
    store16 s address value =
      if address.toNat % 2 = 0 then storeBytes s address 2 (halfByte value) else noteMemoryFault s address := by
  rw [store16, GuestMemory.access16, GuestMemory.access_eq hroom.size_lt hroom.room hdirect]
  split
  · rw [storeBytes]
    cases s.mem.mappedAddress address 2 with
    | none => rfl
    | some place =>
      rw [storeWith]
      dsimp only
      rw [writeU16_eq]
  · rfl

theorem store32_eq (hroom : s.mem.HasRoom 4) (hdirect : s.mem.directMemoryAccess = false) (value : Word) :
    store32 s address value =
      if address.toNat % 4 = 0 then storeBytes s address 4 (wordByte value) else noteMemoryFault s address := by
  rw [store32, GuestMemory.access32, GuestMemory.access_eq hroom.size_lt hroom.room hdirect]
  split
  · rw [storeBytes]
    cases s.mem.mappedAddress address 4 with
    | none => rfl
    | some place =>
      rw [storeWith]
      dsimp only
      rw [writeU32_eq]
  · rfl

end

/-- The loads and stores of aligned addresses are the byte-wise ones, which stay inside the allocations; the others
fault. -/
theorem accesses_bytewise (s : State) (address : Word) (hmax : s.mem.memory.size < 2 ^ 64)
    (hdirect : s.mem.directMemoryAccess = false) :
    (∀ width r offset, s.mem.mappedAddress address width = some (r, offset) → s.mem.Within r offset width) ∧
    ((s.mem.memory.host.isSome = true → 2 ≤ s.mem.memory.size) →
      (load16 s address =
        if address.toNat % 2 = 0 then loadBytes s address 2 halfOfBytes else (0, noteMemoryFault s address)) ∧
      ∀ value, store16 s address value =
        if address.toNat % 2 = 0 then storeBytes s address 2 (halfByte value) else noteMemoryFault s address) ∧
    ((s.mem.memory.host.isSome = true → 4 ≤ s.mem.memory.size) →
      (load32 s address =
        if address.toNat % 4 = 0 then loadBytes s address 4 wordOfBytes else (0, noteMemoryFault s address)) ∧
      ∀ value, store32 s address value =
        if address.toNat % 4 = 0 then storeBytes s address 4 (wordByte value) else noteMemoryFault s address) := by
  refine ⟨fun _ _ _ h => GuestMemory.mappedAddress_within h, fun hroom => ?_, fun hroom => ?_⟩
  · exact ⟨load16_eq ⟨hmax, hroom⟩ hdirect, store16_eq ⟨hmax, hroom⟩ hdirect⟩
  · exact ⟨load32_eq ⟨hmax, hroom⟩ hdirect, store32_eq ⟨hmax, hroom⟩ hdirect⟩

/-- An image of so many bytes, with ones behind its end. -/
def imageOfSize (size : Nat) : State where
  mem := { memory := ⟨some fun i => if i < size then 0 else 1, size⟩, memoryBase := 0x08800000 }

theorem accesses_bytewise_image : load32 (imageOfSize 8) 0x08800004 = loadBytes (imageOfSize 8) 0x08800004 4 wordOfBytes :=
  ((accesses_bytewise (imageOfSize 8) 0x08800004 (by decide) rfl).2.2 fun _ => by decide).1

/-- An image with direct access to what is not mapped. -/
def directImage : State := { imageOfSize 8 with mem := { (imageOfSize 8).mem with directMemoryAccess := true } }

/-- A word of the image that is not aligned faults, though it is mapped. An image of three bytes is read past its
end, at an address where nothing is mapped. Where direct accesses are allowed, nothing faults there. -/
theorem accesses_differ :
    ((loadBytes (imageOfSize 8) 0x08800002 4 wordOfBytes).2.stopReason = .running ∧
      (load32 (imageOfSize 8) 0x08800002).2.stopReason = .memoryFault) ∧
    ((loadBytes (imageOfSize 3) 0x04000000 4 wordOfBytes).2.stopReason = .memoryFault ∧
      (load32 (imageOfSize 3) 0x04000000).2.stopReason = .running ∧
      (load32 (imageOfSize 3) 0x04000000).1 = 0x01010101) ∧
    (loadBytes directImage 0x04000000 4 wordOfBytes).2.stopReason = .memoryFault ∧
      (load32 directImage 0x04000000).2.stopReason = .running := by
  decide

end Psprism
