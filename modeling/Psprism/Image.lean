import Psprism.Decoder

/-!
# Loaded images (`src/elf.hpp`, `src/elf/image.cpp`, `src/emitter/analysis.cpp`)

An `ElfImage` as the emitter gets it, its flat memory image, and the parts of the analysis that
look at relocations: the words treated as relocated, the bases of relocated jumps and the targets
of direct control transfers. Addresses are offsets from the image's base. Names, flags and the
module header's `$gp` are left out.
-/

namespace Psprism

structure ExecutableSection where
  address : Word
  bytes : List Byte
deriving DecidableEq, Repr

structure LoadSegment extends PspLoadSegment where
  bytes : List Byte
deriving DecidableEq, Repr

structure Import where
  stubAddress : Word
deriving DecidableEq, Repr

structure ElfImage where
  entry : Word
  preferredBase : Word := 0
  executableSections : List ExecutableSection
  loadSegments : List LoadSegment
  relocations : List Relocation := []
  imports : List Import := []
deriving DecidableEq, Repr

/-! ### Memory -/

/-- `std::copy` of the bytes to an offset. -/
def copyBytes (memory : Bytes) (offset : Nat) (bytes : List Byte) : Bytes := fun i =>
  if offset ≤ i ∧ i < offset + bytes.length then bytes.getD (i - offset) 0 else memory i

/-- The size that also holds a segment; `none` is the exception on overflow. -/
def extendSize (size : Word) (segment : LoadSegment) : Option Word :=
  if segment.address > 0xffffffff - segment.memorySize then none
  else
    let last := segment.address + segment.memorySize
    some (if size < last then last else size)

/-- A segment's bytes copied into the image, or the exception when they do not fit. -/
def loadSegment (size : Word) (memory : Bytes) (segment : LoadSegment) : Option Bytes :=
  if size < segment.address ∨ (size - segment.address).toNat < segment.bytes.length then none
  else some (copyBytes memory segment.address.toNat segment.bytes)

namespace ElfImage
variable (image : ElfImage)

def memorySize : Option Word := image.loadSegments.foldlM extendSize 0

def memoryImage : Option Bytes :=
  match image.memorySize with
  | none => none
  | some size => image.loadSegments.foldlM (loadSegment size) fun _ => 0

/-- The segment table that generated code passes to the relocation applier. -/
def segments : List PspLoadSegment := image.loadSegments.map (·.toPspLoadSegment)

end ElfImage

def wordAt (section' : ExecutableSection) (offset : Nat) : Word :=
  readU32 (fun i => section'.bytes.getD i 0) offset

/-- The words of a section with their addresses, in the order the emitter walks them. -/
def ExecutableSection.instructions (section' : ExecutableSection) : List (Word × Word) :=
  (List.range ((section'.bytes.length + 3) / 4)).map fun k =>
    (section'.address + BitVec.ofNat 32 (4 * k), wordAt section' (4 * k))

def ElfImage.instructions (image : ElfImage) : List (Word × Word) :=
  image.executableSections.flatMap (·.instructions)

/-! ### Relocations and direct targets -/

def findLoadSegment (image : ElfImage) (programIndex : Byte) : Option LoadSegment :=
  image.loadSegments.find? fun segment => segment.programIndex == programIndex

/-- The address a relocation adds to the relocated words: it lies in its segment. -/
def relocatedWord (image : ElfImage) (relocation : Relocation) : Option Word :=
  match findLoadSegment image relocation.patchSegment with
  | none => none
  | some segment =>
    if relocation.offset ≤ segment.memorySize ∧ 4 ≤ segment.memorySize - relocation.offset then
      some (segment.address + relocation.offset)
    else none

def relocatedWords (image : ElfImage) : List Word := image.relocations.filterMap (relocatedWord image)

/-- What an R_MIPS_26 relocation adds to the jump relocation bases. -/
def jumpRelocationBase (image : ElfImage) (relocation : Relocation) : Option (Word × Word) :=
  if relocation.type ≠ 4 then none
  else
    match findLoadSegment image relocation.patchSegment, findLoadSegment image relocation.targetSegment with
    | some patch, some target => some (patch.address + relocation.offset, target.address)
    | _, _ => none

/-- `jump_relocation_bases`; a later relocation of the same word takes over. -/
def jumpRelocationBases (image : ElfImage) : Word → Option Word :=
  (image.relocations.filterMap (jumpRelocationBase image)).foldl
    (fun bases (address, base) => Function.update bases address (some base)) fun _ => none

def directControlTarget (pc instruction : Word) (jumpBases : Word → Option Word)
    (preferredBase : Word) : Option Word :=
  if ¬ startsDelayedBranch instruction then none
  else if opOf instruction = 0 then none
  else if opOf instruction = 0x02 ∨ opOf instruction = 0x03 then
    let targetField : Word := instruction &&& 0x03ffffff
    let targetField : Word :=
      match jumpBases pc with
      | some base => (targetField + (base >>> 2)) &&& 0x03ffffff
      | none => targetField
    let originalPc := pc + preferredBase
    let region : Word := (originalPc + 4) &&& 0xf0000000
    some ((region ||| (targetField <<< 2)) - preferredBase)
  else some (pc + 4 + signedImmediate instruction * 4)

/-! ### What the loader guarantees -/

/-- An image that `load_elf` returns: its memory image exists and its sections are word-aligned. -/
structure LoadedImage extends ElfImage where
  size : Word
  memory : Bytes
  memorySize_eq : toElfImage.memorySize = some size
  memoryImage_eq : toElfImage.memoryImage = some memory
  aligned : ∀ s ∈ executableSections, s.address.toNat % 4 = 0 ∧ s.bytes.length % 4 = 0

theorem extendSize_le {start size : Word} {segment : LoadSegment}
    (h : extendSize start segment = some size) :
    start.toNat ≤ size.toNat ∧ segment.address.toNat + segment.memorySize.toNat ≤ size.toNat := by
  unfold extendSize at h
  split at h
  · cases h
  · rename_i hgt
    have hsum : (segment.address + segment.memorySize).toNat =
        segment.address.toNat + segment.memorySize.toNat := by bv_omega
    simp only [Option.some.injEq] at h
    rw [← hsum]
    split at h <;> subst h
    · rename_i hlt
      exact ⟨(BitVec.lt_def.1 hlt).le, Nat.le_refl _⟩
    · rename_i hlt
      exact ⟨Nat.le_refl _, not_lt.1 fun h' => hlt (BitVec.lt_def.2 h')⟩

/-- A segment's memory lies in the image, without wrapping around. -/
theorem foldlM_extendSize_le {segments : List LoadSegment} {start size : Word}
    (h : segments.foldlM extendSize start = some size) :
    start.toNat ≤ size.toNat ∧
      ∀ s ∈ segments, s.address.toNat + s.memorySize.toNat ≤ size.toNat := by
  induction segments generalizing start with
  | nil =>
    simp only [List.foldlM_nil, Option.pure_def, Option.some.injEq] at h
    exact ⟨by rw [h], fun s hs => absurd hs List.not_mem_nil⟩
  | cons segment rest ih =>
    rw [List.foldlM_cons, Option.bind_eq_bind, Option.bind_eq_some_iff] at h
    obtain ⟨mid, hmid, hrest⟩ := h
    obtain ⟨hstart, hsegment⟩ := extendSize_le hmid
    obtain ⟨hle, hall⟩ := ih hrest
    refine ⟨hstart.trans hle, fun s hs => ?_⟩
    rcases List.mem_cons.1 hs with rfl | hs
    · exact hsegment.trans hle
    · exact hall s hs

namespace LoadedImage
variable (image : LoadedImage)

theorem segment_le {s : LoadSegment} (hs : s ∈ image.loadSegments) :
    s.address.toNat + s.memorySize.toNat ≤ image.size.toNat :=
  (foldlM_extendSize_le image.memorySize_eq).2 s hs

theorem findSegment_eq (programIndex : Byte) : findSegment image.segments programIndex =
    (findLoadSegment image.toElfImage programIndex).map (·.toPspLoadSegment) := by
  unfold findSegment findLoadSegment ElfImage.segments
  rw [List.find?_map]
  rfl

/-- The CPU at the entry of the image relocated to a base. -/
def start (base : Word) : State where
  pc := base + image.entry
  mem :=
    { memory := ⟨some (applyRelocations 64 image.size.toNat base image.segments image.memory
        image.relocations).2, image.size.toNat⟩
      memoryBase := base }

/-- Four bytes from an offset on lie in a segment. -/
theorem inSegment_iff (offset memorySize : Word) :
    (offset ≤ memorySize ∧ 4 ≤ memorySize - offset) ↔ offset.toNat + 4 ≤ memorySize.toNat := by
  by_cases hle : offset ≤ memorySize
  · have hsub : (memorySize - offset).toNat = memorySize.toNat - offset.toNat :=
      BitVec.toNat_sub_of_le hle
    have hle := BitVec.le_def.1 hle
    have h4 : (4 : Word).toNat = 4 := rfl
    rw [BitVec.le_def, BitVec.le_def, hsub, h4]
    omega
  · refine ⟨fun h => absurd h.1 hle, fun h => absurd (BitVec.le_def.2 ?_) hle⟩
    omega

/-- The applier patches the word whose address the emitter notes. -/
theorem relocationWordOffset_eq {sizeBits : Nat} (hbits : 32 ≤ sizeBits) (r : Relocation) :
    relocationWordOffset sizeBits r image.segments image.size.toNat =
      (relocatedWord image.toElfImage r).map (·.toNat) := by
  unfold relocationWordOffset relocatedWord
  rw [image.findSegment_eq]
  cases hfind : findLoadSegment image.toElfImage r.patchSegment with
  | none => rfl
  | some segment =>
    have hle := image.segment_le (List.mem_of_find?_eq_some hfind)
    have hpow : 2 ^ 32 ≤ 2 ^ sizeBits := Nat.pow_le_pow_right (by decide) hbits
    have hsize : image.size.toNat < 2 ^ 32 := image.size.isLt
    simp only [Option.map_some]
    have hnot : (segment.memorySize < r.offset ∨ segment.memorySize - r.offset < 4) ↔
        ¬ (r.offset ≤ segment.memorySize ∧ 4 ≤ segment.memorySize - r.offset) := by
      rw [not_and_or, BitVec.not_le, BitVec.not_le]
    simp only [hnot, ite_not, inSegment_iff]
    by_cases hin : r.offset.toNat + 4 ≤ segment.memorySize.toNat
    · have hmod : (segment.address.toNat + r.offset.toNat) % 2 ^ sizeBits =
          segment.address.toNat + r.offset.toNat := Nat.mod_eq_of_lt (by omega)
      rw [if_pos hin, if_pos hin, hmod, if_pos (by omega), Option.map_some, BitVec.toNat_add,
        Nat.mod_eq_of_lt (by omega)]
    · rw [if_neg hin, if_neg hin]
      rfl

end LoadedImage

end Psprism
