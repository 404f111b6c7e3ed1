import Psprism.IsoLayout

/-!
# Patching a disc image in place (`src/iso_patch.cpp`)

`patch_iso_preserving_layout` writes a replacement over the file it replaces when it fits in the sectors of that
file, and after the end of the image otherwise, and points the file's directory record to it. The patch tool of
`src/project/iso_patch_template.cpp` has the same text.
-/

namespace Psprism.Iso

/-! ### Writing to the file -/

namespace Block

/-- `seekp` and `write`. What a seek past the end leaves open is zero. -/
def put (file : Block) (offset : Nat) (content : List Byte) : Block where
  size := if content = [] then file.size else max file.size (offset + content.length)
  bytes i :=
    if offset ≤ i ∧ i < offset + content.length then content.getD (i - offset) 0
    else if i < file.size then file.bytes i else 0

variable {file : Block} {offset i : Nat} {content : List Byte}

theorem put_bytes_of_mem (h : offset ≤ i ∧ i < offset + content.length) :
    (file.put offset content).bytes i = content.getD (i - offset) 0 := if_pos h

theorem put_bytes_of_not_mem (hi : i < file.size) (h : ¬ (offset ≤ i ∧ i < offset + content.length)) :
    (file.put offset content).bytes i = file.bytes i := by
  unfold put
  dsimp only
  rw [if_neg h, if_pos hi]

theorem put_size_of_le (h : offset + content.length ≤ file.size) : (file.put offset content).size = file.size := by
  unfold put
  dsimp only
  rw [Nat.max_eq_left h, ite_self]

theorem le_put_size : file.size ≤ (file.put offset content).size := by
  unfold put
  dsimp only
  split_ifs
  · exact Nat.le_refl _
  · exact Nat.le_max_left _ _

end Block

def littleEndian (value : Word) : List Byte := (List.range 4).map (wordByte value)

/-- `write_both_endian_u32`. -/
def writeBothEndianU32 (file : Block) (offset : Nat) (value : Word) : Block :=
  (file.put offset (littleEndian value)).put (offset + 4) (littleEndian value).reverse

/-- The big-endian copy of a field holds the same word. -/
def BothEndian (file : Block) (offset : Nat) : Prop := ∀ j < 4, file.bytes (offset + 7 - j) = file.bytes (offset + j)

@[simp] theorem length_littleEndian (value : Word) : (littleEndian value).length = 4 := rfl

theorem littleEndian_getD (value : Word) {j : Nat} (hj : j < 4) : (littleEndian value).getD j 0 = wordByte value j := by
  simp [littleEndian, hj]

theorem littleEndian_reverse_getD (value : Word) {j : Nat} (hj : j < 4) :
    (littleEndian value).reverse.getD (3 - j) 0 = wordByte value j := by
  interval_cases j <;> rfl

namespace writeBothEndianU32
variable {file : Block} {offset i : Nat} {value : Word}

theorem size_eq (h : offset + 8 ≤ file.size) : (writeBothEndianU32 file offset value).size = file.size := by
  unfold writeBothEndianU32
  have hfirst : (file.put offset (littleEndian value)).size = file.size :=
    Block.put_size_of_le (by rw [length_littleEndian]; omega)
  rw [Block.put_size_of_le, hfirst]
  rw [hfirst, List.length_reverse, length_littleEndian]
  omega

theorem bytes_of_not_mem (hi : i < file.size) (h : ¬ (offset ≤ i ∧ i < offset + 8)) :
    (writeBothEndianU32 file offset value).bytes i = file.bytes i := by
  unfold writeBothEndianU32
  rw [Block.put_bytes_of_not_mem (Nat.lt_of_lt_of_le hi Block.le_put_size), Block.put_bytes_of_not_mem hi]
  · rw [length_littleEndian]
    omega
  · rw [List.length_reverse, length_littleEndian]
    omega

theorem bytes_low (h : offset + 8 ≤ file.size) {j : Nat} (hj : j < 4) :
    (writeBothEndianU32 file offset value).bytes (offset + j) = wordByte value j := by
  unfold writeBothEndianU32
  rw [Block.put_bytes_of_not_mem (Nat.lt_of_lt_of_le (by omega) Block.le_put_size) (by omega),
    Block.put_bytes_of_mem (by rw [length_littleEndian]; omega), Nat.add_sub_cancel_left, littleEndian_getD _ hj]

theorem bytes_high {j : Nat} (hj : j < 4) :
    (writeBothEndianU32 file offset value).bytes (offset + 7 - j) = wordByte value j := by
  unfold writeBothEndianU32
  rw [Block.put_bytes_of_mem (by rw [List.length_reverse, length_littleEndian]; omega),
    show offset + 7 - j - (offset + 4) = 3 - j by omega, littleEndian_reverse_getD _ hj]

theorem readU32_eq (h : offset + 8 ≤ file.size) : readU32 (writeBothEndianU32 file offset value).bytes offset = value :=
  eq_of_wordByte fun j hj => by rw [wordByte_readU32 _ _ hj, bytes_low h hj]

theorem bothEndian (h : offset + 8 ≤ file.size) : BothEndian (writeBothEndianU32 file offset value) offset :=
  fun j hj => by rw [bytes_high hj, bytes_low h hj]

end writeBothEndianU32

/-! ### The patcher -/

/-- `IsoPatchReplacement`, with the content of the local file. -/
structure IsoPatchReplacement where
  isoPath : Name
  content : List Byte

/-- The file being patched, and the sector after its end. -/
structure Patching where
  target : Block
  appendSector : Nat

/-- The replacement fits in the sectors that the file has. -/
def Fits (info : DirectoryRecordInfo) (content : List Byte) : Prop :=
  sectors info.size.toNat ≠ 0 ∧ sectors content.length ≤ sectors info.size.toNat

instance (info : DirectoryRecordInfo) (content : List Byte) : Decidable (Fits info content) :=
  inferInstanceAs (Decidable (_ ∧ _))

/-- What the loop does for a replacement whose record has been found. The padding follows from a comparison of the
sectors, not from the branch taken. -/
def replaceRecord (info : DirectoryRecordInfo) (content : List Byte) (p : Patching) : Patching :=
  let neededSectors := sectors content.length
  let originalSectors := sectors info.size.toNat
  let dataSector := if Fits info content then info.extent.toNat else p.appendSector
  let appendSector := if Fits info content then p.appendSector else p.appendSector + neededSectors
  let paddedSize := (if dataSector = info.extent.toNat then originalSectors else neededSectors) * sectorSize
  let target := p.target.put (dataSector * sectorSize) (content ++ List.replicate (paddedSize - content.length) 0)
  let target := writeBothEndianU32 target (info.recordOffset + 2) (BitVec.ofNat 32 dataSector)
  let target := writeBothEndianU32 target (info.recordOffset + 10) (BitVec.ofNat 32 content.length)
  ⟨target, appendSector⟩

/-- One round of the loop. -/
def patchOne (index : Name → Option DirectoryRecordInfo) (p : Patching) (replacement : IsoPatchReplacement) :
    Except String Patching :=
  match index (normalizedPath replacement.isoPath) with
  | none => .error ("ISO image has no file at: " ++ text replacement.isoPath)
  | some info => .ok (replaceRecord info replacement.content p)

/-- `patch_iso_preserving_layout`, on a copy of the file. -/
def patchIsoPreservingLayout (file : Block) (replacements : List IsoPatchReplacement) : Except String Block :=
  match indexDirectoryRecords file with
  | .error e => .error e
  | .ok index =>
    if file.size % sectorSize ≠ 0 then .error "ISO image size is not sector aligned"
    else
      match replacements.foldlM (patchOne index) ⟨file, file.size / sectorSize⟩ with
      | .error e => .error e
      | .ok p =>
        if p.appendSector > file.size / sectorSize then
          .ok (writeBothEndianU32 p.target (descriptorOffset + 80) (BitVec.ofNat 32 p.appendSector))
        else .ok p.target

end Psprism.Iso
