import Psprism.Lib.CheckedReads
import Psprism.RelocRun

/-!
# Words in a buffer

The little-endian fields of a file that is held in a vector of bytes, read where they lie.
-/

namespace Psprism
open CheckedReads

def halfOf (bytes : Nat → Byte) (offset : Nat) : BitVec 16 :=
  (bytes offset).setWidth 16 ||| (bytes (offset + 1)).setWidth 16 <<< 8

section
variable {ε : Type}

/-- Two bytes. -/
def fetchHalf (data : List Byte) (offset : Nat) : Checked ε (BitVec 16) := do
  let bytes ← slice data offset 2
  return halfOf (bytes.getD · 0) 0

/-- Four bytes. -/
def fetchWord (data : List Byte) (offset : Nat) : Checked ε Word := do
  let bytes ← slice data offset 4
  return readU32 (bytes.getD · 0) 0

variable {data : List Byte} {offset size : Nat}

theorem getD_slice {n i : Nat} (hi : i < n) : ((data.drop offset).take n).getD i 0 = data.getD (offset + i) 0 := by
  simp [List.getD, hi]

theorem getD_take {i : Nat} (hi : i < size) : (data.take size).getD i 0 = data.getD i 0 := by
  simp [List.getD, hi]

theorem fetchHalf_eq (h : offset + 2 ≤ data.length) :
    (fetchHalf data offset : Checked ε _) = .ok (halfOf (data.getD · 0) offset) := by
  rw [fetchHalf, slice_eq h, ok_bind, halfOf, halfOf, getD_slice (by decide), getD_slice (by decide)]
  rfl

theorem fetchWord_eq (h : offset + 4 ≤ data.length) :
    (fetchWord data offset : Checked ε _) = .ok (readU32 (data.getD · 0) offset) := by
  rw [fetchWord, slice_eq h, ok_bind]
  simp only [readU32, getD_slice (show 0 < 4 by decide), getD_slice (show 0 + 1 < 4 by decide),
    getD_slice (show 0 + 2 < 4 by decide), getD_slice (show 0 + 3 < 4 by decide)]
  rfl

theorem inside_fetchHalf (h : offset + 2 ≤ data.length) : Inside (fetchHalf data offset : Checked ε _) := by
  rw [fetchHalf_eq h]
  exact inside_ok

theorem inside_fetchWord (h : offset + 4 ≤ data.length) : Inside (fetchWord data offset : Checked ε _) := by
  rw [fetchWord_eq h]
  exact inside_ok

end

/-! ### Fields that are written -/

def bytesOfHalf (value : BitVec 16) : List Byte := [value.setWidth 8, (value >>> 8).setWidth 8]

def bytesOfWord (value : Word) : List Byte := [wordByte value 0, wordByte value 1, wordByte value 2, wordByte value 3]

section
variable {m : Nat → Byte} {offset : Nat}

theorem halfOf_of_bytes (value : BitVec 16) (hlow : m offset = value.setWidth 8)
    (hhigh : m (offset + 1) = (value >>> 8).setWidth 8) : halfOf m offset = value := by
  rw [halfOf, hlow, hhigh]
  ext i hi
  simp only [BitVec.getElem_or, BitVec.getElem_setWidth, BitVec.getElem_shiftLeft, BitVec.getLsbD_setWidth,
    BitVec.getLsbD_ushiftRight]
  by_cases h8 : i < 8
  · simp [h8, BitVec.getLsbD_eq_getElem hi]
  · have hback : 8 + (i - 8) = i := by omega
    simp [h8, hback, BitVec.getLsbD_eq_getElem hi, show i - 8 < 8 by omega]

theorem readU32_of_bytes (value : Word) (h : ∀ j < 4, m (offset + j) = wordByte value j) :
    readU32 m offset = value :=
  eq_of_wordByte fun j hj => by rw [wordByte_readU32 m offset hj, h j hj]

end

end Psprism
