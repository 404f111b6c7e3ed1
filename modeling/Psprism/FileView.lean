import Mathlib.Tactic.Ring
import Psprism.State

/-!
# File views (`io_state.hpp`)

A path such as `disc0:/sce_lbn0x10_size0x40000` names bytes of the disc image. The arithmetic on the positions of a
view has 64 bits; `addSigned` and `readableSize` agree with the unbounded arithmetic, for a view whose end has a
64-bit address (`FileView.Fits`), and those that are parsed and completed are such (`parseRawDiscView_fits`,
`completeFileView_fits`).
-/

namespace Psprism.Io

def sectorSize : BitVec 64 := 2048

def genericIoError : Word := 0x80010005

def errorFromErrno (error : Int) : Word :=
  if error ≤ 0 ∨ error > 0xffff then genericIoError else 0x80010000 ||| BitVec.ofInt 32 error

structure FileView where
  base : BitVec 64
  size : BitVec 64
deriving DecidableEq

def completeFileView (view : FileView) (fileSize : BitVec 64) : Option FileView :=
  if view.size ≠ 0 then some view
  else if view.base > fileSize then none
  else some { view with size := fileSize - view.base }

/-! ### Paths -/

/-- A character is a byte of the path. -/
def startsWithCaseInsensitive (value start : List Char) : Bool :=
  (start.map Char.toLower).isPrefixOf (value.map Char.toLower)

def equalsCaseInsensitive (left right : List Char) : Bool :=
  left.length = right.length && startsWithCaseInsensitive left right

/-- `npos` is `none`. -/
def findCaseInsensitive (value needle : List Char) (position : Nat) : Option Nat :=
  (List.range' position (value.length + 1 - needle.length - position)).find? fun position =>
    startsWithCaseInsensitive (value.drop position) needle

def lbnMarker : List Char := "/sce_lbn0x".toList

def sizeMarker : List Char := "_size0x".toList

def isRawDiscPath (path : List Char) : Bool :=
  (startsWithCaseInsensitive path "disc0:".toList || startsWithCaseInsensitive path "umd0:".toList) &&
    (findCaseInsensitive path lbnMarker 0).isSome

def isWholeDiscPath (path : List Char) : Bool :=
  equalsCaseInsensitive path "umd0:".toList || equalsCaseInsensitive path "umd0:/".toList

def hexDigit (c : Char) : Option Nat :=
  if '0' ≤ c ∧ c ≤ '9' then some (c.toNat - '0'.toNat)
  else if 'a' ≤ c ∧ c ≤ 'f' then some (c.toNat - 'a'.toNat + 10)
  else if 'A' ≤ c ∧ c ≤ 'F' then some (c.toNat - 'A'.toNat + 10)
  else none

/-- `std::from_chars` to the base of sixteen, where it takes the whole text. -/
def fromChars (text : List Char) : Option (BitVec 64) :=
  if text = [] then none
  else
    match text.mapM hexDigit with
    | none => none
    | some digits =>
      let value := digits.foldl (fun value digit => value * 16 + digit) 0
      if value < 2 ^ 64 then some (BitVec.ofNat 64 value) else none

/-- The largest 64-bit number. -/
def maxValue : BitVec 64 := BitVec.allOnes 64

def sectorByteOffset (sector : BitVec 64) : Option (BitVec 64) :=
  if sector > maxValue / sectorSize then none else some (sector * sectorSize)

/-- `size_t` has 64 bits. -/
def sectorByteCount (count : BitVec 64) : Option (BitVec 64) := sectorByteOffset count

def completeSectorCount (bytes : BitVec 64) : BitVec 64 := bytes / sectorSize

def signedFromWords (low high : Word) : BitVec 64 := low.setWidth 64 ||| high.setWidth 64 <<< 32

def parseRawDiscView (path : List Char) : Option FileView := do
  guard (isRawDiscPath path)
  let lbnBegin := (← findCaseInsensitive path lbnMarker 0) + lbnMarker.length
  let lbnEnd ← findCaseInsensitive path sizeMarker lbnBegin
  guard (lbnEnd ≠ lbnBegin)
  let sizeBegin := lbnEnd + sizeMarker.length
  guard (sizeBegin ≠ path.length)
  let lbn ← fromChars ((path.drop lbnBegin).take (lbnEnd - lbnBegin))
  let size ← fromChars (path.drop sizeBegin)
  guard (lbn ≤ maxValue / sectorSize)
  let base := lbn * sectorSize
  guard (size ≤ maxValue - base)
  return ⟨base, size⟩

example : parseRawDiscView "umd0:/sce_lbn0x20_size0x1234".toList = some ⟨0x10000, 0x1234⟩ := by decide

/-! ### Positions -/

def readableSize (view : FileView) (absolutePosition requested : BitVec 64) : BitVec 64 :=
  if absolutePosition < view.base ∨ absolutePosition ≥ view.base + view.size then 0
  else
    let remaining := view.base + view.size - absolutePosition
    if remaining < requested then remaining else requested

def addSigned (base offset : BitVec 64) : Option (BitVec 64) :=
  if offset.toInt < 0 then
    let magnitude := -(offset + 1) + 1
    if magnitude > base then none else some (base - magnitude)
  else if offset > maxValue - base then none
  else some (base + offset)

/-- The end of a view has a 64-bit address. -/
def FileView.Fits (view : FileView) : Prop := view.base.toNat + view.size.toNat < 2 ^ 64

theorem toNat_maxValue : maxValue.toNat = 2 ^ 64 - 1 := rfl

/-- A limit that is tested by its distance from the largest number. -/
theorem le_maxValue_sub {a b : BitVec 64} : a ≤ maxValue - b ↔ b.toNat + a.toNat < 2 ^ 64 := by
  have hb : b ≤ maxValue := by
    rw [BitVec.le_def, toNat_maxValue]
    omega
  rw [BitVec.le_def, BitVec.toNat_sub_of_le hb, toNat_maxValue]
  omega

theorem addSigned_eq_some {base offset position : BitVec 64} :
    addSigned base offset = some position ↔ (position.toNat : Int) = base.toNat + offset.toInt := by
  have hmagnitude : -(offset + 1) + 1 = -offset := by ring
  rw [addSigned]
  split
  next hneg =>
    have hoffset : (-offset).toNat = -offset.toInt := by
      rw [BitVec.toNat_neg, BitVec.toInt_eq_toNat_cond] at *
      split at hneg
      · omega
      · omega
    dsimp only
    rw [hmagnitude]
    split
    next hlt =>
      have hnat : base.toNat < (-offset).toNat := hlt
      simp only [reduceCtorEq, false_iff]
      omega
    next hle =>
      have hnat : (-offset).toNat ≤ base.toNat := not_lt.1 hle
      rw [Option.some.injEq, BitVec.toNat_eq, BitVec.toNat_sub_of_le hnat]
      omega
  next hpos =>
    have hoffset : (offset.toNat : Int) = offset.toInt := (BitVec.toInt_eq_toNat_of_msb
      (by rw [BitVec.msb_eq_toInt]; exact decide_eq_false hpos)).symm
    split
    next hlt =>
      have hnat : ¬ base.toNat + offset.toNat < 2 ^ 64 := fun h => BitVec.not_le.2 hlt (le_maxValue_sub.2 h)
      simp only [reduceCtorEq, false_iff]
      omega
    next hle =>
      have hnat := le_maxValue_sub.1 (BitVec.not_lt.1 hle)
      rw [Option.some.injEq, BitVec.toNat_eq, BitVec.toNat_add_of_lt hnat]
      omega

/-- A read takes the bytes that the view has left, at most. -/
theorem toNat_readableSize {view : FileView} (h : view.Fits) (position requested : BitVec 64) :
    (readableSize view position requested).toNat =
      if view.base.toNat ≤ position.toNat then
        min requested.toNat (view.base.toNat + view.size.toNat - position.toNat)
      else 0 := by
  have hend : (view.base + view.size).toNat = view.base.toNat + view.size.toNat := BitVec.toNat_add_of_lt h
  rw [readableSize]
  split
  next hout =>
    rw [BitVec.lt_def, ge_iff_le, BitVec.le_def, hend] at hout
    split
    · show 0 = _
      omega
    · rfl
  next hin =>
    rw [not_or, BitVec.lt_def, ge_iff_le, BitVec.le_def, hend] at hin
    have hremaining : (view.base + view.size - position).toNat =
        view.base.toNat + view.size.toNat - position.toNat := by
      rw [BitVec.toNat_sub_of_le (by rw [BitVec.le_def, hend]; omega), hend]
    have hbase : view.base.toNat ≤ position.toNat := by omega
    rw [if_pos hbase]
    show BitVec.toNat (if view.base + view.size - position < requested then _ else _) = _
    split
    next hlt => rw [BitVec.lt_def, hremaining] at hlt; omega
    next hle => rw [BitVec.lt_def, hremaining] at hle; omega

theorem completeFileView_fits {view view' : FileView} {fileSize : BitVec 64} (hview : view.Fits)
    (h : completeFileView view fileSize = some view') : view'.base = view.base ∧ view'.Fits := by
  rw [completeFileView] at h
  split at h
  · cases h
    exact ⟨rfl, hview⟩
  split at h
  · cases h
  next hle =>
    cases h
    have hle : view.base.toNat ≤ fileSize.toNat := not_lt.1 hle
    refine ⟨rfl, ?_⟩
    show view.base.toNat + (fileSize - view.base).toNat < 2 ^ 64
    rw [BitVec.toNat_sub_of_le hle]
    omega

theorem parseRawDiscView_fits {path : List Char} {view : FileView} (h : parseRawDiscView path = some view) :
    view.Fits := by
  simp only [parseRawDiscView, Option.bind_eq_bind, Option.bind_eq_some_iff, Option.guard_eq_some'] at h
  obtain ⟨_, -, _, -, _, -, _, -, _, -, _, -, _, -, _, -, _, hsize, hview⟩ := h
  obtain rfl := Option.some.inj hview
  exact le_maxValue_sub.1 hsize

end Psprism.Io
