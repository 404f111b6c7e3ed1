import Psprism.Lib.Binary32
import Psprism.State

/-!
# Arithmetic helpers of the runtime (`include/psprecomp/runtime.hpp`)

Integer helpers are computed on words. Floats are their bit patterns: sign-bit operations and
classification are computed, conversions to integers read the pattern as the exact rational it
denotes, and the remaining operations are those of a `Host`.
-/

namespace Psprism

/-- The host's float operations, on bit patterns. `castUndefined x` is what the host leaves for a
cast of `x` to `int32_t` that C++ does not define (not a number, or out of range). `floatToFixed`
is the VFPU conversion with scale `2^scale` and the rounding of its group. -/
structure Host where
  add : Word → Word → Word
  sub : Word → Word → Word
  mul : Word → Word → Word
  div : Word → Word → Word
  sqrt : Word → Word
  ofInt32 : Word → Word
  lt : Word → Word → Bool
  eq : Word → Word → Bool
  sin : Word → Word
  cos : Word → Word
  exp2 : Word → Word
  log2 : Word → Word
  asin : Word → Word
  floatToFixed : (group : BitVec 5) → (scale : BitVec 5) → Word → Word
  castUndefined : Word → Word

/-- A host that answers every operation as IEEE 754 does on operands that are zero. -/
def zeroOperandHost : Host where
  add _ _ := 0
  sub _ _ := 0
  mul _ _ := 0
  div _ _ := 0x7fc00000
  sqrt _ := 0
  ofInt32 _ := 0
  lt _ _ := false
  eq _ _ := true
  sin _ := 0
  cos _ := 0x3f800000
  exp2 _ := 0x3f800000
  log2 _ := 0xff800000
  asin _ := 0
  floatToFixed _ _ _ := 0
  castUndefined _ := 0x80000000

/-! ### Integers -/

/-- A C++ `bool` assigned to a word. -/
def boolWord (b : Bool) : Word := if b then 1 else 0

def arithmeticShiftRight (value amount : Word) : Word :=
  let amount := amount &&& 31
  if amount = 0 then value
  else
    let shifted := value >>> amount
    if value &&& 0x80000000 = 0 then shifted else shifted ||| ((0xffffffff : Word) <<< (32 - amount))

def rotateRight (value amount : Word) : Word :=
  let amount := amount &&& 31
  if amount = 0 then value else (value >>> amount) ||| (value <<< (32 - amount))

def countlZero (value : Word) : Word := value.clz

def countlOne (value : Word) : Word := (~~~value).clz

def byteSwap (value : Word) : Word :=
  ((value &&& 0x000000ff) <<< 24) ||| ((value &&& 0x0000ff00) <<< 8) |||
    ((value &&& 0x00ff0000) >>> 8) ||| ((value &&& 0xff000000) >>> 24)

def reverseBits (value : Word) : Word :=
  let value := ((value &&& 0x55555555) <<< 1) ||| ((value &&& 0xaaaaaaaa) >>> 1)
  let value := ((value &&& 0x33333333) <<< 2) ||| ((value &&& 0xcccccccc) >>> 2)
  let value := ((value &&& 0x0f0f0f0f) <<< 4) ||| ((value &&& 0xf0f0f0f0) >>> 4)
  let value := ((value &&& 0x00ff00ff) <<< 8) ||| ((value &&& 0xff00ff00) >>> 8)
  (value <<< 16) ||| (value >>> 16)

/-- `wsbh`: the bytes within each halfword. -/
def swapHalfwordBytes (value : Word) : Word :=
  ((value &&& 0xff00ff00) >>> 8) ||| ((value &&& 0x00ff00ff) <<< 8)

def signExtend8 (value : Word) : Word := (value.setWidth 8).signExtend 32

/-- `hi` and `lo` as one accumulator. -/
def accumulator (s : State) : BitVec 64 := s.hi ++ s.lo

def setHiLo (s : State) (value : BitVec 64) : State :=
  { s with hi := value.extractLsb' 32 32, lo := value.setWidth 32 }

/-- The 64-bit products. -/
def signedProduct (a b : Word) : BitVec 64 := a.signExtend 64 * b.signExtend 64

def unsignedProduct (a b : Word) : BitVec 64 := a.setWidth 64 * b.setWidth 64

/-! ### The FPU -/

def fabs (x : Word) : Word := x &&& 0x7fffffff

def fneg (x : Word) : Word := x ^^^ 0x80000000

/-- The bit of `fcr31` that holds condition `cc`. -/
def conditionBit (cc : BitVec 3) : Nat := if cc = 0 then 23 else 24 + cc.toNat

def fpuCondition (s : State) (cc : BitVec 3) : Bool := s.fcr31.getLsbD (conditionBit cc)

def setFpuCondition (s : State) (cc : BitVec 3) (value : Bool) : State :=
  let mask := (1 : Word) <<< conditionBit cc
  { s with fcr31 := if value then s.fcr31 ||| mask else s.fcr31 &&& ~~~mask }

def compareF32 (H : Host) (s : State) (cc : BitVec 3) (left right : Word) (condition : BitVec 4) :
    State :=
  let unordered := Binary32.isNan left || Binary32.isNan right
  let less := !unordered && H.lt left right
  let equal := !unordered && H.eq left right
  setFpuCondition s cc
    ((condition.getLsbD 2 && less) || (condition.getLsbD 1 && equal) ||
      (condition.getLsbD 0 && unordered))

/-- `std::numeric_limits<std::int32_t>` holds the integer. -/
def inInt32 (n : ℤ) : Bool := -2 ^ 31 ≤ n ∧ n ≤ 2 ^ 31 - 1

/-- `rounded_word`. The `double` it computes in is exact on singles and on their roundings. -/
def roundedWord (value : Word) (mode : BitVec 2) : Word :=
  let q := Binary32.toRat value
  let rounded :=
    match mode with
    | 0#2 => Binary32.roundTiesEven q
    | 1#2 => Binary32.roundTrunc q
    | 2#2 => ⌈q⌉
    | _ => ⌊q⌋
  if Binary32.isFinite value ∧ inInt32 rounded then BitVec.ofInt 32 rounded else 0x80000000

/-- `static_cast<std::int32_t>` of the single that a rounding of `value` gives. -/
def castRounded (H : Host) (value : Word) (round : ℚ → ℤ) : Word :=
  let rounded := round (Binary32.toRat value)
  if Binary32.isFinite value ∧ inInt32 rounded then BitVec.ofInt 32 rounded
  else H.castUndefined value

end Psprism
