import Psprism.Arith

/-!
# The VFPU register file (`include/psprecomp/vfpu.hpp`)

Decoding predicates, register indexing, vectors and matrices, the operand prefixes and the lane
arithmetic of `execute_vfpu`. A local `float` array is a function of the lane, zero where the
source leaves it zero-initialised; floats are bit patterns.
-/

namespace Psprism

abbrev Lanes := Nat → Word

inductive VfpuStaticOperation
  | none | add | subtract | multiply | dot | move
deriving DecidableEq, Repr

/-! ### Instruction fields -/

def opOf (w : Word) : BitVec 6 := w.extractLsb' 26 6

/-- Bits 23 to 25, `sub3` or `type`. -/
def vfpuSub3 (w : Word) : BitVec 3 := w.extractLsb' 23 3

/-- Bits 21 to 25, `group` or `kind`. -/
def vfpuGroup (w : Word) : BitVec 5 := w.extractLsb' 21 5

/-- Bits 16 to 20, `type` of the unary groups. -/
def vfpuType (w : Word) : BitVec 5 := w.extractLsb' 16 5

def vfpuStaticOperation (w : Word) : VfpuStaticOperation :=
  if opOf w = 0x18 ∧ vfpuSub3 w = 0 then .add
  else if opOf w = 0x18 ∧ vfpuSub3 w = 1 then .subtract
  else if opOf w = 0x19 ∧ vfpuSub3 w = 0 then .multiply
  else if opOf w = 0x19 ∧ vfpuSub3 w = 1 then .dot
  else if opOf w = 0x34 ∧ vfpuGroup w = 0 ∧ vfpuType w = 0 then .move
  else .none

def vfpuOpcodeSupported (w : Word) : Bool :=
  let sub3 := vfpuSub3 w
  let group := vfpuGroup w
  let type := vfpuType w
  match opOf w with
  | 0x12#6 => group = 3 ∨ group = 7 ∨ group = 8
  | 0x18#6 => sub3 = 0 ∨ sub3 = 1 ∨ sub3 = 2 ∨ sub3 = 3 ∨ sub3 = 7
  | 0x19#6 => sub3 ≤ 2 ∨ sub3 = 4 ∨ sub3 = 6 ∨ w &&& 0xff808080 = 0x66808000
  | 0x1b#6 =>
    sub3 = 0 ∨ sub3 = 2 ∨ sub3 = 3 ∨ w &&& 0xff808080 = 0x6e808000 ∨ w &&& 0xff808080 = 0x6f808080
  | 0x32#6 | 0x35#6 | 0x36#6 | 0x3a#6 | 0x3d#6 | 0x3e#6 | 0x3f#6 => true
  | 0x37#6 => sub3 ≤ 7
  | 0x34#6 =>
    if group = 0 then
      type = 0 ∨ type = 1 ∨ type = 2 ∨ type = 3 ∨ type = 4 ∨ type = 5 ∨ type = 6 ∨ type = 7 ∨
        (16 ≤ type ∧ type ≤ 26)
    else if group = 1 then 24 ≤ type
    else if group = 2 then
      type = 1 ∨ type = 2 ∨ type = 3 ∨ type = 5 ∨ type = 6 ∨ type = 7 ∨ type = 8 ∨ type = 9 ∨
        type = 10 ∨ type = 25
    else if group = 3 then type ≤ 19
    else 16 ≤ group ∧ group ≤ 21
  | 0x3c#6 =>
    group ≤ 3 ∨ (12 ≤ group ∧ group ≤ 15) ∨ (20 ≤ group ∧ group ≤ 23) ∨ group = 29 ∨
      w &&& 0xff808080 = 0xf1008000 ∨ w &&& 0xff808080 = 0xf2008080 ∨
      w &&& 0xffff0000 = 0xf3800000 ∨ w &&& 0xffffff80 = 0xf3838080 ∨
      w &&& 0xffffff80 = 0xf3868080 ∨ w &&& 0xffffff80 = 0xf3878080
  | _ => false

def vfpuSize (w : Word) : Nat := (w.extractLsb' 7 1).toNat + (w.extractLsb' 15 1).toNat * 2 + 1

def vfpuVd (w : Word) : BitVec 7 := w.extractLsb' 0 7

def vfpuVs (w : Word) : BitVec 7 := w.extractLsb' 8 7

def vfpuVt (w : Word) : BitVec 7 := w.extractLsb' 16 7

/-! ### Registers, vectors and matrices -/

/-- The first row of a vector register. -/
def vfpuRow (reg : BitVec 7) (size : Nat) : BitVec 7 :=
  if size = 1 then (reg >>> 5) &&& 3
  else if size = 2 ∨ size = 4 then (reg >>> 5) &&& 2
  else (reg >>> 6) &&& 1

def vfpuIndex (reg : BitVec 7) (size lane : Nat) : BitVec 7 :=
  let matrix := (reg >>> 2) &&& 7
  let column := reg &&& 3
  let row := vfpuRow reg size
  if size ≠ 1 ∧ (reg >>> 5) &&& 1 ≠ 0 then
    matrix * 4 + ((row + BitVec.ofNat 7 lane) &&& 3) + column * 32
  else matrix * 4 + column + ((row + BitVec.ofNat 7 lane) &&& 3) * 32

/-- The index of element `i` of column `j` of a matrix register. -/
def vfpuMatrixIndex (reg : BitVec 7) (side j i : Nat) : BitVec 7 :=
  let matrix := (reg >>> 2) &&& 7
  let column := reg &&& 3
  let row := if side = 3 then (reg >>> 6) &&& 1 else (reg >>> 5) &&& 2
  if (reg >>> 5) &&& 1 ≠ 0 then
    matrix * 4 + (((row + BitVec.ofNat 7 i) &&& 3) + ((column + BitVec.ofNat 7 j) &&& 3) * 32)
  else matrix * 4 + (((column + BitVec.ofNat 7 j) &&& 3) + ((row + BitVec.ofNat 7 i) &&& 3) * 32)

namespace VfpuFile

def setReg (v : VfpuFile) (i : BitVec 7) (x : Word) : VfpuFile :=
  { v with regs := Function.update v.regs i x }

def setCtrl (v : VfpuFile) (i : BitVec 4) (x : Word) : VfpuFile :=
  { v with ctrl := Function.update v.ctrl i x }

def readVector (v : VfpuFile) (reg : BitVec 7) (size : Nat) : Lanes := fun lane =>
  if lane < size then v.regs (vfpuIndex reg size lane) else 0

/-- A lane of `vfpu_write_vector`: the destination prefix can mask it. -/
def writeLane (v : VfpuFile) (index : BitVec 7) (lane : Nat) (x : Word) : VfpuFile :=
  if (v.ctrl 2).getLsbD (8 + lane) then v else v.setReg index x

def writeVector (v : VfpuFile) (reg : BitVec 7) (size : Nat) (values : Lanes) : VfpuFile :=
  (List.range size).foldl (fun v lane => v.writeLane (vfpuIndex reg size lane) lane (values lane)) v

/-- `vfpu_read_matrix`; element `i` of column `j` at `j * 4 + i`. -/
def readMatrix (v : VfpuFile) (reg : BitVec 7) (side : Nat) : Lanes := fun k =>
  if k / 4 < side ∧ k % 4 < side then v.regs (vfpuMatrixIndex reg side (k / 4) (k % 4)) else 0

/-- `vfpu_write_matrix`, which no prefix masks. -/
def writeMatrix (v : VfpuFile) (reg : BitVec 7) (side : Nat) (values : Lanes) : VfpuFile :=
  (List.range side).foldl (fun v j =>
    (List.range side).foldl (fun v i => v.setReg (vfpuMatrixIndex reg side j i) (values (j * 4 + i)))
      v) v

def eatPrefixes (v : VfpuFile) : VfpuFile := ((v.setCtrl 0 0xe4).setCtrl 1 0xe4).setCtrl 2 0

def prefixesIdentity (v : VfpuFile) : Bool := v.ctrl 0 = 0xe4 ∧ v.ctrl 1 = 0xe4 ∧ v.ctrl 2 = 0

end VfpuFile

/-! ### Prefixes -/

/-- The constants a source prefix can select: 0, 1, 2, 1/2, 3, 1/3, 1/4, 1/6. -/
def prefixConstant (i : Nat) : Word :=
  match i with
  | 0 => 0x00000000
  | 1 => 0x3f800000
  | 2 => 0x40000000
  | 3 => 0x3f000000
  | 4 => 0x40400000
  | 5 => 0x3eaaaaab
  | 6 => 0x3e800000
  | _ => 0x3e2aaaab

def applyPrefix (values : Lanes) (size : Nat) (pfx : Word) : Lanes :=
  if pfx = 0xe4 then values
  else fun i =>
    if i < size then
      let swizzle := (pfx.extractLsb' (i * 2) 2).toNat
      let absolute := pfx.getLsbD (8 + i)
      let value :=
        if pfx.getLsbD (12 + i) then prefixConstant (swizzle + if absolute then 4 else 0)
        else
          let value := if swizzle < size then values swizzle else 0
          if absolute then fabs value else value
      if pfx.getLsbD (16 + i) then fneg value else value
    else values i

section
variable (H : Host)

/-- `std::clamp`, `std::max`, `std::min`. -/
def clampF (x lo hi : Word) : Word := if H.lt x lo then lo else if H.lt hi x then hi else x

def maxF (a b : Word) : Word := if H.lt a b then b else a

def minF (a b : Word) : Word := if H.lt b a then b else a

def leF (a b : Word) : Bool := H.lt a b || H.eq a b

def one : Word := 0x3f800000

def minusOne : Word := 0xbf800000

/-- `vfpu_apply_destination_prefix` with saturation. -/
def applyDestinationPrefix (v : VfpuFile) (values : Lanes) (size : Nat) : Lanes := fun i =>
  if i < size then
    match (v.ctrl 2).extractLsb' (i * 2) 2 with
    | 1#2 => clampF H (values i) 0 one
    | 3#2 => clampF H (values i) minusOne one
    | _ => values i
  else values i

/-- How most operations end: destination prefix, write, prefixes consumed. -/
def VfpuFile.finish (v : VfpuFile) (vd : BitVec 7) (size : Nat) (result : Lanes) : VfpuFile :=
  (v.writeVector vd size (applyDestinationPrefix H v result size)).eatPrefixes

/-- The same where saturation is off. -/
def VfpuFile.finishRaw (v : VfpuFile) (vd : BitVec 7) (size : Nat) (result : Lanes) : VfpuFile :=
  (v.writeVector vd size result).eatPrefixes

/-! ### Lane arithmetic -/

/-- `for (i = 0; i < n; ++i) acc += term(i)`. -/
def sumF (n : Nat) (acc : Word) (term : Nat → Word) : Word :=
  (List.range n).foldl (fun acc i => H.add acc (term i)) acc

/-- A result whose first `size` lanes are computed. -/
def lanes (size : Nat) (f : Nat → Word) : Lanes := fun i => if i < size then f i else 0

/-- A result given by its first lanes. -/
def lanesOf (l : List Word) : Lanes := fun i => l.getD i 0

def signF (x : Word) : Word := if H.lt 0 x then one else if H.lt x 0 then minusOne else 0

/-- Op 0x18: vsbn, vdiv, vsub, vadd. -/
def vfpuAddGroup (w : Word) (size : Nat) (source target : Lanes) : Lanes :=
  let type := vfpuSub3 w
  if type = 2 then
    let s := source 0
    if H.eq s 0 ∨ Binary32.isNan s ∨ Binary32.isInf s then lanesOf [s]
    else
      let exponent : Word := (target 0 + 127) &&& 0xff
      lanesOf [(s &&& (0x807fffff : Word)) ||| (exponent <<< 23)]
  else
    lanes size fun i =>
      if type = 3 ∨ type = 7 then H.div (source i) (target i)
      else if type = 1 then H.sub (source i) (target i)
      else H.add (source i) (target i)

/-- Op 0x19: vcrs, vmul, vdot, vhdp, vdet, vscl. -/
def vfpuMulGroup (v : VfpuFile) (w : Word) (size : Nat) (source target : Lanes) : VfpuFile :=
  let vd := vfpuVd w
  let type := vfpuSub3 w
  if w &&& 0xff808080 = 0x66808000 then
    v.finish H vd size (lanesOf
      [H.mul (source 1) (target 2), H.mul (source 2) (target 0), H.mul (source 0) (target 1)])
  else if type = 0 then v.finish H vd size (lanes size fun i => H.mul (source i) (target i))
  else if type = 1 then
    v.finish H vd 1 (lanesOf [sumF H size 0 fun i => H.mul (source i) (target i)])
  else if type = 4 then
    v.finish H vd 1 (lanesOf
      [H.add (sumF H (size - 1) 0 fun i => H.mul (source i) (target i)) (target (size - 1))])
  else if type = 6 then
    v.finish H vd 1 (lanesOf
      [H.sub (H.mul (source 0) (target 1)) (H.mul (source 1) (target 0))])
  else
    let scalar := applyPrefix (v.readVector (vfpuVt w) 1) 1 (v.ctrl 1)
    v.finish H vd size (lanes size fun i => H.mul (source i) (scalar 0))

/-- The condition of a vcmp lane. -/
def vcmpCondition (code : BitVec 4) (s t : Word) : Bool :=
  match code with
  | 0#4 => false
  | 1#4 => H.eq s t
  | 2#4 => H.lt s t
  | 3#4 => leF H s t
  | 4#4 => true
  | 5#4 => !H.eq s t
  | 6#4 => leF H t s
  | 7#4 => H.lt t s
  | 8#4 => H.eq s 0
  | 9#4 => Binary32.isNan s
  | 10#4 => Binary32.isInf s
  | 11#4 => !Binary32.isFinite s
  | 12#4 => !H.eq s 0
  | 13#4 => !Binary32.isNan s
  | 14#4 => !Binary32.isInf s
  | _ => Binary32.isFinite s

/-- Op 0x1b: vcmp, and for every other type (vscmp and vsge included, whose own lanes the loop
overwrites) vmin or vmax. -/
def vfpuCompareGroup (v : VfpuFile) (w : Word) (size : Nat) (source target : Lanes) : VfpuFile :=
  let type := vfpuSub3 w
  if w &&& 0xff808080 ≠ 0x6e808000 ∧ w &&& 0xff808080 ≠ 0x6f808080 ∧ type = 0 then
    let condition := fun i => vcmpCondition H (w.extractLsb' 0 4) (source i) (target i)
    let all := (List.range size).all condition
    let any := (List.range size).any condition
    let laneBits : Word := (List.range size).foldl (fun cc i => cc ||| (boolWord (condition i) <<< i)) 0
    let cc := laneBits ||| (boolWord any <<< 4) ||| (boolWord all <<< 5)
    let laneMask : Word := (1 : Word) <<< size - 1
    let affected : Word := laneMask ||| 0x30
    (v.setCtrl 3 ((v.ctrl 3 &&& ~~~affected) ||| (cc &&& affected))).eatPrefixes
  else
    v.finish H (vfpuVd w) size (lanes size fun i =>
      if type = 2 then minF H (source i) (target i) else maxF H (source i) (target i))

/-- The constants of vcst. -/
def vcstConstants : List Word :=
  [0x00000000, 0x7f7fffff, 0x3fb504f3, 0x3f3504f3, 0x3f906ebb, 0x3f22f983, 0x3ea2f983, 0x3f490fdb,
    0x3fc90fdb, 0x40490fdb, 0x402df854, 0x3fb8aa3b, 0x3ede5bd9, 0x3f317218, 0x40135d8e, 0x40c90fdb,
    0x3f060a92, 0x3e9a209b, 0x40549a78, 0x3f5db3d7]

def halfPi : Word := 0x3fc90fdb

def twoOverPi : Word := 0x3f22f983

/-- A lane of the unary group 0. -/
def vfpuUnaryLane (type : BitVec 5) (x : Word) : Word :=
  match type with
  | 0#5 => x
  | 1#5 => fabs x
  | 2#5 => fneg x
  | 4#5 => clampF H x 0 one
  | 5#5 => clampF H x minusOne one
  | 6#5 => 0
  | 7#5 => one
  | 16#5 => H.div one x
  | 17#5 => H.div one (H.sqrt x)
  | 18#5 => H.sin (H.mul x halfPi)
  | 19#5 => H.cos (H.mul x halfPi)
  | 20#5 => H.exp2 x
  | 21#5 => H.log2 x
  | 22#5 => H.sqrt x
  | 23#5 => H.mul (H.asin x) twoOverPi
  | 24#5 => H.div minusOne x
  | 25#5 => fneg (H.sin (H.mul x halfPi))
  | 26#5 =>
    if leF H 0x42fe0000 x then 0 else if leF H x 0xc3000000 then 0x7f800000 else H.exp2 (fneg x)
  | _ => 0

/-- The packing of two words to halves, vi2us and vi2s. -/
def packHalf (unsigned : Bool) (bits : Word) : Word :=
  if unsigned then (if bits.slt 0 then 0 else bits >>> 15) else bits >>> 16

/-- The packing of a word to a byte, vi2uc and vi2c. -/
def packByte (unsigned : Bool) (bits : Word) : Word :=
  if unsigned then (if bits.slt 0 then 0 else (bits >>> 23) &&& 0xff) else bits >>> 24

/-- A 4444 colour, vt4444. -/
def color4444 (bits : Word) : Word :=
  (((((bits >>> 24) &&& 0xff) >>> 4) <<< 12) ||| ((((bits >>> 16) &&& 0xff) >>> 4) <<< 8) |||
    ((((bits >>> 8) &&& 0xff) >>> 4) <<< 4) ||| ((bits &&& 0xff) >>> 4)) &&& 0xffff

/-- `std::ldexp(1.0F, -k)`. -/
def powerOfHalf (k : Nat) : Word := BitVec.ofNat 32 (127 - k) <<< 23

/-- Op 0x34. -/
def vfpuUnaryGroup (v : VfpuFile) (w : Word) (size : Nat) (source : Lanes) : VfpuFile :=
  let vd := vfpuVd w
  let group := vfpuGroup w
  let type := vfpuType w
  if group = 0 ∧ type = 3 then
    let identityLane := (vd &&& if 3 ≤ size then 3 else 1).toNat
    v.finish H vd size (lanes size fun i =>
      let value := if i = identityLane then one else 0
      if (v.ctrl 0).getLsbD (16 + i) then fneg value else value)
  else if group = 3 ∧ type ≤ 19 then
    v.finish H vd size (lanes size fun _ => vcstConstants.getD type.toNat 0)
  else if group = 2 ∧ type = 10 then v.finish H vd size (lanes size fun i => signF H (source i))
  else if group = 2 ∧ type = 6 then v.finish H vd 1 (lanesOf [sumF H size 0 source])
  else if group = 2 ∧ type = 1 then
    v.finish H vd size (lanesOf [minF H (source 0) (source 3), minF H (source 1) (source 2),
      maxF H (source 1) (source 2), maxF H (source 0) (source 3)])
  else if group = 2 ∧ type = 2 then
    v.finish H vd size (lanes (size / 2 * 2) fun i =>
      if i % 2 = 0 then H.add (source i) (source (i + 1)) else H.sub (source (i - 1)) (source i))
  else if group = 2 ∧ type = 3 then
    v.finish H vd size (lanesOf [H.add (source 0) (source 2), H.add (source 1) (source 3),
      H.sub (source 0) (source 2), H.sub (source 1) (source 3)])
  else if group = 2 ∧ type = 5 then
    v.finish H vd (size * 2) (lanes (size * 2) fun i =>
      if i % 2 = 0 then clampF H (H.sub one (source (i / 2))) 0 one
      else clampF H (source (i / 2)) 0 one)
  else if group = 2 ∧ type = 7 then
    v.finish H vd 1 (lanesOf [H.div (sumF H size 0 source) (H.ofInt32 (BitVec.ofNat 32 size))])
  else if group = 2 ∧ type = 8 then
    v.finish H vd size (lanesOf [maxF H (source 0) (source 1), minF H (source 0) (source 1),
      maxF H (source 2) (source 3), minF H (source 2) (source 3)])
  else if group = 2 ∧ type = 9 then
    v.finish H vd size (lanesOf [maxF H (source 0) (source 3), maxF H (source 1) (source 2),
      minF H (source 1) (source 2), minF H (source 0) (source 3)])
  else if group = 1 ∧ (type = 26 ∨ type = 27) then
    let inputSize := min size 2
    let sh := if type = 26 then 1 else 0
    v.finishRaw vd (inputSize * 2) (lanes (inputSize * 2) fun i =>
      let packed := source (i / 2)
      if i % 2 = 0 then (packed &&& 0xffff) <<< (16 - sh) else (packed &&& 0xffff0000) >>> sh)
  else if group = 1 ∧ (type = 30 ∨ type = 31) then
    let outputSize := (size + 1) / 2
    v.finishRaw vd outputSize (lanes outputSize fun i =>
      let high := if i * 2 + 1 < size then source (i * 2 + 1) else 0
      packHalf (type = 30) (source (i * 2)) ||| (packHalf (type = 30) high <<< 16))
  else if group = 1 ∧ (type = 24 ∨ type = 25) then
    v.finishRaw vd 4 (lanes 4 fun i =>
      let byte := (source 0 >>> (i * 8)) &&& 0xff
      if type = 24 then (byte * 0x01010101) >>> 1 else byte <<< 24)
  else if group = 0 then v.finish H vd size (lanes size fun i => vfpuUnaryLane H type (source i))
  else if 16 ≤ group ∧ group ≤ 19 then
    v.finish H vd size (lanes size fun i => H.floatToFixed group type (source i))
  else if group = 20 then
    v.finish H vd size (lanes size fun i => H.mul (H.ofInt32 (source i)) (powerOfHalf type.toNat))
  else if group = 21 then
    let dest := applyPrefix (v.readVector vd size) size (v.ctrl 1)
    let select := (type &&& 7).toNat
    let cc := v.ctrl 3
    v.finish H vd size (lanes size fun i =>
      let cond := cc.getLsbD (if select = 6 then i else select)
      if cond = type.getLsbD 3 then source i else dest i)
  else if group = 1 ∧ (type = 28 ∨ type = 29) then
    v.finishRaw vd 1 (lanesOf [(List.range 4).foldl (fun packed i =>
      packed ||| ((packByte (type = 28) (source i) &&& 0xff) <<< (i * 8))) 0])
  else if group = 2 ∧ type = 25 then
    v.finishRaw vd (if size = 1 then 1 else 2) (lanesOf
      [color4444 (source 0) ||| (color4444 (source 1) <<< 16),
        color4444 (source 2) ||| (color4444 (source 3) <<< 16)])
  else v.finish H vd size (lanesOf [])

/-- Quaternion product or cross product. -/
def vfpuCrossGroup (size : Nat) (s t : Lanes) : Lanes :=
  let mul := H.mul
  let add := H.add
  let sub := H.sub
  if size = 4 then
    lanesOf
      [add (add (sub (mul (s 3) (t 0)) (mul (s 2) (t 1))) (mul (s 1) (t 2))) (mul (s 0) (t 3)),
        sub (add (add (mul (s 3) (t 1)) (mul (s 2) (t 0))) (mul (s 1) (t 3))) (mul (s 0) (t 2)),
        add (sub (add (mul (s 3) (t 2)) (mul (s 2) (t 3))) (mul (s 1) (t 0))) (mul (s 0) (t 1)),
        sub (sub (sub (mul (s 3) (t 3)) (mul (s 2) (t 2))) (mul (s 1) (t 1))) (mul (s 0) (t 0))]
  else
    lanesOf
      [sub (mul (s 1) (t 2)) (mul (s 2) (t 1)), sub (mul (s 2) (t 0)) (mul (s 0) (t 2)),
        sub (mul (s 0) (t 1)) (mul (s 1) (t 0))]

/-- A matrix of a vector of columns: `transformed[row] += matrix[row * 4 + i] * vector[i]`. -/
def transformF (side : Nat) (matrix vector : Lanes) : Lanes :=
  lanes side fun row => sumF H side 0 fun i => H.mul (matrix (row * 4 + i)) (vector i)

/-- Op 0x3c. -/
def vfpuMatrixGroup (v : VfpuFile) (w : Word) (size : Nat) (source target : Lanes) : VfpuFile :=
  let vd := vfpuVd w
  let vs := vfpuVs w
  let vt := vfpuVt w
  let group := vfpuGroup w
  if w &&& 0xffff0000 = 0xf3800000 ∧ 2 ≤ size then
    (v.writeMatrix vd size (v.readMatrix vs size)).eatPrefixes
  else if w &&& 0xff808080 = 0xf2008080 then
    let scalar := applyPrefix (v.readVector vt 1) 1 (v.ctrl 1)
    (v.writeMatrix vd 4 fun k => H.mul (v.readMatrix vs 4 k) (scalar 0)).eatPrefixes
  else if w &&& 0xffffff80 = 0xf3838080 then
    (v.writeMatrix vd 4 fun k => if k / 4 = k % 4 then one else 0).eatPrefixes
  else if w &&& 0xffffff80 = 0xf3868080 then (v.writeMatrix vd 4 fun _ => 0).eatPrefixes
  else if w &&& 0xffffff80 = 0xf3878080 then (v.writeMatrix vd 4 fun _ => one).eatPrefixes
  else if group ≤ 3 then
    let left := v.readMatrix vs size
    let right := v.readMatrix vt size
    (v.writeMatrix vd size fun k =>
      sumF H size 0 fun i => H.mul (left (k % 4 * 4 + i)) (right (k / 4 * 4 + i))).eatPrefixes
  else if w &&& 0xff808080 = 0xf1008000 then
    v.finishRaw vd 3 (transformF H 3 (v.readMatrix vs 3) (v.readVector vt 3))
  else if 12 ≤ group ∧ group ≤ 15 then
    v.finishRaw vd 4 (transformF H 4 (v.readMatrix vs 4) (v.readVector vt 4))
  else if 20 ≤ group ∧ group ≤ 23 then v.finish H vd size (vfpuCrossGroup H size source target)
  else if group = 29 then
    let imm : BitVec 5 := w.extractLsb' 16 5
    let sineLane := ((imm >>> 2) &&& 3).toNat
    let cosineLane := (imm &&& 3).toNat
    let sine := H.sin (H.mul (source 0) halfPi)
    let sine := if imm.getLsbD 4 then fneg sine else sine
    v.finish H vd size fun i =>
      if i = cosineLane then H.cos (H.mul (source 0) halfPi)
      else if sineLane = cosineLane ∧ i < 4 ∨ i = sineLane then sine else 0
  else v.finish H vd size (lanesOf [])

/-- The part of `execute_vfpu` behind the loads, stores and prefix instructions: both operands are
read and prefixed, whether or not the operation uses them. -/
def vfpuCompute (v : VfpuFile) (w : Word) : VfpuFile :=
  let size := vfpuSize w
  let source := applyPrefix (v.readVector (vfpuVs w) size) size (v.ctrl 0)
  let target := applyPrefix (v.readVector (vfpuVt w) size) size (v.ctrl 1)
  match opOf w with
  | 0x18#6 => v.finish H (vfpuVd w) size (vfpuAddGroup H w size source target)
  | 0x19#6 => vfpuMulGroup H v w size source target
  | 0x1b#6 => vfpuCompareGroup H v w size source target
  | 0x34#6 => vfpuUnaryGroup H v w size source
  | 0x3c#6 => vfpuMatrixGroup H v w size source target
  | _ => v.finish H (vfpuVd w) size (lanesOf [])

end

end Psprism
