import Psprism.Decoder
import Psprism.VfpuExecute

/-!
# The single-step interpreter (`include/psprecomp/interpreter.hpp`)

`interpretAllegrex` fetches the word at the given pc and executes it. The `switch` on the opcode is
`interpretBody`, with one function for each opcode that switches again; the state it is given has
the pc of the next instruction and no branch pending, and its caller clears register zero and
applies the branch that was pending before.
-/

namespace Psprism

namespace State

/-- `state.gpr[0] = 0`. -/
def resetZero (s : State) : State := s.setGpr 0 0

/-- `fail`. -/
def failAt (s : State) (currentPc w : Word) : State :=
  { s with
    stopReason := .unsupportedInstruction
    faultPc := currentPc
    faultAddress := currentPc
    faultInstruction := w }

/-- `branch`: a likely branch that is not taken skips its delay slot. -/
def branch (s : State) (currentPc w : Word) (condition : Bool) (likely : Bool) : State :=
  if condition then
    { s with branchPending := true, branchTarget := currentPc + 4 + signedImmediate w * 4 }
  else if likely then { s with pc := currentPc + 8 }
  else s

/-- An unconditional transfer. -/
def jumpTo (s : State) (target : Word) : State :=
  { s with branchPending := true, branchTarget := target }

end State

/-- `as_s32(a) > as_s32(b) ? a : b` and the minimum. -/
def maxS32 (a b : Word) : Word := if b.slt a then a else b

def minS32 (a b : Word) : Word := if a.slt b then a else b

/-- The quotient in `lo` and the remainder in `hi`, as the hardware leaves them on a zero divisor
and on overflow. -/
def interpretDiv (s : State) (left right : Word) : State :=
  if right = 0 then { s with lo := if left.slt 0 then 1 else 0xffffffff, hi := left }
  else if left = 0x80000000 ∧ right = 0xffffffff then { s with lo := left, hi := 0xffffffff }
  else { s with lo := left.sdiv right, hi := left.srem right }

def interpretDivu (s : State) (left right : Word) : State :=
  if right = 0 then { s with lo := if left ≤ 0xffff then 0xffff else 0xffffffff, hi := left }
  else { s with lo := left / right, hi := left % right }

/-- Op 0. -/
def interpretSpecial (s : State) (currentPc w : Word) : State :=
  let rs := s.gpr (rsOf w)
  let rt := s.gpr (rtOf w)
  let rd := rdOf w
  let shift : Word := (shiftOf w).setWidth 32
  match functionOf w with
  | 0x00#6 => s.setGpr rd (rt <<< shift)
  | 0x02#6 => s.setGpr rd (if rsOf w = 1 then rotateRight rt shift else rt >>> shift)
  | 0x03#6 => s.setGpr rd (arithmeticShiftRight rt shift)
  | 0x04#6 => s.setGpr rd (rt <<< (rs &&& 31))
  | 0x06#6 => s.setGpr rd (if shiftOf w = 1 then rotateRight rt rs else rt >>> (rs &&& 31))
  | 0x07#6 => s.setGpr rd (arithmeticShiftRight rt rs)
  | 0x08#6 => s.jumpTo rs
  | 0x09#6 =>
    let target := rs
    (if rd ≠ 0 then s.setGpr rd (currentPc + 8) else s).jumpTo target
  | 0x0a#6 => if rt = 0 then s.setGpr rd rs else s
  | 0x0b#6 => if rt ≠ 0 then s.setGpr rd rs else s
  | 0x0c#6 => { s with stopReason := .syscall }
  | 0x0d#6 => s
  | 0x0f#6 => s
  | 0x10#6 => s.setGpr rd s.hi
  | 0x11#6 => { s with hi := rs }
  | 0x12#6 => s.setGpr rd s.lo
  | 0x13#6 => { s with lo := rs }
  | 0x16#6 => s.setGpr rd (countlZero rs)
  | 0x17#6 => s.setGpr rd (countlOne rs)
  | 0x18#6 => setHiLo s (signedProduct rs rt)
  | 0x19#6 => setHiLo s (unsignedProduct rs rt)
  | 0x1a#6 => interpretDiv s rs rt
  | 0x1b#6 => interpretDivu s rs rt
  | 0x1c#6 => setHiLo s (accumulator s + signedProduct rs rt)
  | 0x1d#6 => setHiLo s (accumulator s + unsignedProduct rs rt)
  | 0x2e#6 => setHiLo s (accumulator s - signedProduct rs rt)
  | 0x2f#6 => setHiLo s (accumulator s - unsignedProduct rs rt)
  | 0x20#6 => s.setGpr rd (rs + rt)
  | 0x21#6 => s.setGpr rd (rs + rt)
  | 0x22#6 => s.setGpr rd (rs - rt)
  | 0x23#6 => s.setGpr rd (rs - rt)
  | 0x24#6 => s.setGpr rd (rs &&& rt)
  | 0x25#6 => s.setGpr rd (rs ||| rt)
  | 0x26#6 => s.setGpr rd (rs ^^^ rt)
  | 0x27#6 => s.setGpr rd (~~~(rs ||| rt))
  | 0x2a#6 => s.setGpr rd (boolWord (rs.slt rt))
  | 0x2b#6 => s.setGpr rd (boolWord (rs.ult rt))
  | 0x2c#6 => s.setGpr rd (maxS32 rs rt)
  | 0x2d#6 => s.setGpr rd (minS32 rs rt)
  | _ => s.failAt currentPc w

/-- REGIMM forms: `ge`, `likely` and `link`. -/
def regimmGe (rt : Reg) : Bool := rt = 0x01 ∨ rt = 0x03 ∨ rt = 0x11 ∨ rt = 0x13

def regimmLikely (rt : Reg) : Bool := rt = 0x02 ∨ rt = 0x03 ∨ rt = 0x12 ∨ rt = 0x13

def regimmLink (rt : Reg) : Bool := 0x10 ≤ rt ∧ rt ≤ 0x13

/-- The eight REGIMM forms there are. -/
def regimmDefined (rt : Reg) : Bool :=
  rt = 0x00 ∨ rt = 0x01 ∨ rt = 0x02 ∨ rt = 0x03 ∨ rt = 0x10 ∨ rt = 0x11 ∨ rt = 0x12 ∨ rt = 0x13

/-- Op 1: the link register is written before the condition is read. -/
def interpretRegimm (s : State) (currentPc w : Word) : State :=
  let rt := rtOf w
  if ¬ regimmDefined rt then s.failAt currentPc w
  else
    let s := if regimmLink rt then s.setGpr 31 (currentPc + 8) else s
    let value := s.gpr (rsOf w)
    s.branch currentPc w (if regimmGe rt then !value.slt 0 else value.slt 0) (regimmLikely rt)

/-- COP1 with format single. -/
def interpretSingle (H : Host) (s : State) (currentPc w : Word) : State :=
  let rt := rtOf w
  let fs := rdOf w
  let fd := shiftOf w
  let left := s.fpr fs
  let right := s.fpr rt
  match functionOf w with
  | 0x00#6 => s.setFpr fd (H.add left right)
  | 0x01#6 => s.setFpr fd (H.sub left right)
  | 0x02#6 => s.setFpr fd (H.mul left right)
  | 0x03#6 => s.setFpr fd (H.div left right)
  | 0x04#6 => s.setFpr fd (H.sqrt left)
  | 0x05#6 => s.setFpr fd (fabs left)
  | 0x06#6 => s.setFpr fd left
  | 0x07#6 => s.setFpr fd (fneg left)
  | 0x0c#6 => s.setFpr fd (castRounded H left Binary32.roundTiesAway)
  | 0x0d#6 => s.setFpr fd (castRounded H left Binary32.roundTrunc)
  | 0x0e#6 => s.setFpr fd (roundedWord left 2)
  | 0x0f#6 => s.setFpr fd (roundedWord left 3)
  | 0x11#6 =>
    if fpuCondition s (rt.extractLsb' 2 3) = rt.getLsbD 0 then s.setFpr fd (s.fpr fs) else s
  | 0x20#6 => s.setFpr fd (s.fpr fs)
  | 0x24#6 => s.setFpr fd (roundedWord left (s.fcr31.extractLsb' 0 2))
  | function =>
    if 0x30 ≤ function then
      compareF32 H s (w.extractLsb' 8 3) left right (function.extractLsb' 0 4)
    else s.failAt currentPc w

/-- Op 0x11. -/
def interpretCop1 (H : Host) (s : State) (currentPc w : Word) : State :=
  let fmt := rsOf w
  let rt := rtOf w
  let fs := rdOf w
  let fd := shiftOf w
  if fmt = 0x00 then s.setGpr rt (s.fpr fs)
  else if fmt = 0x04 then s.setFpr fs (s.gpr rt)
  else if fmt = 0x02 then
    s.setGpr rt (if fs = 0 then 0x00003351 else if fs = 31 then s.fcr31 else 0)
  else if fmt = 0x06 then if fs = 31 then { s with fcr31 := s.gpr rt } else s
  else if fmt = 0x08 then
    s.branch currentPc w (fpuCondition s (w.extractLsb' 18 3) = w.getLsbD 16) (w.getLsbD 17)
  else if fmt = 0x10 then interpretSingle H s currentPc w
  else if fmt = 0x14 ∧ functionOf w = 0x20 then s.setFpr fd (H.ofInt32 (s.fpr fs))
  else s.failAt currentPc w

/-- Op 0x1c. -/
def interpretSpecial2 (s : State) (currentPc w : Word) : State :=
  let rs := s.gpr (rsOf w)
  let rt := s.gpr (rtOf w)
  let rd := rdOf w
  match functionOf w with
  | 0x20#6 => s.setGpr rd (countlZero rs)
  | 0x21#6 => s.setGpr rd (countlOne rs)
  | 0x2c#6 => s.setGpr rd (maxS32 rs rt)
  | 0x2d#6 => s.setGpr rd (minS32 rs rt)
  | _ => s.failAt currentPc w

/-- The mask of a bit field. -/
def widthMask (width : Word) : Word := if width = 32 then 0xffffffff else ((1 : Word) <<< width) - 1

/-- Op 0x1f. -/
def interpretSpecial3 (s : State) (currentPc w : Word) : State :=
  let rs := s.gpr (rsOf w)
  let rt := s.gpr (rtOf w)
  let rd : Word := (rdOf w).setWidth 32
  let shift : Word := (shiftOf w).setWidth 32
  let function := functionOf w
  if function = 0x00 then s.setGpr (rtOf w) ((rs >>> shift) &&& widthMask (rd + 1))
  else if function = 0x04 then
    let positioned := widthMask (rd - shift + 1) <<< shift
    s.setGpr (rtOf w) ((rt &&& ~~~positioned) ||| ((rs <<< shift) &&& positioned))
  else if function = 0x20 ∧ shiftOf w = 0x14 then s.setGpr (rdOf w) (reverseBits rt)
  else if function = 0x20 ∧ shiftOf w = 0x02 then s.setGpr (rdOf w) (swapHalfwordBytes rt)
  else if function = 0x20 ∧ shiftOf w = 0x03 then s.setGpr (rdOf w) (byteSwap rt)
  else if function = 0x20 ∧ shiftOf w = 0x10 then s.setGpr (rdOf w) (signExtend8 rt)
  else if function = 0x20 ∧ shiftOf w = 0x18 then s.setGpr (rdOf w) (signedImmediate rt)
  else s.failAt currentPc w

/-- A load into `rt`. -/
def loadGpr {n : Nat} (rt : Reg) (extend : BitVec n → Word) (r : BitVec n × State) : State :=
  r.2.setGpr rt (extend r.1)

/-- The `switch` on the opcode. -/
def interpretBody (H : Host) (s : State) (currentPc w : Word) : State :=
  let rt := rtOf w
  let rsValue := s.gpr (rsOf w)
  let rtValue := s.gpr rt
  let immediate := w &&& 0xffff
  let simm := signedImmediate w
  let address := rsValue + simm
  match opOf w with
  | 0x00#6 => interpretSpecial s currentPc w
  | 0x01#6 => interpretRegimm s currentPc w
  | 0x02#6 => s.jumpTo (regionTarget currentPc w)
  | 0x03#6 => (s.setGpr 31 (currentPc + 8)).jumpTo (regionTarget currentPc w)
  | 0x04#6 => s.branch currentPc w (rsValue = rtValue) false
  | 0x05#6 => s.branch currentPc w (rsValue ≠ rtValue) false
  | 0x06#6 => s.branch currentPc w (rsValue.sle 0) false
  | 0x07#6 => s.branch currentPc w ((0 : Word).slt rsValue) false
  | 0x08#6 => s.setGpr rt (rsValue + simm)
  | 0x09#6 => s.setGpr rt (rsValue + simm)
  | 0x0a#6 => s.setGpr rt (boolWord (rsValue.slt simm))
  | 0x0b#6 => s.setGpr rt (boolWord (rsValue.ult simm))
  | 0x0c#6 => s.setGpr rt (rsValue &&& immediate)
  | 0x0d#6 => s.setGpr rt (rsValue ||| immediate)
  | 0x0e#6 => s.setGpr rt (rsValue ^^^ immediate)
  | 0x0f#6 => s.setGpr rt (immediate <<< 16)
  | 0x11#6 => interpretCop1 H s currentPc w
  | 0x12#6 | 0x18#6 | 0x19#6 | 0x1b#6 | 0x32#6 | 0x34#6 | 0x35#6 | 0x36#6 | 0x37#6 | 0x3a#6
  | 0x3c#6 | 0x3d#6 | 0x3e#6 | 0x3f#6 => executeVfpu H s w currentPc
  | 0x14#6 => s.branch currentPc w (rsValue = rtValue) true
  | 0x15#6 => s.branch currentPc w (rsValue ≠ rtValue) true
  | 0x16#6 => s.branch currentPc w (rsValue.sle 0) true
  | 0x17#6 => s.branch currentPc w ((0 : Word).slt rsValue) true
  | 0x1c#6 => interpretSpecial2 s currentPc w
  | 0x1f#6 => interpretSpecial3 s currentPc w
  | 0x20#6 => loadGpr rt (·.signExtend 32) (load8 s address)
  | 0x21#6 => loadGpr rt (·.signExtend 32) (load16 s address)
  | 0x22#6 => loadGpr rt id (loadWordLeft s address rtValue)
  | 0x23#6 => loadGpr rt id (load32 s address)
  | 0x24#6 => loadGpr rt (·.setWidth 32) (load8 s address)
  | 0x25#6 => loadGpr rt (·.setWidth 32) (load16 s address)
  | 0x26#6 => loadGpr rt id (loadWordRight s address rtValue)
  | 0x28#6 => store8 s address (rtValue.setWidth 8)
  | 0x29#6 => store16 s address (rtValue.setWidth 16)
  | 0x2a#6 => storeWordLeft s address rtValue
  | 0x2b#6 => store32 s address rtValue
  | 0x2e#6 => storeWordRight s address rtValue
  | 0x2f#6 | 0x33#6 => s
  | 0x30#6 => loadGpr rt id (load32 s address)
  | 0x31#6 =>
    let (x, s) := load32 s address
    s.setFpr rt x
  | 0x38#6 => (store32 s address rtValue).setGpr rt 1
  | 0x39#6 => store32 s address (s.fpr rt)
  | _ => s.failAt currentPc w

/-- Where the delayed branch of the instruction before takes over. -/
def State.applyBranch (s : State) (applyDelayedBranch : Bool) (delayedTarget : Word) : State :=
  if s.stopReason = .running ∧ applyDelayedBranch then { s with pc := delayedTarget } else s

theorem State.applyBranch_eq (s : State) (applyDelayedBranch : Bool) (delayedTarget : Word) :
    s.applyBranch applyDelayedBranch delayedTarget =
      { s with pc := if s.stopReason = .running ∧ applyDelayedBranch then delayedTarget else s.pc } := by
  unfold applyBranch
  split <;> rfl

/-- The pc of the next instruction, and no branch pending. -/
def State.advance (s : State) (currentPc : Word) : State :=
  { s with branchPending := false, pc := currentPc + 4 }

def interpretAllegrex (H : Host) (s : State) (currentPc : Word) : Bool × State :=
  if currentPc &&& 3 ≠ 0 then (false, s)
  else
    let (w, s) := load32 s currentPc
    if s.stopReason ≠ .running then (true, s)
    else if ¬ (decodeAllegrex w).valid then (true, (s.advance currentPc).failAt currentPc w)
    else
      let s' := (interpretBody H (s.advance currentPc) currentPc w).resetZero
      (true, s'.applyBranch s.branchPending s.branchTarget)

/-- An aligned, running CPU executes the word its pc holds. -/
theorem interpretAllegrex_of_holds {H : Host} {s : State} {currentPc w : Word}
    (halign : currentPc &&& 3 = 0) (hrun : s.stopReason = .running) (hword : HoldsWord s currentPc w)
    (hvalid : (decodeAllegrex w).valid = true) :
    interpretAllegrex H s currentPc =
      (true, ((interpretBody H (s.advance currentPc) currentPc w).resetZero).applyBranch
        s.branchPending s.branchTarget) := by
  simp only [interpretAllegrex, halign, hword.fetch, hrun, hvalid, ne_eq, not_true_eq_false, if_false]

end Psprism
