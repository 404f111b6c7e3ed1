import Psprism.Decoder
import Psprism.Interpreter
import Psprism.Stmt

/-!
# Emitting an instruction (`src/emitter/instruction.cpp`)

`emitInstruction pc w relocated preferredBase` is the statement `emit_instruction` writes for the
word `w` at image offset `pc`. Where the word is relocated the immediate is read from guest memory
at run time; otherwise it is a literal.
-/

namespace Psprism

open Stmt

/-! ### Operands -/

/-- `immediate`. -/
def emitImmediate (w : Word) (relocated : Bool) : Expr :=
  if ¬ relocated then .lit (w &&& 0xffff) else .immediate w

/-- `signed_immediate`. -/
def emitSignedImmediate (w : Word) (relocated : Bool) : Expr :=
  if ¬ relocated then .lit (signedImmediate w) else .signedImmediate w

/-- `branch_target`. -/
def emitBranchTarget (pc w : Word) (relocated : Bool) : Expr :=
  if ¬ relocated then
    let displacement := signedImmediate w * 4
    .base (pc + 4 + displacement)
  else .branchTarget w

/-- `jump_target`. -/
def emitJumpTarget (pc w : Word) (relocated : Bool) (preferredBase : Word) : Expr :=
  if ¬ relocated then
    let originalPc := pc + preferredBase
    let target := regionTarget originalPc w - preferredBase
    .base target
  else .jumpTarget w

/-- An assignment to a general register, or `/* nop */` for register zero. -/
def assign (r : Reg) (e : Expr) : Stmt := if r = 0 then .nop else .setGpr r e

/-- A load to a general register, its result dropped for register zero. -/
def emitLoad (op : LoadOp) (r : Reg) (address : Expr) : Stmt :=
  .load op (if r = 0 then .none else .gpr r) address

/-- What an unsupported or reserved word becomes. -/
def reservedWord : Stmt := .invalidPc

/-- `if (...) { state.branch_pending = true; ... }`, and for a likely branch the `else` that skips
the delay slot. -/
def emitBranch (c : Cond) (target : Expr) (pc : Word) (likely : Bool) : Stmt :=
  if likely then .ifElse c (.branch target) (.setPc (.base (pc + 8))) else .ifThen c (.branch target)

/-! ### The opcodes -/

/-- Op 0. -/
def emitSpecial (pc w : Word) : Stmt :=
  let rs : Expr := .gpr (rsOf w)
  let rt : Expr := .gpr (rtOf w)
  let rd := rdOf w
  let shift : Expr := .lit ((shiftOf w).setWidth 32)
  let masked : Expr := .bin .and rs (.lit 31)
  match functionOf w with
  | 0x00#6 => if rd = 0 ∨ w = 0 then .nop else .setGpr rd (.bin .shl rt shift)
  | 0x02#6 =>
    if rsOf w = 1 then assign rd (.bin .rotateRight rt shift)
    else if rsOf w = 0 then assign rd (.bin .shr rt shift)
    else reservedWord
  | 0x03#6 => assign rd (.bin .sra rt shift)
  | 0x04#6 => assign rd (.bin .shl rt masked)
  | 0x06#6 =>
    if shiftOf w = 1 then assign rd (.bin .rotateRight rt rs)
    else if shiftOf w = 0 then assign rd (.bin .shr rt masked)
    else reservedWord
  | 0x07#6 => assign rd (.bin .sra rt rs)
  | 0x08#6 => .branch rs
  | 0x09#6 => if rd ≠ 0 then .seq (.setGpr rd (.base (pc + 8))) (.branch rs) else .branch rs
  | 0x0a#6 => if rd = 0 then .nop else .ifThen (.cmp .eq rt (.lit 0)) (.setGpr rd rs)
  | 0x0b#6 => if rd = 0 then .nop else .ifThen (.cmp .ne rt (.lit 0)) (.setGpr rd rs)
  | 0x0c#6 => .syscall
  | 0x0d#6 => .nop
  | 0x0f#6 => .nop
  | 0x10#6 => assign rd .hi
  | 0x11#6 => .setHi rs
  | 0x12#6 => assign rd .lo
  | 0x13#6 => .setLo rs
  | 0x16#6 => assign rd (.un .countlZero rs)
  | 0x17#6 => assign rd (.un .countlOne rs)
  | 0x18#6 => .wide .mult (rsOf w) (rtOf w)
  | 0x19#6 => .wide .multu (rsOf w) (rtOf w)
  | 0x1a#6 => .wide .div (rsOf w) (rtOf w)
  | 0x1b#6 => .wide .divu (rsOf w) (rtOf w)
  | 0x1c#6 => .wide .madd (rsOf w) (rtOf w)
  | 0x1d#6 => .wide .maddu (rsOf w) (rtOf w)
  | 0x20#6 => assign rd (.bin .add rs rt)
  | 0x21#6 => assign rd (.bin .add rs rt)
  | 0x22#6 => assign rd (.bin .sub rs rt)
  | 0x23#6 => assign rd (.bin .sub rs rt)
  | 0x24#6 => assign rd (.bin .and rs rt)
  | 0x25#6 => assign rd (.bin .or rs rt)
  | 0x26#6 => assign rd (.bin .xor rs rt)
  | 0x27#6 => assign rd (.un .not (.bin .or rs rt))
  | 0x2a#6 => assign rd (.bin .ltS rs rt)
  | 0x2b#6 => assign rd (.bin .ltU rs rt)
  | 0x2c#6 => assign rd (.select .gtS rs rt rs rt)
  | 0x2d#6 => assign rd (.select .ltS rs rt rs rt)
  | 0x2e#6 => .wide .msub (rsOf w) (rtOf w)
  | 0x2f#6 => .wide .msubu (rsOf w) (rtOf w)
  | _ => reservedWord

/-- Op 1. -/
def emitRegimm (pc w : Word) (relocated : Bool) : Stmt :=
  let rt := rtOf w
  if ¬ regimmDefined rt then reservedWord
  else
    let link := rt = 0x10 ∨ rt = 0x11 ∨ rt = 0x12 ∨ rt = 0x13
    let c : Cond := .cmp (if regimmGe rt then .geS else .ltS) (.gpr (rsOf w)) (.lit 0)
    let branch := emitBranch c (emitBranchTarget pc w relocated) pc (regimmLikely rt)
    if link then .seq (.setGpr 31 (.base (pc + 8))) branch else branch

/-- Ops 2 and 3. -/
def emitJump (pc w : Word) (relocated : Bool) (preferredBase : Word) : Stmt :=
  let jump : Stmt := .branch (emitJumpTarget pc w relocated preferredBase)
  if opOf w = 0x03 then .seq (.setGpr 31 (.base (pc + 8))) jump else jump

/-- COP1 with format single. -/
def emitSingle (w : Word) : Stmt :=
  let ft := rtOf w
  let fs := rdOf w
  let fd := shiftOf w
  let s : Expr := .fpr fs
  let t : Expr := .fpr ft
  match functionOf w with
  | 0x00#6 => .setFpr fd (.float .add s t)
  | 0x01#6 => .setFpr fd (.float .sub s t)
  | 0x02#6 => .setFpr fd (.float .mul s t)
  | 0x03#6 => .setFpr fd (.float .div s t)
  | 0x04#6 => .setFpr fd (.sqrt s)
  | 0x05#6 => .setFpr fd (.bin .and s (.lit 0x7fffffff))
  | 0x06#6 => .setFpr fd s
  | 0x07#6 => .setFpr fd (.bin .xor s (.lit 0x80000000))
  | 0x0c#6 => .setFpr fd (.roundedWord s (.lit 0))
  | 0x0d#6 => .setFpr fd (.roundedWord s (.lit 1))
  | 0x0e#6 => .setFpr fd (.roundedWord s (.lit 2))
  | 0x0f#6 => .setFpr fd (.roundedWord s (.lit 3))
  | 0x11#6 => .ifThen (.fpu (ft.extractLsb' 2 3) (ft.getLsbD 0)) (.setFpr fd s)
  | 0x20#6 => .setFpr fd s
  | 0x24#6 => .setFpr fd (.roundedWord s (.bin .and .fcr31 (.lit 3)))
  | function =>
    if 0x30 ≤ function then .compareF32 (w.extractLsb' 8 3) s t (function.extractLsb' 0 4)
    else reservedWord

/-- Op 0x11. -/
def emitCop1 (pc w : Word) (relocated : Bool) : Stmt :=
  let fmt := rsOf w
  let rt := rtOf w
  let fs := rdOf w
  let fd := shiftOf w
  if fmt = 0x00 then assign rt (.fpr fs)
  else if fmt = 0x02 then
    if rt = 0 then .nop
    else if fs = 0 then .setGpr rt (.lit 0x00003351)
    else if fs = 31 then .setGpr rt .fcr31
    else .setGpr rt (.lit 0)
  else if fmt = 0x04 then .setFpr fs (.gpr rt)
  else if fmt = 0x06 then if fs = 31 then .setFcr31 (.gpr rt) else .nop
  else if fmt = 0x08 then
    emitBranch (.fpu (rt.extractLsb' 2 3) (rt.getLsbD 0)) (emitBranchTarget pc w relocated) pc
      (rt.getLsbD 1)
  else if fmt = 0x10 then emitSingle w
  else if fmt = 0x14 ∧ functionOf w = 0x20 then .setFpr fd (.ofInt32 (.fpr fs))
  else reservedWord

/-- Op 0x1c. -/
def emitSpecial2 (w : Word) : Stmt :=
  let rs : Expr := .gpr (rsOf w)
  let rt : Expr := .gpr (rtOf w)
  let rd := rdOf w
  match functionOf w with
  | 0x20#6 => assign rd (.un .countlZero rs)
  | 0x21#6 => assign rd (.un .countlOne rs)
  | 0x2c#6 => assign rd (.select .gtS rs rt rs rt)
  | 0x2d#6 => assign rd (.select .ltS rs rt rs rt)
  | _ => reservedWord

/-- Op 0x1f. The masks of the bit fields are computed by the emitter. -/
def emitSpecial3 (w : Word) : Stmt :=
  let rs : Expr := .gpr (rsOf w)
  let rt : Expr := .gpr (rtOf w)
  let rd := rdOf w
  let function := functionOf w
  let position : Word := (shiftOf w).setWidth 32
  if function = 0x20 ∧ shiftOf w = 0x14 then assign rd (.un .reverseBits rt)
  else if function = 0x20 ∧ shiftOf w = 0x02 then
    assign rd (.bin .or (.bin .shr (.bin .and rt (.lit 0xff00ff00)) (.lit 8))
      (.bin .shl (.bin .and rt (.lit 0x00ff00ff)) (.lit 8)))
  else if function = 0x20 ∧ shiftOf w = 0x03 then assign rd (.un .byteSwap rt)
  else if function = 0x20 ∧ shiftOf w = 0x10 then assign rd (.un .signExtend8 rt)
  else if function = 0x20 ∧ shiftOf w = 0x18 then assign rd (.un .signExtend16 rt)
  else if function ≠ 0 then
    if function = 4 ∧ shiftOf w ≤ rd then
      let positionedMask := widthMask (rd.setWidth 32 - position + 1) <<< position
      assign (rtOf w) (.bin .or (.bin .and rt (.un .not (.lit positionedMask)))
        (.bin .and (.bin .shl rs (.lit position)) (.lit positionedMask)))
    else reservedWord
  else
    assign (rtOf w) (.bin .and (.bin .shr rs (.lit position)) (.lit (widthMask (rd.setWidth 32 + 1))))

def emitGuardedVfpu (pc w : Word) (operation : VfpuStaticOperation) : Stmt :=
  .ifIdentity (.prefixFree operation (vfpuSize w) (vfpuVd w) (vfpuVs w) (vfpuVt w))
    (.executeVfpu w (.base pc))

/-- The `switch` on the opcode for a word lowered natively. -/
def emitNative (pc w : Word) (relocated : Bool) (preferredBase : Word) : Stmt :=
  let rs : Expr := .gpr (rsOf w)
  let rt := rtOf w
  let rtValue : Expr := .gpr rt
  let simm := emitSignedImmediate w relocated
  let address : Expr := .bin .add rs simm
  let target := emitBranchTarget pc w relocated
  match opOf w with
  | 0x00#6 => emitSpecial pc w
  | 0x01#6 => emitRegimm pc w relocated
  | 0x02#6 => emitJump pc w relocated preferredBase
  | 0x03#6 => emitJump pc w relocated preferredBase
  | 0x04#6 => emitBranch (.cmp .eq rs rtValue) target pc false
  | 0x05#6 => emitBranch (.cmp .ne rs rtValue) target pc false
  | 0x06#6 => emitBranch (.cmp .leS rs (.lit 0)) target pc false
  | 0x07#6 => emitBranch (.cmp .gtS rs (.lit 0)) target pc false
  | 0x14#6 => emitBranch (.cmp .eq rs rtValue) target pc true
  | 0x15#6 => emitBranch (.cmp .ne rs rtValue) target pc true
  | 0x16#6 => emitBranch (.cmp .leS rs (.lit 0)) target pc true
  | 0x17#6 => emitBranch (.cmp .gtS rs (.lit 0)) target pc true
  | 0x1c#6 => emitSpecial2 w
  | 0x08#6 => assign rt (.bin .add rs simm)
  | 0x09#6 => assign rt (.bin .add rs simm)
  | 0x0a#6 => assign rt (.bin .ltS rs simm)
  | 0x0b#6 => assign rt (.bin .ltU rs simm)
  | 0x0c#6 => assign rt (.bin .and rs (emitImmediate w relocated))
  | 0x0d#6 => assign rt (.bin .or rs (emitImmediate w relocated))
  | 0x0e#6 => assign rt (.bin .xor rs (emitImmediate w relocated))
  | 0x0f#6 => assign rt (.bin .shl (emitImmediate w relocated) (.lit 16))
  | 0x11#6 => emitCop1 pc w relocated
  | 0x20#6 => emitLoad .s8 rt address
  | 0x21#6 => emitLoad .s16 rt address
  | 0x22#6 =>
    if rt = 0 then .loadPart .left .none address (.lit 0) else .loadPart .left (.gpr rt) address rtValue
  | 0x23#6 => emitLoad .w32 rt address
  | 0x24#6 => emitLoad .u8 rt address
  | 0x25#6 => emitLoad .u16 rt address
  | 0x26#6 =>
    if rt = 0 then .loadPart .right .none address (.lit 0)
    else .loadPart .right (.gpr rt) address rtValue
  | 0x28#6 => .store .b8 address rtValue
  | 0x29#6 => .store .h16 address rtValue
  | 0x2a#6 => .storePart .left address rtValue
  | 0x2b#6 => .store .w32 address rtValue
  | 0x2e#6 => .storePart .right address rtValue
  | 0x2f#6 => .nop
  | 0x30#6 => emitLoad .w32 rt address
  | 0x38#6 =>
    if rt ≠ 0 then .seq (.store .w32 address rtValue) (.setGpr rt (.lit 1))
    else .store .w32 address rtValue
  | 0x31#6 => .load .w32 (.fpr rt) address
  | 0x39#6 => .store .w32 address (.fpr rt)
  | 0x1f#6 => emitSpecial3 w
  | _ => reservedWord

def emitInstruction (pc w : Word) (relocated : Bool) (preferredBase : Word) : Stmt :=
  match (decodeAllegrex w).lowering with
  | .invalid => reservedWord
  | .guardedNative => emitGuardedVfpu pc w (vfpuStaticOperation w)
  | .runtimeFallback => .executeVfpu w (.base pc)
  | .native => emitNative pc w relocated preferredBase

end Psprism
