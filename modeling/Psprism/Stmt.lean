import Psprism.VfpuExecute

/-!
# The statements of generated code

The C++ that `emit_instruction` writes, as syntax: expressions over the guest state and the helpers
of `runtime.hpp`, conditions and statements. `Stmt.exec` runs a statement on a state, inside a
function whose local `current_pc` is given.
-/

namespace Psprism

/-! ### Syntax -/

inductive BinOp
  | add | sub | and | or | xor | shl | shr | sra | rotateRight | ltS | ltU
deriving DecidableEq, Repr

inductive UnOp
  | not | countlZero | countlOne | reverseBits | byteSwap | signExtend8 | signExtend16
deriving DecidableEq, Repr

/-- Comparisons; those of suffix `S` are on `as_s32` of their operands. -/
inductive Cmp
  | eq | ne | ltS | gtS | leS | geS
deriving DecidableEq, Repr

inductive FloatOp
  | add | sub | mul | div
deriving DecidableEq, Repr

/-- Word-valued expressions; a float is its bit pattern. -/
inductive Expr
  | gpr (r : Reg)
  | fpr (r : Reg)
  | hi
  | lo
  | fcr31
  | lit (w : Word)
  /-- `state.memory_base + offset`. -/
  | base (offset : Word)
  | bin (op : BinOp) (a b : Expr)
  | un (op : UnOp) (a : Expr)
  /-- `a op b ? c : d`. -/
  | select (op : Cmp) (a b c d : Expr)
  /-- `instruction_immediate(state, current_pc, w)` and its siblings. -/
  | immediate (w : Word)
  | signedImmediate (w : Word)
  | branchTarget (w : Word)
  | jumpTarget (w : Word)
  | float (op : FloatOp) (a b : Expr)
  | sqrt (a : Expr)
  /-- `static_cast<float>(as_s32(a))`. -/
  | ofInt32 (a : Expr)
  /-- `rounded_word(a, mode)`. -/
  | roundedWord (a mode : Expr)
deriving Repr

inductive Cond
  | cmp (op : Cmp) (a b : Expr)
  /-- `fpu_condition(state, cc) == value`. -/
  | fpu (cc : BitVec 3) (value : Bool)
deriving Repr

/-- The blocks that compute in 64 bits or divide, on two registers. -/
inductive WideOp
  | mult | multu | div | divu | madd | maddu | msub | msubu
deriving DecidableEq, Repr

inductive LoadOp
  | s8 | u8 | s16 | u16 | w32
deriving DecidableEq, Repr

inductive StoreOp
  | b8 | h16 | w32
deriving DecidableEq, Repr

/-- The left and right halves of an unaligned access. -/
inductive Side
  | left | right
deriving DecidableEq, Repr

/-- What a load is assigned to; `none` is `static_cast<void>`. -/
inductive Dest
  | none
  | gpr (r : Reg)
  | fpr (r : Reg)
deriving DecidableEq, Repr

inductive Stmt
  /-- Only a comment. -/
  | nop
  | setGpr (r : Reg) (e : Expr)
  | setFpr (r : Reg) (e : Expr)
  | setHi (e : Expr)
  | setLo (e : Expr)
  | setFcr31 (e : Expr)
  | wide (op : WideOp) (rs rt : Reg)
  | compareF32 (cc : BitVec 3) (a b : Expr) (condition : BitVec 4)
  | load (op : LoadOp) (dest : Dest) (address : Expr)
  | loadPart (side : Side) (dest : Dest) (address value : Expr)
  | store (op : StoreOp) (address value : Expr)
  | storePart (side : Side) (address value : Expr)
  /-- `state.branch_pending = true; state.branch_target = target;`. -/
  | branch (target : Expr)
  | setPc (e : Expr)
  /-- `state.stop_reason = ...;`. -/
  | invalidPc
  | syscall
  | seq (a b : Stmt)
  | ifThen (c : Cond) (a : Stmt)
  | ifElse (c : Cond) (a b : Stmt)
  | executeVfpu (w : Word) (pc : Expr)
  | prefixFree (operation : VfpuStaticOperation) (size : Nat) (vd vs vt : BitVec 7)
  /-- `if (vfpu_prefixes_identity(state)) ... else ...`. -/
  | ifIdentity (a b : Stmt)
deriving Repr

/-! ### Semantics -/

def BinOp.eval (op : BinOp) (a b : Word) : Word :=
  match op with
  | .add => a + b
  | .sub => a - b
  | .and => a &&& b
  | .or => a ||| b
  | .xor => a ^^^ b
  | .shl => a <<< b
  | .shr => a >>> b
  | .sra => arithmeticShiftRight a b
  | .rotateRight => Psprism.rotateRight a b
  | .ltS => boolWord (a.slt b)
  | .ltU => boolWord (a.ult b)

def UnOp.eval (op : UnOp) (a : Word) : Word :=
  match op with
  | .not => ~~~a
  | .countlZero => Psprism.countlZero a
  | .countlOne => Psprism.countlOne a
  | .reverseBits => Psprism.reverseBits a
  | .byteSwap => Psprism.byteSwap a
  | .signExtend8 => Psprism.signExtend8 a
  | .signExtend16 => Psprism.signedImmediate a

def Cmp.eval (op : Cmp) (a b : Word) : Bool :=
  match op with
  | .eq => a = b
  | .ne => a ≠ b
  | .ltS => a.slt b
  | .gtS => b.slt a
  | .leS => a.sle b
  | .geS => b.sle a

def FloatOp.eval (H : Host) (op : FloatOp) : Word → Word → Word :=
  match op with
  | .add => H.add
  | .sub => H.sub
  | .mul => H.mul
  | .div => H.div

section
variable (H : Host) (currentPc : Word)

def Expr.eval (s : State) : Expr → Word
  | .gpr r => s.gpr r
  | .fpr r => s.fpr r
  | .hi => s.hi
  | .lo => s.lo
  | .fcr31 => s.fcr31
  | .lit w => w
  | .base offset => s.memoryBase + offset
  | .bin op a b => op.eval (a.eval s) (b.eval s)
  | .un op a => op.eval (a.eval s)
  | .select op a b c d => if op.eval (a.eval s) (b.eval s) then c.eval s else d.eval s
  | .immediate w => instructionImmediate s currentPc w
  | .signedImmediate w => instructionSignedImmediate s currentPc w
  | .branchTarget w => instructionBranchTarget s currentPc w
  | .jumpTarget w => instructionJumpTarget s currentPc w
  | .float op a b => op.eval H (a.eval s) (b.eval s)
  | .sqrt a => H.sqrt (a.eval s)
  | .ofInt32 a => H.ofInt32 (a.eval s)
  | .roundedWord a mode => Psprism.roundedWord (a.eval s) ((mode.eval s).setWidth 2)

def Cond.eval (s : State) : Cond → Bool
  | .cmp op a b => op.eval (a.eval H currentPc s) (b.eval H currentPc s)
  | .fpu cc value => fpuCondition s cc = value

/-- The blocks with 64-bit locals. -/
def WideOp.exec (op : WideOp) (s : State) (a b : Word) : State :=
  match op with
  | .mult => setHiLo s (signedProduct a b)
  | .multu => setHiLo s (unsignedProduct a b)
  | .madd => setHiLo s (accumulator s + signedProduct a b)
  | .maddu => setHiLo s (accumulator s + unsignedProduct a b)
  | .msub => setHiLo s (accumulator s - signedProduct a b)
  | .msubu => setHiLo s (accumulator s - unsignedProduct a b)
  | .div =>
    if b = 0 then { s with lo := if a.slt 0 then 1 else 0xffffffff, hi := a }
    else if a = 0x80000000 ∧ b = 0xffffffff then { s with lo := 0x80000000, hi := 0xffffffff }
    else { s with lo := a.sdiv b, hi := a.srem b }
  | .divu =>
    if b = 0 then { s with lo := if a ≤ 0xffff then 0xffff else 0xffffffff, hi := a }
    else { s with lo := a / b, hi := a % b }

/-- A load, its value extended to a word. -/
def LoadOp.exec (op : LoadOp) (s : State) (address : Word) : Word × State :=
  match op with
  | .s8 => (load8 s address).map (·.signExtend 32) id
  | .u8 => (load8 s address).map (·.setWidth 32) id
  | .s16 => (load16 s address).map (·.signExtend 32) id
  | .u16 => (load16 s address).map (·.setWidth 32) id
  | .w32 => load32 s address

def Side.load (side : Side) : State → Word → Word → Word × State :=
  match side with
  | .left => loadWordLeft
  | .right => loadWordRight

def StoreOp.exec (op : StoreOp) (s : State) (address value : Word) : State :=
  match op with
  | .b8 => store8 s address (value.setWidth 8)
  | .h16 => store16 s address (value.setWidth 16)
  | .w32 => store32 s address value

def Side.store (side : Side) : State → Word → Word → State :=
  match side with
  | .left => storeWordLeft
  | .right => storeWordRight

def Dest.assign (dest : Dest) (r : Word × State) : State :=
  match dest with
  | .none => r.2
  | .gpr i => r.2.setGpr i r.1
  | .fpr i => r.2.setFpr i r.1

def Stmt.exec : Stmt → State → State
  | .nop, s => s
  | .setGpr r e, s => s.setGpr r (e.eval H currentPc s)
  | .setFpr r e, s => s.setFpr r (e.eval H currentPc s)
  | .setHi e, s => { s with hi := e.eval H currentPc s }
  | .setLo e, s => { s with lo := e.eval H currentPc s }
  | .setFcr31 e, s => { s with fcr31 := e.eval H currentPc s }
  | .wide op rs rt, s => op.exec s (s.gpr rs) (s.gpr rt)
  | .compareF32 cc a b condition, s =>
    Psprism.compareF32 H s cc (a.eval H currentPc s) (b.eval H currentPc s) condition
  | .load op dest address, s => dest.assign (op.exec s (address.eval H currentPc s))
  | .loadPart side dest address value, s =>
    dest.assign (side.load s (address.eval H currentPc s) (value.eval H currentPc s))
  | .store op address value, s =>
    op.exec s (address.eval H currentPc s) (value.eval H currentPc s)
  | .storePart side address value, s =>
    side.store s (address.eval H currentPc s) (value.eval H currentPc s)
  | .branch target, s =>
    { s with branchPending := true, branchTarget := target.eval H currentPc s }
  | .setPc e, s => { s with pc := e.eval H currentPc s }
  | .invalidPc, s => { s with stopReason := .invalidPc }
  | .syscall, s => { s with stopReason := .syscall }
  | .seq a b, s => b.exec (a.exec s)
  | .ifThen c a, s => if c.eval H currentPc s then a.exec s else s
  | .ifElse c a b, s => if c.eval H currentPc s then a.exec s else b.exec s
  | .executeVfpu w pc, s => Psprism.executeVfpu H s w (pc.eval H currentPc s)
  | .prefixFree operation size vd vs vt, s => executeVfpuPrefixFree H operation size s vd vs vt
  | .ifIdentity a b, s => if s.vfpu.prefixesIdentity then a.exec s else b.exec s

end

/-! ### The text `state.gpr[0] =` -/

/-- The condition's text compares register zero with `==`. -/
def Cond.mentionsZero : Cond → Bool
  | .cmp .eq (.gpr r) _ => r = 0
  | _ => false

/-- `code.find("state.gpr[0] =") != npos`: the text occurs in an assignment to register zero and
in a comparison of it. -/
def Stmt.writesZero : Stmt → Bool
  | .setGpr r _ => r = 0
  | .load _ dest _ => dest = .gpr 0
  | .loadPart _ dest _ _ => dest = .gpr 0
  | .seq a b => a.writesZero || b.writesZero
  | .ifThen c a => c.mentionsZero || a.writesZero
  | .ifElse c a b => c.mentionsZero || a.writesZero || b.writesZero
  | .ifIdentity a b => a.writesZero || b.writesZero
  | _ => false

end Psprism
