import Psprism.Vfpu

/-!
# Instruction decoder (`include/psprecomp/allegrex_decoder.hpp`)

`decodeAllegrex` classifies a word for the translator and the interpreter alike: its fields, how it
is lowered, its control-flow flags and its name. The pattern tables beside it in the source are
read by nothing and are left out.
-/

namespace Psprism

inductive InstructionLowering
  | native | guardedNative | runtimeFallback | invalid
deriving DecidableEq, Repr

structure InstructionFlags where
  delayedBranch : Bool := false
  likely : Bool := false
  call : Bool := false
  dynamicTarget : Bool := false
deriving DecidableEq, Repr

structure Classification where
  lowering : InstructionLowering
  name : String
  flags : InstructionFlags := {}
deriving DecidableEq, Repr

structure DecodedInstruction extends Classification where
  word : Word
  op : BitVec 6
  rs : Reg
  rt : Reg
  rd : Reg
  shift : Reg
  function : BitVec 6

/-! ### Fields -/

def rsOf (w : Word) : Reg := w.extractLsb' 21 5

def rtOf (w : Word) : Reg := w.extractLsb' 16 5

def rdOf (w : Word) : Reg := w.extractLsb' 11 5

def shiftOf (w : Word) : Reg := w.extractLsb' 6 5

def functionOf (w : Word) : BitVec 6 := w.extractLsb' 0 6

namespace Classification

def native (name : String) (flags : InstructionFlags := {}) : Classification :=
  ⟨.native, name, flags⟩

def invalid : Classification := ⟨.invalid, "invalid", {}⟩

/-- The flags of a branch that may be likely. -/
def branchFlags (likely : Bool) : InstructionFlags := { delayedBranch := true, likely := likely }

def nativeIf (c : Bool) (name : String) : Classification := if c then native name else invalid

/-- Op 0, SPECIAL. -/
def special (rs shift : Reg) (function : BitVec 6) : Classification :=
  match function with
  | 0x00#6 => nativeIf (rs = 0) "sll"
  | 0x02#6 => if rs = 1 then native "rotr" else nativeIf (rs = 0) "srl"
  | 0x03#6 => nativeIf (rs = 0) "sra"
  | 0x04#6 => nativeIf (shift = 0) "sllv"
  | 0x06#6 => if shift = 1 then native "rotrv" else nativeIf (shift = 0) "srlv"
  | 0x07#6 => nativeIf (shift = 0) "srav"
  | 0x08#6 => native "jr" { delayedBranch := true, dynamicTarget := true }
  | 0x09#6 => native "jalr" { delayedBranch := true, dynamicTarget := true, call := true }
  | 0x0a#6 => native "movz"
  | 0x0b#6 => native "movn"
  | 0x0c#6 => native "syscall"
  | 0x0d#6 => native "break"
  | 0x0f#6 => native "sync"
  | 0x10#6 => native "mfhi"
  | 0x11#6 => native "mthi"
  | 0x12#6 => native "mflo"
  | 0x13#6 => native "mtlo"
  | 0x16#6 => native "clz"
  | 0x17#6 => native "clo"
  | 0x18#6 => native "mult"
  | 0x19#6 => native "multu"
  | 0x1a#6 => native "div"
  | 0x1b#6 => native "divu"
  | 0x1c#6 => native "madd"
  | 0x1d#6 => native "maddu"
  | 0x20#6 => native "add"
  | 0x21#6 => native "addu"
  | 0x22#6 => native "sub"
  | 0x23#6 => native "subu"
  | 0x24#6 => native "and"
  | 0x25#6 => native "or"
  | 0x26#6 => native "xor"
  | 0x27#6 => native "nor"
  | 0x2a#6 => native "slt"
  | 0x2b#6 => native "sltu"
  | 0x2c#6 => native "max"
  | 0x2d#6 => native "min"
  | 0x2e#6 => native "msub"
  | 0x2f#6 => native "msubu"
  | _ => invalid

/-- Op 1, REGIMM. -/
def regimm (rt : Reg) : Classification :=
  match rt with
  | 0x00#5 => native "bltz" (branchFlags false)
  | 0x01#5 => native "bgez" (branchFlags false)
  | 0x02#5 => native "bltzl" (branchFlags true)
  | 0x03#5 => native "bgezl" (branchFlags true)
  | 0x10#5 => native "bltzal" { delayedBranch := true, call := true }
  | 0x11#5 => native "bgezal" { delayedBranch := true, call := true }
  | 0x12#5 => native "bltzall" { delayedBranch := true, call := true, likely := true }
  | 0x13#5 => native "bgezall" { delayedBranch := true, call := true, likely := true }
  | _ => invalid

/-- Functions of COP1 with format single. -/
def scalarFunction (function : BitVec 6) : Bool :=
  function ≤ 0x07 ∨ (0x0c ≤ function ∧ function ≤ 0x0f) ∨ function = 0x11 ∨ function = 0x20 ∨
    function = 0x24 ∨ 0x30 ≤ function

/-- Op 0x11, COP1. -/
def cop1 (rs rt : Reg) (function : BitVec 6) : Classification :=
  let scalarOperation := rs = 0x10 ∧ scalarFunction function
  let wordToSingle := rs = 0x14 ∧ function = 0x20
  if rs = 0x00 ∨ rs = 0x02 ∨ rs = 0x04 ∨ rs = 0x06 ∨ scalarOperation ∨ wordToSingle then
    native "cop1"
  else if rs = 0x08 then native "bc1" (branchFlags (rt.getLsbD 1))
  else invalid

/-- Op 0x1f, SPECIAL3. -/
def special3 (rd shift : Reg) (function : BitVec 6) : Classification :=
  nativeIf (function = 0 ∨ (function = 4 ∧ shift ≤ rd) ∨
    (function = 0x20 ∧ (shift = 0x02 ∨ shift = 0x03 ∨ shift = 0x10 ∨ shift = 0x14 ∨ shift = 0x18)))
    "special3"

/-- The words the VFPU tables accept. -/
def vfpu (w : Word) : Classification :=
  let operation := vfpuStaticOperation w
  let flags :=
    if opOf w = 0x12 ∧ rsOf w = 0x08 then branchFlags ((rtOf w).getLsbD 1) else {}
  match operation with
  | .add => ⟨.guardedNative, "vadd", flags⟩
  | .subtract => ⟨.guardedNative, "vsub", flags⟩
  | .multiply => ⟨.guardedNative, "vmul", flags⟩
  | .dot => ⟨.guardedNative, "vdot", flags⟩
  | .move => ⟨.guardedNative, "vmov", flags⟩
  | .none => ⟨.runtimeFallback, "vfpu", flags⟩

end Classification

open Classification in
/-- The classification `decode_allegrex` computes. -/
def classify (w : Word) : Classification :=
  let rs := rsOf w
  let rt := rtOf w
  let rd := rdOf w
  let shift := shiftOf w
  let function := functionOf w
  if vfpuOpcodeSupported w then vfpu w
  else
    match opOf w with
    | 0x00#6 => special rs shift function
    | 0x01#6 => regimm rt
    | 0x02#6 => native "j" (branchFlags false)
    | 0x03#6 => native "jal" { delayedBranch := true, call := true }
    | 0x04#6 => native "beq" (branchFlags false)
    | 0x05#6 => native "bne" (branchFlags false)
    | 0x06#6 => native "blez" (branchFlags false)
    | 0x07#6 => native "bgtz" (branchFlags false)
    | 0x08#6 => native "addi"
    | 0x09#6 => native "addiu"
    | 0x0a#6 => native "slti"
    | 0x0b#6 => native "sltiu"
    | 0x0c#6 => native "andi"
    | 0x0d#6 => native "ori"
    | 0x0e#6 => native "xori"
    | 0x0f#6 => native "lui"
    | 0x11#6 => cop1 rs rt function
    | 0x14#6 => native "beql" (branchFlags true)
    | 0x15#6 => native "bnel" (branchFlags true)
    | 0x16#6 => native "blezl" (branchFlags true)
    | 0x17#6 => native "bgtzl" (branchFlags true)
    | 0x1c#6 =>
      nativeIf (function = 0x20 ∨ function = 0x21 ∨ function = 0x2c ∨ function = 0x2d) "special2"
    | 0x1f#6 => special3 rd shift function
    | 0x20#6 => native "lb"
    | 0x21#6 => native "lh"
    | 0x22#6 => native "lwl"
    | 0x23#6 => native "lw"
    | 0x24#6 => native "lbu"
    | 0x25#6 => native "lhu"
    | 0x26#6 => native "lwr"
    | 0x28#6 => native "sb"
    | 0x29#6 => native "sh"
    | 0x2a#6 => native "swl"
    | 0x2b#6 => native "sw"
    | 0x2e#6 => native "swr"
    | 0x2f#6 => native "cache"
    | 0x30#6 => native "ll"
    | 0x31#6 => native "lwc1"
    | 0x38#6 => native "sc"
    | 0x39#6 => native "swc1"
    | _ => invalid

def decodeAllegrex (w : Word) : DecodedInstruction :=
  { classify w with
    word := w, op := opOf w, rs := rsOf w, rt := rtOf w, rd := rdOf w, shift := shiftOf w,
    function := functionOf w }

def DecodedInstruction.valid (d : DecodedInstruction) : Bool := d.lowering ≠ .invalid

def startsDelayedBranch (w : Word) : Bool := (decodeAllegrex w).flags.delayedBranch

def needsPostDelayEntry (w : Word) : Bool := startsDelayedBranch w

def mayStopExecution (w : Word) : Bool :=
  opOf w = 0 ∧ (functionOf w = 0x0c ∨ functionOf w = 0x0d)

end Psprism
