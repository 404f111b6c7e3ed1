import Mathlib.Logic.Function.Basic
import Psprism.Reloc

/-!
# The guest CPU state (`include/psprecomp/runtime.hpp`)

`State` has the fields of `psprecomp::State`, less the profiling counters, which nothing reads
back. The mapped buffers and the bytes behind direct accesses form `GuestMemory`, the VFPU
registers `VfpuFile`. The host is little-endian with a 64-bit `size_t`, so `byte_swap` on a big
endian host does not occur.
-/

namespace Psprism

abbrev Reg := BitVec 5

inductive StopReason
  | running | returned | stepLimit | invalidPc | unsupportedInstruction | memoryFault | syscall
  | breakpoint
deriving DecidableEq, Repr

/-- A host allocation; a null pointer is `none`. -/
structure Buffer where
  host : Option Bytes := none
  size : Nat := 0

/-- What a guest access can reach. `direct` is the host address space of a PSP-native build. -/
inductive Region
  | memory | scratchpad | videoMemory | volatileMemory | direct
deriving DecidableEq, Repr

structure GuestMemory where
  memory : Buffer := {}
  memoryBase : Word := 0
  scratchpad : Buffer := {}
  videoMemory : Buffer := {}
  volatileMemory : Buffer := {}
  directMemoryAccess : Bool := false
  direct : Bytes := fun _ => 0

structure VfpuFile where
  regs : BitVec 7 → Word := fun _ => 0
  ctrl : BitVec 4 → Word := fun i => if i.toNat < 2 then 0xe4 else 0

structure State where
  gpr : Reg → Word := fun _ => 0
  hi : Word := 0
  lo : Word := 0
  fpr : Reg → Word := fun _ => 0
  fcr31 : Word := 0
  vfpu : VfpuFile := {}
  pc : Word := 0
  mem : GuestMemory := {}
  branchPending : Bool := false
  branchTarget : Word := 0
  stopReason : StopReason := .running
  faultAddress : Word := 0
  faultInstruction : Word := 0
  faultPc : Word := 0
  dispatchRouteHint : Word := 0xffffffff

namespace State

def memoryBase (s : State) : Word := s.mem.memoryBase

def setGpr (s : State) (r : Reg) (v : Word) : State := { s with gpr := Function.update s.gpr r v }

def setFpr (s : State) (r : Reg) (v : Word) : State := { s with fpr := Function.update s.fpr r v }

def setPc (s : State) (pc : Word) : State := { s with pc := pc }

def setPending (s : State) (pending : Bool) : State := { s with branchPending := pending }

@[simp] theorem setGpr_gpr (s : State) (r : Reg) (v : Word) :
    (s.setGpr r v).gpr = Function.update s.gpr r v := rfl

@[simp] theorem setFpr_fpr (s : State) (r : Reg) (v : Word) :
    (s.setFpr r v).fpr = Function.update s.fpr r v := rfl

theorem setPc_self {s : State} {pc : Word} (h : s.pc = pc) : s.setPc pc = s := by
  rw [setPc, ← h]

theorem setPending_self {s : State} {pending : Bool} (h : s.branchPending = pending) :
    s.setPending pending = s := by
  rw [setPending, ← h]

end State

/-! ### Where an access goes -/

namespace GuestMemory

/-- The bytes of a region; those of an unmapped one are never looked at. -/
def bytes (m : GuestMemory) : Region → Bytes
  | .memory => m.memory.host.getD fun _ => 0
  | .scratchpad => m.scratchpad.host.getD fun _ => 0
  | .videoMemory => m.videoMemory.host.getD fun _ => 0
  | .volatileMemory => m.volatileMemory.host.getD fun _ => 0
  | .direct => m.direct

def setBytes (m : GuestMemory) (r : Region) (b : Bytes) : GuestMemory :=
  match r with
  | .memory => { m with memory := ⟨m.memory.host.map fun _ => b, m.memory.size⟩ }
  | .scratchpad => { m with scratchpad := ⟨m.scratchpad.host.map fun _ => b, m.scratchpad.size⟩ }
  | .videoMemory => { m with videoMemory := ⟨m.videoMemory.host.map fun _ => b, m.videoMemory.size⟩ }
  | .volatileMemory =>
    { m with volatileMemory := ⟨m.volatileMemory.host.map fun _ => b, m.volatileMemory.size⟩ }
  | .direct => { m with direct := b }

end GuestMemory

def canonicalAddress (address : Word) : Word := address &&& 0x1fffffff

/-- `region_address`: the offset into the region, when the access lies in it. -/
def regionAddress (buffer : Buffer) (regionBase address : Word) (width : Nat) : Option Nat :=
  if buffer.host.isNone ∨ address < regionBase then none
  else
    let offset := (address - regionBase).toNat
    if offset ≤ buffer.size ∧ width ≤ buffer.size - offset then some offset else none

namespace GuestMemory

/-- The offset of an address from the image's base, modulo 2^32. -/
def imageOffset (m : GuestMemory) (address : Word) : Nat :=
  (canonicalAddress address - m.memoryBase).toNat

def mappedAddress (m : GuestMemory) (address : Word) (width : Nat) : Option (Region × Nat) :=
  let canon := canonicalAddress address
  let offset := m.imageOffset address
  if m.memory.host.isSome ∧ offset ≤ m.memory.size ∧ width ≤ m.memory.size - offset then
    some (.memory, offset)
  else if canon >>> 24 = 0x00 then
    (regionAddress m.scratchpad 0x00010000 canon width).map fun o => (.scratchpad, o)
  else if canon >>> 24 = 0x04 then
    (regionAddress m.videoMemory 0x04000000 canon width).map fun o => (.videoMemory, o)
  else if canon >>> 24 = 0x08 then
    (regionAddress m.volatileMemory 0x08400000 canon width).map fun o => (.volatileMemory, o)
  else none

end GuestMemory

/-- The test of `direct_address_ok`; where it fails the caller records the fault itself. -/
def directAddressOk (address : Word) (width : Nat) : Bool :=
  ¬ (address < 0x00010000 ∨ (0xffffffff - address).toNat + 1 < width)

/-- `a - b` in `size_t`. -/
def sizeSub (a b : Nat) : Nat := (a + 2 ^ 64 - b) % 2 ^ 64

namespace GuestMemory

/-- The direct access tried when nothing is mapped. -/
def directAccess (m : GuestMemory) (address : Word) (width : Nat) : Option (Region × Nat) :=
  if m.directMemoryAccess ∧ directAddressOk address width then some (.direct, address.toNat)
  else none

/-- The branches an aligned load or store of `width` bytes goes through; `none` is a fault.
`inFast` is the bounds test of its fast path. -/
def access (m : GuestMemory) (address : Word) (width : Nat) (inFast : Bool) :
    Option (Region × Nat) :=
  let aligned := address.toNat % width = 0
  if m.memory.host.isSome ∧ inFast ∧ aligned then some (.memory, m.imageOffset address)
  else if ¬ aligned then none
  else (m.mappedAddress address width).or (m.directAccess address width)

def access8 (m : GuestMemory) (address : Word) : Option (Region × Nat) :=
  m.access address 1 (m.imageOffset address < m.memory.size)

def access16 (m : GuestMemory) (address : Word) : Option (Region × Nat) :=
  m.access address 2 (m.imageOffset address ≤ sizeSub m.memory.size 2)

def access32 (m : GuestMemory) (address : Word) : Option (Region × Nat) :=
  m.access address 4 (m.imageOffset address ≤ sizeSub m.memory.size 4)

/-- The accesses of `load_word_left` and its three siblings: any alignment, no fast path. -/
def accessPart (m : GuestMemory) (address : Word) (width : Nat) : Option (Region × Nat) :=
  (m.mappedAddress address width).or (m.directAccess address width)

end GuestMemory

/-! ### Loads and stores -/

def noteMemoryFault (s : State) (address : Word) : State :=
  { s with
    stopReason := .memoryFault
    faultAddress := address
    faultPc := if s.faultPc = 0 then s.pc else s.faultPc }

def readU16 (memory : Bytes) (offset : Nat) : BitVec 16 :=
  (memory offset).setWidth 16 ||| ((memory (offset + 1)).setWidth 16 <<< 8)

def writeU16 (memory : Bytes) (offset : Nat) (value : BitVec 16) : Bytes := fun i =>
  if i = offset then value.setWidth 8
  else if i = offset + 1 then (value >>> 8).setWidth 8
  else memory i

/-- A load that reads `value` where the access goes, and zero on a fault. -/
def loadWith {n : Nat} (s : State) (address : Word) (place : Option (Region × Nat))
    (value : Bytes → Nat → BitVec n) : BitVec n × State :=
  match place with
  | some (r, offset) => (value (s.mem.bytes r) offset, s)
  | none => (0, noteMemoryFault s address)

def load8 (s : State) (address : Word) : Byte × State :=
  loadWith s address (s.mem.access8 address) fun memory offset => memory offset

def load16 (s : State) (address : Word) : BitVec 16 × State :=
  loadWith s address (s.mem.access16 address) readU16

def load32 (s : State) (address : Word) : Word × State :=
  loadWith s address (s.mem.access32 address) readU32

/-- A store that updates the bytes where the access goes. -/
def storeWith (s : State) (address : Word) (place : Option (Region × Nat))
    (update : Bytes → Nat → Bytes) : State :=
  match place with
  | some (r, offset) => { s with mem := s.mem.setBytes r (update (s.mem.bytes r) offset) }
  | none => noteMemoryFault s address

def store8 (s : State) (address : Word) (value : Byte) : State :=
  storeWith s address (s.mem.access8 address) fun memory offset =>
    Function.update memory offset value

def store16 (s : State) (address : Word) (value : BitVec 16) : State :=
  storeWith s address (s.mem.access16 address) fun memory offset => writeU16 memory offset value

def store32 (s : State) (address : Word) (value : Word) : State :=
  storeWith s address (s.mem.access32 address) fun memory offset => writeU32 memory offset value

/-! ### Unaligned words -/

/-- The word with the four bytes. -/
def wordOfBytes (b : Nat → Byte) : Word := readU32 b 0

/-- `memcpy` of `count` bytes into the bytes of `value` from `first` on. -/
def spliceWord (value : Word) (first count : Nat) (memory : Bytes) (offset : Nat) : Word :=
  wordOfBytes fun i =>
    if first ≤ i ∧ i < first + count then memory (offset + (i - first)) else wordByte value i

/-- `memcpy` of `count` bytes of `value` from `first` on into memory. -/
def spliceMemory (value : Word) (first count : Nat) (memory : Bytes) (offset : Nat) : Bytes :=
  fun i => if offset ≤ i ∧ i < offset + count then wordByte value (first + (i - offset)) else memory i

/-- `load_word_left` and `load_word_right`: `value` keeps its other bytes, and all on a fault. -/
def loadPart (s : State) (address : Word) (first count : Nat) (value : Word) : Word × State :=
  match s.mem.accessPart address count with
  | some (r, offset) => (spliceWord value first count (s.mem.bytes r) offset, s)
  | none => (value, noteMemoryFault s address)

def loadWordLeft (s : State) (address value : Word) : Word × State :=
  let count := (address &&& 3).toNat + 1
  loadPart s (address &&& ~~~3) (4 - count) count value

def loadWordRight (s : State) (address value : Word) : Word × State :=
  let count := 4 - (address &&& 3).toNat
  loadPart s address 0 count value

def storePart (s : State) (address : Word) (first count : Nat) (value : Word) : State :=
  storeWith s address (s.mem.accessPart address count) (spliceMemory value first count)

def storeWordLeft (s : State) (address value : Word) : State :=
  let count := (address &&& 3).toNat + 1
  storePart s (address &&& ~~~3) (4 - count) count value

def storeWordRight (s : State) (address value : Word) : State :=
  let count := 4 - (address &&& 3).toNat
  storePart s address 0 count value

/-! ### Words of the guest image -/

/-- `instruction_word`: the word in guest memory, or the one the emitter saw. -/
def instructionWord (s : State) (currentPc fallback : Word) : Word :=
  if currentPc &&& 3 ≠ 0 then fallback
  else
    match s.mem.mappedAddress currentPc 4 with
    | none => fallback
    | some (r, offset) => readU32 (s.mem.bytes r) offset

/-- The sign-extended low half of a word. -/
def signedImmediate (w : Word) : Word := (w.setWidth 16).signExtend 32

def instructionImmediate (s : State) (currentPc fallback : Word) : Word :=
  instructionWord s currentPc fallback &&& 0xffff

def instructionSignedImmediate (s : State) (currentPc fallback : Word) : Word :=
  signedImmediate (instructionImmediate s currentPc fallback)

def instructionBranchTarget (s : State) (currentPc fallback : Word) : Word :=
  currentPc + 4 + instructionSignedImmediate s currentPc fallback * 4

/-- The 26-bit target field of `w` in the 256 MB region of the delay slot of `pc`. -/
def regionTarget (pc w : Word) : Word :=
  let region : Word := (pc + 4) &&& 0xf0000000
  let field : Word := (w &&& 0x03ffffff) <<< 2
  region ||| field

def instructionJumpTarget (s : State) (currentPc fallback : Word) : Word :=
  regionTarget currentPc (instructionWord s currentPc fallback)

/-- The guest word at `currentPc` is `w`: for the interpreter's fetch, which is `load32`, and for
the immediates that translated code reads through `instruction_word`. -/
structure HoldsWord (s : State) (currentPc w : Word) : Prop where
  fetch : load32 s currentPc = (w, s)
  immediate : instructionWord s currentPc w = w

theorem HoldsWord.of_value {s : State} {currentPc w : Word}
    (haccess : (s.mem.access32 currentPc).isSome = true) (hvalue : (load32 s currentPc).1 = w)
    (himm : instructionWord s currentPc w = w) : HoldsWord s currentPc w := by
  obtain ⟨p, hp⟩ := Option.isSome_iff_exists.1 haccess
  refine ⟨?_, himm⟩
  rw [← hvalue, load32, hp]
  rfl

/-! ### Small images -/

/-- The bytes of a list of words. -/
def wordBytes (words : List Word) : Bytes := fun i => wordByte (words.getD (i / 4) 0) (i % 4)

/-- A CPU at the start of an image that consists of the words. -/
def State.ofImage (memoryBase : Word) (words : List Word) : State where
  pc := memoryBase
  mem := { memory := ⟨some (wordBytes words), 4 * words.length⟩, memoryBase }

end Psprism
