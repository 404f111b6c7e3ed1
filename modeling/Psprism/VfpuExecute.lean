import Psprism.Vfpu

/-!
# Executing VFPU instructions (`include/psprecomp/vfpu.hpp`)

`execute_vfpu` for every word, and the prefix-free fast path `execute_vfpu_prefix_free` that
translated code takes when all prefixes are the identity. The fast path only computes on the
register file, and there it does what the general path does under identity prefixes.
-/

namespace Psprism

/-! ### `execute_vfpu` -/

/-- The sign-extended byte offset of a VFPU load or store, its two low bits dropped. -/
def vfpuOffset (w : Word) : Word := signedImmediate (w &&& 0xfffc)

def vfpuAddress (s : State) (w : Word) : Word := s.gpr (w.extractLsb' 21 5) + vfpuOffset w

/-- The register of lv.s and sv.s. -/
def vfpuScalarReg (w : Word) : BitVec 7 :=
  ((w >>> 16) &&& 31).setWidth 7 ||| ((w &&& 3).setWidth 7 <<< 5)

/-- The register of the quad loads and stores. -/
def vfpuQuadReg (w : Word) : BitVec 7 :=
  ((w >>> 16) &&& 31).setWidth 7 ||| ((w &&& 1).setWidth 7 <<< 5)

/-- Op 0x12: mfv and mtv, with the control registers from 128 on, and the bvf and bvt branches. -/
def vfpuMove (s : State) (w currentPc : Word) : State :=
  let kind := vfpuGroup w
  let rt : Reg := w.extractLsb' 16 5
  let immediate : Byte := w.extractLsb' 0 8
  let control : BitVec 4 := immediate.setWidth 4
  if kind = 3 then
    if rt ≠ 0 then
      s.setGpr rt (if immediate < 128 then s.vfpu.regs (vfpuIndex (immediate.setWidth 7) 1 0)
        else s.vfpu.ctrl control)
    else s
  else if kind = 7 then
    { s with vfpu :=
        if immediate < 128 then s.vfpu.setReg (vfpuIndex (immediate.setWidth 7) 1 0) (s.gpr rt)
        else s.vfpu.setCtrl control (s.gpr rt) }
  else
    let cc : BitVec 3 := w.extractLsb' 18 3
    if (s.vfpu.ctrl 3).getLsbD cc.toNat = w.getLsbD 16 then
      { s with branchPending := true, branchTarget := currentPc + 4 + signedImmediate w * 4 }
    else if w.getLsbD 17 then { s with pc := currentPc + 8 }
    else s

/-- Loads into `n` lanes, lane `lane i` from `address i`. -/
def vfpuLoadLanes (s : State) (n : Nat) (lane : Nat → Nat) (address : Nat → Word)
    (values : Lanes) : Lanes × State :=
  (List.range n).foldl (fun (values, s) i =>
    let (x, s) := load32 s (address i)
    (Function.update values (lane i) x, s)) (values, s)

/-- Stores of `n` lanes. -/
def vfpuStoreLanes (s : State) (n : Nat) (lane : Nat → Nat) (address : Nat → Word)
    (values : Lanes) : State :=
  (List.range n).foldl (fun s i => store32 s (address i) (values (lane i))) s

/-- `base + i * 4` and `base - i * 4`. -/
def wordsUp (base : Word) (i : Nat) : Word := base + BitVec.ofNat 32 (i * 4)

def wordsDown (base : Word) (i : Nat) : Word := base - BitVec.ofNat 32 (i * 4)

/-- Op 0x35: lvl.q and lvr.q. -/
def vfpuLoadPart (s : State) (w : Word) : State :=
  let reg := vfpuQuadReg w
  let address := vfpuAddress s w
  let wordOffset := ((address >>> 2) &&& 3).toNat
  let values := s.vfpu.readVector reg 4
  let (values, s) :=
    if w &&& 2 = 0 then vfpuLoadLanes s (wordOffset + 1) (3 - ·) (wordsDown address) values
    else vfpuLoadLanes s (4 - wordOffset) id (wordsUp address) values
  { s with vfpu := s.vfpu.writeVector reg 4 values }

/-- Op 0x3d: svl.q and svr.q. -/
def vfpuStorePart (s : State) (w : Word) : State :=
  let address := vfpuAddress s w
  let wordOffset := ((address >>> 2) &&& 3).toNat
  let values := s.vfpu.readVector (vfpuQuadReg w) 4
  if w &&& 2 = 0 then vfpuStoreLanes s (wordOffset + 1) (3 - ·) (wordsDown address) values
  else vfpuStoreLanes s (4 - wordOffset) id (wordsUp address) values

/-- The shift loop that normalises a subnormal half: at most ten rounds. -/
def normalizeHalf : Nat → Word → Nat → Word × Nat
  | 0, mantissa, shift => (mantissa, shift)
  | fuel + 1, mantissa, shift =>
    if mantissa &&& 0x400 = 0 then normalizeHalf fuel (mantissa <<< 1) (shift + 1)
    else (mantissa, shift)

def vfpuHalfToFloat (value : BitVec 16) : Word :=
  let sign : Word := (value &&& 0x8000).setWidth 32 <<< 16
  let exponent : Word := ((value >>> 10) &&& 31).setWidth 32
  let fraction : Word := (value &&& 0x3ff).setWidth 32
  if exponent = 0 then
    if fraction = 0 then sign
    else
      let (mantissa, shift) := normalizeHalf 10 fraction 0
      sign ||| (BitVec.ofNat 32 (127 - 14 - shift) <<< 23) ||| ((mantissa &&& 0x3ff) <<< 13)
  else if exponent = 31 then sign ||| (0x7f800000 : Word) ||| (fraction <<< 13)
  else
    let biased : Word := exponent + 112
    sign ||| (biased <<< 23) ||| (fraction <<< 13)

section
variable (H : Host)

/-- Op 0x37: the prefix instructions, viim and vfim. -/
def vfpuPrefixGroup (v : VfpuFile) (w : Word) : VfpuFile :=
  let type := vfpuSub3 w
  if type ≤ 5 then
    let index : BitVec 4 := (w.extractLsb' 24 2).setWidth 4
    let data := w &&& 0xfffff
    v.setCtrl index (if index = 2 then data &&& 0xfff else data)
  else
    let value := if type = 6 then H.ofInt32 (signedImmediate w) else vfpuHalfToFloat (w.setWidth 16)
    v.finish H (vfpuVt w) 1 (lanesOf [value])

def executeVfpu (s : State) (w currentPc : Word) : State :=
  match opOf w with
  | 0x12#6 => vfpuMove s w currentPc
  | 0x32#6 =>
    let (x, s') := load32 s (vfpuAddress s w)
    { s' with vfpu := s'.vfpu.setReg (vfpuIndex (vfpuScalarReg w) 1 0) x }
  | 0x3a#6 => store32 s (vfpuAddress s w) (s.vfpu.regs (vfpuIndex (vfpuScalarReg w) 1 0))
  | 0x35#6 => vfpuLoadPart s w
  | 0x3d#6 => vfpuStorePart s w
  | 0x36#6 =>
    let (values, s') := vfpuLoadLanes s 4 id (wordsUp (vfpuAddress s w)) (lanesOf [])
    { s' with vfpu := s'.vfpu.writeVector (vfpuQuadReg w) 4 values }
  | 0x3e#6 =>
    vfpuStoreLanes s 4 id (wordsUp (vfpuAddress s w)) (s.vfpu.readVector (vfpuQuadReg w) 4)
  | 0x3f#6 => s
  | 0x37#6 => { s with vfpu := vfpuPrefixGroup H s.vfpu w }
  | _ => { s with vfpu := vfpuCompute H s.vfpu w }

/-! ### The prefix-free path -/

/-- The index both fast accesses compute. -/
def vfpuIndexFast (reg : BitVec 7) (size lane : Nat) : BitVec 7 :=
  let base := ((reg >>> 2) &&& 7) * 4
  let column := reg &&& 3
  let row := vfpuRow reg size
  if size ≠ 1 ∧ (reg >>> 5) &&& 1 ≠ 0 then
    base + ((row + BitVec.ofNat 7 lane) &&& 3) + column * 32
  else base + column + (((row + BitVec.ofNat 7 lane) &&& 3) <<< 5)

def VfpuFile.readVectorFast (v : VfpuFile) (reg : BitVec 7) (size : Nat) : Lanes := fun lane =>
  if lane < size then v.regs (vfpuIndexFast reg size lane) else 0

def VfpuFile.writeVectorFast (v : VfpuFile) (reg : BitVec 7) (size : Nat) (values : Lanes) :
    VfpuFile :=
  (List.range size).foldl
    (fun v lane => v.writeLane (vfpuIndexFast reg size lane) lane (values lane)) v

/-- A lane of the operations other than dot. -/
def prefixFreeLane (operation : VfpuStaticOperation) (s t : Word) : Word :=
  match operation with
  | .add => H.add s t
  | .subtract => H.sub s t
  | .multiply => H.mul s t
  | .move => s
  | _ => 0

def executeVfpuPrefixFree (operation : VfpuStaticOperation) (size : Nat) (s : State)
    (vd vs vt : BitVec 7) : State :=
  let v := s.vfpu
  let source := v.readVectorFast vs size
  let target := if operation = .move then lanesOf [] else v.readVectorFast vt size
  let v :=
    if operation = .dot then
      v.writeVectorFast vd 1 (lanesOf [sumF H size 0 fun lane => H.mul (source lane) (target lane)])
    else
      v.writeVectorFast vd size (lanes size fun lane =>
        prefixFreeLane H operation (source lane) (target lane))
  { s with vfpu := v.eatPrefixes }

/-! ### Both paths agree -/

theorem vfpuIndexFast_eq (reg : BitVec 7) (size lane : Nat) :
    vfpuIndexFast reg size lane = vfpuIndex reg size lane := by
  have hshift : ∀ x : BitVec 7, x <<< 5 = x * 32 := by decide
  simp only [vfpuIndexFast, vfpuIndex, hshift]

namespace VfpuFile
variable (v : VfpuFile)

theorem readVectorFast_eq (reg : BitVec 7) (size : Nat) :
    v.readVectorFast reg size = v.readVector reg size := by
  funext lane
  simp only [readVectorFast, readVector, vfpuIndexFast_eq]

theorem writeVectorFast_eq (reg : BitVec 7) (size : Nat) (values : Lanes) :
    v.writeVectorFast reg size values = v.writeVector reg size values := by
  simp only [writeVectorFast, writeVector, vfpuIndexFast_eq]

variable {v}

theorem ctrl_of_identity (h : v.prefixesIdentity = true) :
    v.ctrl 0 = 0xe4 ∧ v.ctrl 1 = 0xe4 ∧ v.ctrl 2 = 0 := by
  simpa [prefixesIdentity] using h

/-- A zero destination prefix leaves the result as it is. -/
theorem applyDestinationPrefix_of_identity (h : v.prefixesIdentity = true) (values : Lanes)
    (size : Nat) : applyDestinationPrefix H v values size = values := by
  funext i
  have hmode : BitVec.extractLsb' (i * 2) 2 (0 : Word) = 0#2 := by simp
  simp only [applyDestinationPrefix, (ctrl_of_identity h).2.2, hmode]
  split <;> rfl

theorem finish_of_identity (h : v.prefixesIdentity = true) (vd : BitVec 7) (size : Nat)
    (result : Lanes) : v.finish H vd size result = (v.writeVector vd size result).eatPrefixes := by
  rw [finish, applyDestinationPrefix_of_identity H h]

end VfpuFile

theorem applyPrefix_identity (values : Lanes) (size : Nat) : applyPrefix values size 0xe4 = values :=
  if_pos rfl

/-- Under identity prefixes the general computation sees the registers as they are. -/
theorem vfpuCompute_of_identity {v : VfpuFile} (h : v.prefixesIdentity = true) (w : Word) :
    vfpuCompute H v w =
      let size := vfpuSize w
      let source := v.readVector (vfpuVs w) size
      let target := v.readVector (vfpuVt w) size
      match opOf w with
      | 0x18#6 => v.finish H (vfpuVd w) size (vfpuAddGroup H w size source target)
      | 0x19#6 => vfpuMulGroup H v w size source target
      | 0x1b#6 => vfpuCompareGroup H v w size source target
      | 0x34#6 => vfpuUnaryGroup H v w size source
      | 0x3c#6 => vfpuMatrixGroup H v w size source target
      | _ => v.finish H (vfpuVd w) size (lanesOf []) := by
  obtain ⟨h0, h1, -⟩ := VfpuFile.ctrl_of_identity h
  have hcompute := vfpuCompute.eq_1 H v w
  simp only [h0, h1, applyPrefix_identity] at hcompute
  exact hcompute

/-- The words of each static operation. -/
theorem vfpuStaticOperation_cases {w : Word} {operation : VfpuStaticOperation}
    (h : vfpuStaticOperation w = operation) (hne : operation ≠ .none) :
    (operation = .add ∧ opOf w = 0x18#6 ∧ vfpuSub3 w = 0#3) ∨
    (operation = .subtract ∧ opOf w = 0x18#6 ∧ vfpuSub3 w = 1#3) ∨
    (operation = .multiply ∧ opOf w = 0x19#6 ∧ vfpuSub3 w = 0#3) ∨
    (operation = .dot ∧ opOf w = 0x19#6 ∧ vfpuSub3 w = 1#3) ∨
    (operation = .move ∧ opOf w = 0x34#6 ∧ vfpuGroup w = 0#5 ∧ vfpuType w = 0#5) := by
  unfold vfpuStaticOperation at h
  split_ifs at h with h1 h2 h3 h4 h5
  · exact .inl ⟨h.symm, h1⟩
  · exact .inr (.inl ⟨h.symm, h2⟩)
  · exact .inr (.inr (.inl ⟨h.symm, h3⟩))
  · exact .inr (.inr (.inr (.inl ⟨h.symm, h4⟩)))
  · exact .inr (.inr (.inr (.inr ⟨h.symm, h5⟩)))
  · exact absurd h.symm hne

/-- A word with a static operation computes on the register file only. -/
theorem executeVfpu_of_static {w : Word} (h : vfpuStaticOperation w ≠ .none) (s : State)
    (currentPc : Word) :
    executeVfpu H s w currentPc = { s with vfpu := vfpuCompute H s.vfpu w } := by
  rcases vfpuStaticOperation_cases rfl h with ⟨-, hop, -⟩ | ⟨-, hop, -⟩ | ⟨-, hop, -⟩ | ⟨-, hop, -⟩ |
    ⟨-, hop, -⟩ <;> simp only [executeVfpu, hop] <;> rfl

/-- The mask of vcrs fixes the type field. -/
theorem vfpuSub3_of_vcrs {w : Word} (h : w &&& 0xff808080 = 0x66808000) : vfpuSub3 w = 5#3 := by
  have h := congrArg (BitVec.extractLsb' 23 3) h
  rw [BitVec.extractLsb'_and] at h
  have hall : ∀ x : BitVec 3, x &&& BitVec.extractLsb' 23 3 (0xff808080 : Word) = x := by decide
  rw [hall] at h
  exact h.trans (by decide)

/-- Under identity prefixes the fast path leaves exactly the state of the general path, for every
word with a static operation: all operations, sizes, register forms and overlaps. -/
theorem executeVfpuPrefixFree_eq (s : State) (w currentPc : Word)
    (hstatic : vfpuStaticOperation w ≠ .none) (hid : s.vfpu.prefixesIdentity = true) :
    executeVfpuPrefixFree H (vfpuStaticOperation w) (vfpuSize w) s (vfpuVd w) (vfpuVs w) (vfpuVt w) =
      executeVfpu H s w currentPc := by
  rw [executeVfpu_of_static H hstatic, vfpuCompute_of_identity H hid, executeVfpuPrefixFree]
  congr 1
  simp only [VfpuFile.readVectorFast_eq, VfpuFile.writeVectorFast_eq]
  rcases vfpuStaticOperation_cases rfl hstatic with ⟨ho, hop, hty⟩ | ⟨ho, hop, hty⟩ | ⟨ho, hop, hty⟩ |
    ⟨ho, hop, hty⟩ | ⟨ho, hop, hgr, hty⟩
  · simp [ho, hop, hty, vfpuAddGroup, VfpuFile.finish_of_identity H hid, prefixFreeLane]
  · simp [ho, hop, hty, vfpuAddGroup, VfpuFile.finish_of_identity H hid, prefixFreeLane]
  · have hcrs : ¬ w &&& 0xff808080 = 0x66808000 := fun h => by
      simp [vfpuSub3_of_vcrs h] at hty
    simp only [ho, hop, vfpuMulGroup, if_neg hcrs]
    simp [hty, VfpuFile.finish_of_identity H hid, prefixFreeLane]
  · have hcrs : ¬ w &&& 0xff808080 = 0x66808000 := fun h => by
      simp [vfpuSub3_of_vcrs h] at hty
    simp only [ho, hop, vfpuMulGroup, if_neg hcrs]
    simp [hty, VfpuFile.finish_of_identity H hid]
  · simp [ho, hop, hgr, hty, vfpuUnaryGroup, VfpuFile.finish_of_identity H hid, prefixFreeLane,
      vfpuUnaryLane]

end

/-- vadd.q of 1, 2, 3 and -0.5 to themselves into another register; a sum of equal normal operands has the next
exponent. -/
theorem executeVfpuPrefixFree_eq_vadd :
    let host := { zeroOperandHost with add := fun a _ => a + 0x00800000 }
    let s : State :=
      { vfpu := VfpuFile.writeVector {} 0 4 (lanesOf [0x3f800000, 0x40000000, 0x40400000, 0xbf000000]) }
    let t := executeVfpu host s 0x60008084 0
    vfpuStaticOperation 0x60008084 = .add ∧ executeVfpuPrefixFree host .add 4 s 4 0 0 = t ∧
      (List.range 4).map (t.vfpu.readVector 4 4) = [0x40000000, 0x40800000, 0x40c00000, 0xbf800000] := by
  intro host s t
  exact ⟨by decide, executeVfpuPrefixFree_eq host s 0x60008084 0 (by decide) (by decide), by decide⟩

end Psprism
