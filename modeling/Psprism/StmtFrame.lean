import Psprism.Stmt

/-!
# What generated statements leave alone

No statement makes a stopped CPU run again. A *plain* statement (no branch, no pc, no stop) does not
look at the pc, at the pending branch or at the recorded fault pc: on states that agree on everything
else it does the same. A fault it raises records the pc once, as `note_memory_fault` does.
-/

namespace Psprism

/-! ### Faults of loads and stores -/

/-- `t` is `s` after an access that either went through or faulted at the current pc. -/
structure FaultStep (s t : State) : Prop where
  pc : t.pc = s.pc
  branchPending : t.branchPending = s.branchPending
  branchTarget : t.branchTarget = s.branchTarget
  memoryBase : t.memoryBase = s.memoryBase
  fault : (t.stopReason = s.stopReason ∧ t.faultPc = s.faultPc) ∨
    (t.stopReason = .memoryFault ∧ t.faultPc = if s.faultPc = 0 then s.pc else s.faultPc)

namespace FaultStep
variable {s t u : State}

theorem refl (s : State) : FaultStep s s := ⟨rfl, rfl, rfl, rfl, .inl ⟨rfl, rfl⟩⟩

theorem noteMemoryFault (s : State) (address : Word) : FaultStep s (noteMemoryFault s address) :=
  ⟨rfl, rfl, rfl, rfl, .inr ⟨rfl, rfl⟩⟩

theorem trans (h₁ : FaultStep s t) (h₂ : FaultStep t u) : FaultStep s u := by
  refine ⟨h₂.pc.trans h₁.pc, h₂.branchPending.trans h₁.branchPending,
    h₂.branchTarget.trans h₁.branchTarget, h₂.memoryBase.trans h₁.memoryBase, ?_⟩
  rcases h₂.fault with ⟨hu, hf⟩ | ⟨hu, hf⟩
  · rw [hu, hf]; exact h₁.fault
  · refine .inr ⟨hu, ?_⟩
    rw [hf, h₁.pc]
    rcases h₁.fault with ⟨-, ht⟩ | ⟨-, ht⟩ <;> rw [ht]
    by_cases h0 : s.faultPc = 0
    · simp only [if_pos h0, ite_self]
    · simp only [if_neg h0]

/-- A stopped CPU stays stopped. -/
theorem running (h : FaultStep s t) (ht : t.stopReason = .running) : s.stopReason = .running := by
  rcases h.fault with ⟨hs, -⟩ | ⟨hs, -⟩
  · rw [← hs]; exact ht
  · rw [hs] at ht; cases ht

theorem setGpr (h : FaultStep s t) (r : Reg) (v : Word) : FaultStep s (t.setGpr r v) :=
  ⟨h.pc, h.branchPending, h.branchTarget, h.memoryBase, h.fault⟩

theorem setVfpu (h : FaultStep s t) (v : VfpuFile) : FaultStep s { t with vfpu := v } :=
  ⟨h.pc, h.branchPending, h.branchTarget, h.memoryBase, h.fault⟩

theorem setFpr (h : FaultStep s t) (r : Reg) (v : Word) : FaultStep s (t.setFpr r v) :=
  ⟨h.pc, h.branchPending, h.branchTarget, h.memoryBase, h.fault⟩

end FaultStep

theorem loadWith_faultStep {n : Nat} (s : State) (address : Word) (place : Option (Region × Nat))
    (value : Bytes → Nat → BitVec n) : FaultStep s (loadWith s address place value).2 := by
  cases place with
  | none => exact .noteMemoryFault s address
  | some p => exact .refl s

theorem GuestMemory.setBytes_memoryBase (m : GuestMemory) (r : Region) (b : Bytes) :
    (m.setBytes r b).memoryBase = m.memoryBase := by
  cases r <;> rfl

theorem storeWith_faultStep (s : State) (address : Word) (place : Option (Region × Nat))
    (update : Bytes → Nat → Bytes) : FaultStep s (storeWith s address place update) := by
  cases place with
  | none => exact .noteMemoryFault s address
  | some p => exact ⟨rfl, rfl, rfl, s.mem.setBytes_memoryBase .., .inl ⟨rfl, rfl⟩⟩

theorem loadPart_faultStep (s : State) (address : Word) (first count : Nat) (value : Word) :
    FaultStep s (loadPart s address first count value).2 := by
  unfold loadPart
  split
  · exact .refl s
  · exact .noteMemoryFault s address

theorem load8_faultStep (s : State) (address : Word) : FaultStep s (load8 s address).2 :=
  loadWith_faultStep ..

theorem load16_faultStep (s : State) (address : Word) : FaultStep s (load16 s address).2 :=
  loadWith_faultStep ..

theorem load32_faultStep (s : State) (address : Word) : FaultStep s (load32 s address).2 :=
  loadWith_faultStep ..

theorem store8_faultStep (s : State) (address : Word) (value : Byte) :
    FaultStep s (store8 s address value) :=
  storeWith_faultStep ..

theorem store16_faultStep (s : State) (address : Word) (value : BitVec 16) :
    FaultStep s (store16 s address value) :=
  storeWith_faultStep ..

theorem store32_faultStep (s : State) (address value : Word) :
    FaultStep s (store32 s address value) :=
  storeWith_faultStep ..

theorem LoadOp.exec_faultStep (op : LoadOp) (s : State) (address : Word) :
    FaultStep s (op.exec s address).2 := by
  cases op
  exacts [load8_faultStep s address, load8_faultStep s address, load16_faultStep s address,
    load16_faultStep s address, load32_faultStep s address]

theorem Side.load_faultStep (side : Side) (s : State) (address value : Word) :
    FaultStep s (side.load s address value).2 := by
  cases side <;> exact loadPart_faultStep ..

theorem StoreOp.exec_faultStep (op : StoreOp) (s : State) (address value : Word) :
    FaultStep s (op.exec s address value) := by
  cases op
  exacts [store8_faultStep s address _, store16_faultStep s address _, store32_faultStep s address _]

theorem Side.store_faultStep (side : Side) (s : State) (address value : Word) :
    FaultStep s (side.store s address value) := by
  cases side <;> exact storeWith_faultStep ..

theorem Dest.assign_faultStep (dest : Dest) {s : State} {r : Word × State} (h : FaultStep s r.2) :
    FaultStep s (dest.assign r) := by
  cases dest with
  | none => exact h
  | gpr i => exact h.setGpr i r.1
  | fpr i => exact h.setFpr i r.1

theorem vfpuLoadLanes_faultStep (s : State) (n : Nat) (lane : Nat → Nat) (address : Nat → Word)
    (values : Lanes) : FaultStep s (vfpuLoadLanes s n lane address values).2 := by
  unfold vfpuLoadLanes
  generalize List.range n = l
  induction l generalizing s values with
  | nil => exact .refl s
  | cons i l ih => exact (load32_faultStep s (address i)).trans (ih ..)

theorem vfpuStoreLanes_faultStep (s : State) (n : Nat) (lane : Nat → Nat) (address : Nat → Word)
    (values : Lanes) : FaultStep s (vfpuStoreLanes s n lane address values) := by
  unfold vfpuStoreLanes
  generalize List.range n = l
  induction l generalizing s with
  | nil => exact .refl s
  | cons i l ih => exact (store32_faultStep s _ _).trans (ih _)

/-! ### Stopping is final -/

theorem vfpuMove_running {s : State} {w currentPc : Word}
    (h : (vfpuMove s w currentPc).stopReason = .running) : s.stopReason = .running := by
  unfold vfpuMove at h
  dsimp only at h
  split_ifs at h <;> exact h

theorem vfpuLoadPart_running {s : State} {w : Word}
    (h : (vfpuLoadPart s w).stopReason = .running) : s.stopReason = .running := by
  unfold vfpuLoadPart at h
  dsimp only at h
  split at h <;> exact (vfpuLoadLanes_faultStep ..).running h

theorem vfpuStorePart_running {s : State} {w : Word}
    (h : (vfpuStorePart s w).stopReason = .running) : s.stopReason = .running := by
  unfold vfpuStorePart at h
  dsimp only at h
  split at h <;> exact (vfpuStoreLanes_faultStep ..).running h

theorem executeVfpu_running {H : Host} {s : State} {w currentPc : Word}
    (h : (executeVfpu H s w currentPc).stopReason = .running) : s.stopReason = .running := by
  unfold executeVfpu at h
  split at h
  · exact vfpuMove_running h
  · exact (load32_faultStep ..).running h
  · exact (store32_faultStep ..).running h
  · exact vfpuLoadPart_running h
  · exact vfpuStorePart_running h
  · exact (vfpuLoadLanes_faultStep ..).running h
  · exact (vfpuStoreLanes_faultStep ..).running h
  · exact h
  · exact h
  · exact h

theorem WideOp.exec_stopReason (op : WideOp) (s : State) (a b : Word) :
    (op.exec s a b).stopReason = s.stopReason := by
  cases op with
  | div => simp only [WideOp.exec]; split_ifs <;> rfl
  | divu => simp only [WideOp.exec]; split_ifs <;> rfl
  | _ => rfl

/-- A statement after which the CPU runs has run on a running CPU. -/
theorem Stmt.exec_running {H : Host} {currentPc : Word} (p : Stmt) {s : State}
    (h : (p.exec H currentPc s).stopReason = .running) : s.stopReason = .running := by
  induction p generalizing s with
  | wide op rs rt => rw [← WideOp.exec_stopReason op s]; exact h
  | load op dest address => exact (dest.assign_faultStep (op.exec_faultStep ..)).running h
  | loadPart side dest address value => exact (dest.assign_faultStep (side.load_faultStep ..)).running h
  | store op address value => exact (op.exec_faultStep ..).running h
  | storePart side address value => exact (side.store_faultStep ..).running h
  | invalidPc => cases h
  | syscall => cases h
  | seq a b iha ihb => exact iha (ihb h)
  | ifThen c a ih =>
    unfold Stmt.exec at h
    split at h
    · exact ih h
    · exact h
  | ifElse c a b iha ihb =>
    unfold Stmt.exec at h
    split at h
    · exact iha h
    · exact ihb h
  | executeVfpu w pc => exact executeVfpu_running h
  | ifIdentity a b iha ihb =>
    unfold Stmt.exec at h
    split at h
    · exact iha h
    · exact ihb h
  | _ => exact h

/-! ### Plain statements -/

/-- The VFPU words that are no branch. -/
def vfpuStraight (w : Word) : Bool := opOf w ≠ 0x12 ∨ vfpuGroup w = 3 ∨ vfpuGroup w = 7

/-- No branch, no pc, no stop reason. -/
def Stmt.plain : Stmt → Bool
  | .branch _ | .setPc _ | .invalidPc | .syscall => false
  | .executeVfpu w _ => vfpuStraight w
  | .seq a b => a.plain && b.plain
  | .ifIdentity a b => a.plain && b.plain
  | .ifThen _ a => a.plain
  | .ifElse _ a b => a.plain && b.plain
  | _ => true

/-- Everything but the pc, the pending branch and the recorded fault pc. -/
def State.data (s : State) : State :=
  { s with pc := 0, branchPending := false, branchTarget := 0, faultPc := 0 }

section
variable (H : Host) (currentPc : Word)

theorem Expr.eval_data (e : Expr) (s : State) :
    e.eval H currentPc s.data = e.eval H currentPc s := by
  induction e with
  | bin op a b iha ihb => simp only [Expr.eval, iha, ihb]
  | un op a ih => simp only [Expr.eval, ih]
  | select op a b c d iha ihb ihc ihd => simp only [Expr.eval, iha, ihb, ihc, ihd]
  | float op a b iha ihb => simp only [Expr.eval, iha, ihb]
  | sqrt a ih => simp only [Expr.eval, ih]
  | ofInt32 a ih => simp only [Expr.eval, ih]
  | roundedWord a mode iha ihm => simp only [Expr.eval, iha, ihm]
  | _ => rfl

theorem Cond.eval_data (c : Cond) (s : State) :
    c.eval H currentPc s.data = c.eval H currentPc s := by
  cases c with
  | cmp op a b => simp only [Cond.eval, Expr.eval_data]
  | fpu cc value => rfl

end

theorem loadWith_data {n : Nat} (s : State) (address : Word) (place : Option (Region × Nat))
    (value : Bytes → Nat → BitVec n) :
    (loadWith s.data address place value).1 = (loadWith s address place value).1 ∧
      (loadWith s.data address place value).2.data = (loadWith s address place value).2.data := by
  cases place <;> exact ⟨rfl, rfl⟩

theorem storeWith_data (s : State) (address : Word) (place : Option (Region × Nat))
    (update : Bytes → Nat → Bytes) :
    (storeWith s.data address place update).data = (storeWith s address place update).data := by
  cases place <;> rfl

theorem loadPart_data (s : State) (address : Word) (first count : Nat) (value : Word) :
    (loadPart s.data address first count value).1 = (loadPart s address first count value).1 ∧
      (loadPart s.data address first count value).2.data =
        (loadPart s address first count value).2.data := by
  have hmem : s.data.mem = s.mem := rfl
  unfold loadPart
  rw [hmem]
  split <;> exact ⟨rfl, rfl⟩

theorem LoadOp.exec_data (op : LoadOp) (s : State) (address : Word) :
    (op.exec s.data address).1 = (op.exec s address).1 ∧
      (op.exec s.data address).2.data = (op.exec s address).2.data := by
  cases op with
  | w32 => exact loadWith_data ..
  | s8 =>
    have h := loadWith_data s address (s.mem.access8 address) fun memory offset => memory offset
    exact ⟨congrArg (fun x : Byte => x.signExtend 32) h.1, h.2⟩
  | u8 =>
    have h := loadWith_data s address (s.mem.access8 address) fun memory offset => memory offset
    exact ⟨congrArg (fun x : Byte => x.setWidth 32) h.1, h.2⟩
  | s16 =>
    have h := loadWith_data s address (s.mem.access16 address) readU16
    exact ⟨congrArg (fun x : BitVec 16 => x.signExtend 32) h.1, h.2⟩
  | u16 =>
    have h := loadWith_data s address (s.mem.access16 address) readU16
    exact ⟨congrArg (fun x : BitVec 16 => x.setWidth 32) h.1, h.2⟩

theorem Side.load_data (side : Side) (s : State) (address value : Word) :
    (side.load s.data address value).1 = (side.load s address value).1 ∧
      (side.load s.data address value).2.data = (side.load s address value).2.data := by
  cases side <;> exact loadPart_data ..

theorem StoreOp.exec_data (op : StoreOp) (s : State) (address value : Word) :
    (op.exec s.data address value).data = (op.exec s address value).data := by
  cases op <;> exact storeWith_data ..

theorem Side.store_data (side : Side) (s : State) (address value : Word) :
    (side.store s.data address value).data = (side.store s address value).data := by
  cases side <;> exact storeWith_data ..

theorem State.setGpr_data (s : State) (r : Reg) (v : Word) :
    (s.setGpr r v).data = s.data.setGpr r v := rfl

theorem State.setFpr_data (s : State) (r : Reg) (v : Word) :
    (s.setFpr r v).data = s.data.setFpr r v := rfl

/-- Assigning agreeing load results. -/
theorem Dest.assign_data (dest : Dest) {r r' : Word × State} (hv : r.1 = r'.1)
    (hs : r.2.data = r'.2.data) : (dest.assign r).data = (dest.assign r').data := by
  cases dest with
  | none => exact hs
  | gpr i => simp only [Dest.assign, State.setGpr_data, hv, hs]
  | fpr i => simp only [Dest.assign, State.setFpr_data, hv, hs]

theorem WideOp.exec_data (op : WideOp) (s : State) (a b : Word) :
    (op.exec s.data a b).data = (op.exec s a b).data := by
  cases op with
  | div => simp only [WideOp.exec]; split_ifs <;> rfl
  | divu => simp only [WideOp.exec]; split_ifs <;> rfl
  | _ => rfl

theorem load32_data (s : State) (address : Word) :
    (load32 s.data address).1 = (load32 s address).1 ∧
      (load32 s.data address).2.data = (load32 s address).2.data :=
  loadWith_data ..

theorem load32_data_congr {s t : State} (h : s.data = t.data) (address : Word) :
    (load32 s address).1 = (load32 t address).1 ∧
      (load32 s address).2.data = (load32 t address).2.data := by
  obtain ⟨hv, hd⟩ := load32_data s address
  obtain ⟨hv', hd'⟩ := load32_data t address
  rw [h] at hv hd
  exact ⟨hv.symm.trans hv', hd.symm.trans hd'⟩

theorem store32_data_congr {s t : State} (h : s.data = t.data) (address value : Word) :
    (store32 s address value).data = (store32 t address value).data := by
  have hs := storeWith_data s address (s.mem.access32 address) fun memory offset =>
    writeU32 memory offset value
  have ht := storeWith_data t address (t.mem.access32 address) fun memory offset =>
    writeU32 memory offset value
  have hmem : s.mem = t.mem := (congrArg State.mem h : s.data.mem = t.data.mem)
  rw [← h, ← hmem] at ht
  rw [store32, store32, ← hs, ← hmem, ht]

theorem vfpuLoadLanes_data (s t : State) (h : s.data = t.data) (n : Nat) (lane : Nat → Nat)
    (address : Nat → Word) (values : Lanes) :
    (vfpuLoadLanes s n lane address values).1 = (vfpuLoadLanes t n lane address values).1 ∧
      (vfpuLoadLanes s n lane address values).2.data =
        (vfpuLoadLanes t n lane address values).2.data := by
  unfold vfpuLoadLanes
  generalize List.range n = l
  induction l generalizing s t values with
  | nil => exact ⟨rfl, h⟩
  | cons i l ih =>
    obtain ⟨hv, hd⟩ := load32_data_congr h (address i)
    simp only [List.foldl_cons, hv]
    exact ih _ _ hd _

theorem vfpuStoreLanes_data (s t : State) (h : s.data = t.data) (n : Nat) (lane : Nat → Nat)
    (address : Nat → Word) (values : Lanes) :
    (vfpuStoreLanes s n lane address values).data =
      (vfpuStoreLanes t n lane address values).data := by
  unfold vfpuStoreLanes
  generalize List.range n = l
  induction l generalizing s t with
  | nil => exact h
  | cons i l ih => exact ih _ _ (store32_data_congr h _ _)

/-- The VFPU file is part of the data. -/
theorem State.vfpu_of_data {s t : State} (h : s.data = t.data) : s.vfpu = t.vfpu :=
  (congrArg State.vfpu h : s.data.vfpu = t.data.vfpu)

theorem State.setVfpu_data {s t : State} (h : s.data = t.data) {v v' : VfpuFile} (hv : v = v') :
    ({ s with vfpu := v } : State).data = ({ t with vfpu := v' } : State).data := by
  subst hv
  exact congrArg (fun u : State => { u with vfpu := v }) h

section
variable {H : Host} {currentPc : Word}

theorem executeVfpu_data {w : Word} (hw : vfpuStraight w = true) (s : State) :
    (executeVfpu H s.data w currentPc).data = (executeVfpu H s w currentPc).data := by
  have hd : s.data.data = s.data := rfl
  unfold executeVfpu
  split
  case h_1 hop =>
    have hkind : vfpuGroup w = 3 ∨ vfpuGroup w = 7 := (of_decide_eq_true hw).resolve_left (not_not.2 hop)
    unfold vfpuMove
    dsimp only
    rcases hkind with h | h
    · rw [if_pos h, if_pos h]
      split <;> rfl
    · have h3 : vfpuGroup w ≠ 3 := by rw [h]; decide
      rw [if_neg h3, if_neg h3, if_pos h, if_pos h]
      rfl
  case h_2 =>
    obtain ⟨hv, hl⟩ := load32_data s (vfpuAddress s w)
    refine State.setVfpu_data hl ?_
    show VfpuFile.setReg _ _ (load32 s.data (vfpuAddress s w)).1 = _
    rw [hv]
    exact congrArg (VfpuFile.setReg · _ _) (State.vfpu_of_data hl)
  case h_3 => exact store32_data_congr hd _ _
  case h_4 =>
    unfold vfpuLoadPart
    dsimp only
    split
    all_goals
      obtain ⟨hv, hl⟩ := vfpuLoadLanes_data _ _ hd _ _ _ (s.vfpu.readVector (vfpuQuadReg w) 4)
      refine State.setVfpu_data hl ?_
      exact congrArg₂ (VfpuFile.writeVector · _ _ ·) (State.vfpu_of_data hl) hv
  case h_5 =>
    unfold vfpuStorePart
    dsimp only
    split <;> exact vfpuStoreLanes_data _ _ hd ..
  case h_6 =>
    obtain ⟨hv, hl⟩ := vfpuLoadLanes_data _ _ hd 4 id (wordsUp (vfpuAddress s w)) (lanesOf [])
    refine State.setVfpu_data hl ?_
    exact congrArg₂ (VfpuFile.writeVector · _ _ ·) (State.vfpu_of_data hl) hv
  case h_7 => exact vfpuStoreLanes_data _ _ hd ..
  case h_8 => rfl
  case h_9 => rfl
  case h_10 => rfl

theorem executeVfpu_faultStep {w : Word} (hw : vfpuStraight w = true) (s : State) :
    FaultStep s (executeVfpu H s w currentPc) := by
  unfold executeVfpu
  split
  case h_1 hop =>
    have hkind : vfpuGroup w = 3 ∨ vfpuGroup w = 7 := (of_decide_eq_true hw).resolve_left (not_not.2 hop)
    unfold vfpuMove
    dsimp only
    rcases hkind with h | h
    · rw [if_pos h]
      split
      · exact (FaultStep.refl s).setGpr ..
      · exact .refl s
    · have h3 : vfpuGroup w ≠ 3 := by rw [h]; decide
      rw [if_neg h3, if_pos h]
      exact (FaultStep.refl s).setVfpu _
  case h_2 => exact (load32_faultStep s _).setVfpu _
  case h_3 => exact store32_faultStep ..
  case h_4 =>
    unfold vfpuLoadPart
    dsimp only
    split <;> exact (vfpuLoadLanes_faultStep ..).setVfpu _
  case h_5 =>
    unfold vfpuStorePart
    dsimp only
    split <;> exact vfpuStoreLanes_faultStep ..
  case h_6 =>
    exact (vfpuLoadLanes_faultStep s 4 id (wordsUp (vfpuAddress s w)) (lanesOf [])).setVfpu _
  case h_7 => exact vfpuStoreLanes_faultStep ..
  case h_8 => exact .refl s
  case h_9 => exact (FaultStep.refl s).setVfpu _
  case h_10 => exact (FaultStep.refl s).setVfpu _

/-- A plain statement does not read what `State.data` erases. -/
theorem Stmt.exec_data (p : Stmt) (hp : p.plain = true) (s : State) :
    (p.exec H currentPc s.data).data = (p.exec H currentPc s).data := by
  induction p generalizing s with
  | wide op rs rt => exact op.exec_data s _ _
  | load op dest address =>
    simp only [Stmt.exec, Expr.eval_data]
    exact dest.assign_data (op.exec_data s _).1 (op.exec_data s _).2
  | loadPart side dest address value =>
    simp only [Stmt.exec, Expr.eval_data]
    exact dest.assign_data (side.load_data s _ _).1 (side.load_data s _ _).2
  | store op address value =>
    simp only [Stmt.exec, Expr.eval_data]
    exact op.exec_data s _ _
  | storePart side address value =>
    simp only [Stmt.exec, Expr.eval_data]
    exact side.store_data s _ _
  | seq a b iha ihb =>
    obtain ⟨ha, hb⟩ := Bool.and_eq_true_iff.1 hp
    simp only [Stmt.exec]
    rw [← ihb hb, iha ha, ihb hb]
  | ifThen c a ih =>
    simp only [Stmt.exec, Cond.eval_data]
    split
    · exact ih hp s
    · rfl
  | ifElse c a b iha ihb =>
    obtain ⟨ha, hb⟩ := Bool.and_eq_true_iff.1 hp
    simp only [Stmt.exec, Cond.eval_data]
    split
    · exact iha ha s
    · exact ihb hb s
  | branch => cases hp
  | setPc => cases hp
  | invalidPc => cases hp
  | syscall => cases hp
  | executeVfpu w pc =>
    simp only [Stmt.exec, Expr.eval_data]
    exact executeVfpu_data hp s
  | ifIdentity a b iha ihb =>
    obtain ⟨ha, hb⟩ := Bool.and_eq_true_iff.1 hp
    have hv : s.data.vfpu = s.vfpu := rfl
    simp only [Stmt.exec, hv]
    split
    · exact iha ha s
    · exact ihb hb s
  | nop => rfl
  | prefixFree => rfl
  | compareF32 cc a b condition =>
    simp only [Stmt.exec, Expr.eval_data]
    rfl
  | _ =>
    simp only [Stmt.exec, Expr.eval_data]
    rfl

/-- States with the same data are the same to a plain statement. -/
theorem Stmt.exec_data_congr (p : Stmt) (hp : p.plain = true) {s t : State} (h : s.data = t.data) :
    (p.exec H currentPc s).data = (p.exec H currentPc t).data := by
  rw [← p.exec_data hp s, h, p.exec_data hp t]

/-- A plain statement faults at most as an access does. -/
theorem Stmt.exec_faultStep (p : Stmt) (hp : p.plain = true) (s : State) :
    FaultStep s (p.exec H currentPc s) := by
  induction p generalizing s with
  | load op dest address => exact dest.assign_faultStep (op.exec_faultStep ..)
  | loadPart side dest address value => exact dest.assign_faultStep (side.load_faultStep ..)
  | store op address value => exact op.exec_faultStep ..
  | storePart side address value => exact side.store_faultStep ..
  | wide op rs rt =>
    cases op with
    | div => simp only [Stmt.exec, WideOp.exec]; split_ifs <;> exact ⟨rfl, rfl, rfl, rfl, .inl ⟨rfl, rfl⟩⟩
    | divu => simp only [Stmt.exec, WideOp.exec]; split_ifs <;> exact ⟨rfl, rfl, rfl, rfl, .inl ⟨rfl, rfl⟩⟩
    | _ => exact ⟨rfl, rfl, rfl, rfl, .inl ⟨rfl, rfl⟩⟩
  | seq a b iha ihb =>
    obtain ⟨ha, hb⟩ := Bool.and_eq_true_iff.1 hp
    exact (iha ha s).trans (ihb hb _)
  | ifThen c a ih =>
    simp only [Stmt.exec]
    split
    · exact ih hp s
    · exact .refl s
  | ifElse c a b iha ihb =>
    obtain ⟨ha, hb⟩ := Bool.and_eq_true_iff.1 hp
    simp only [Stmt.exec]
    split
    · exact iha ha s
    · exact ihb hb s
  | branch => cases hp
  | setPc => cases hp
  | invalidPc => cases hp
  | syscall => cases hp
  | executeVfpu w pc => exact executeVfpu_faultStep hp s
  | ifIdentity a b iha ihb =>
    obtain ⟨ha, hb⟩ := Bool.and_eq_true_iff.1 hp
    simp only [Stmt.exec]
    split
    · exact iha ha s
    · exact ihb hb s
  | _ => exact ⟨rfl, rfl, rfl, rfl, .inl ⟨rfl, rfl⟩⟩

end

end Psprism
