import Psprism.EmitPlain
import Psprism.EmitControl
import Psprism.Runner

/-!
# One item of a runner

A statement keeps the memory base, and register zero unless its text writes it. The statement emitted
for a word that is no control transfer is plain or stops the CPU, so while the CPU runs it may be run
under a stale pc: `Item.exec_straight` brings every item to the form in which `Agrees` compares a
statement with the interpreter.
-/

namespace Psprism

/-! ### What every statement keeps -/

theorem vfpuLoadLanes_gpr (s : State) (n : Nat) (lane : Nat → Nat) (address : Nat → Word)
    (values : Lanes) : (vfpuLoadLanes s n lane address values).2.gpr = s.gpr := by
  unfold vfpuLoadLanes
  generalize List.range n = l
  induction l generalizing s values with
  | nil => rfl
  | cons i l ih => exact (ih _ _).trans (load32_gpr s (address i))

theorem vfpuStoreLanes_gpr (s : State) (n : Nat) (lane : Nat → Nat) (address : Nat → Word)
    (values : Lanes) : (vfpuStoreLanes s n lane address values).gpr = s.gpr := by
  unfold vfpuStoreLanes
  generalize List.range n = l
  induction l generalizing s with
  | nil => rfl
  | cons i l ih => exact (ih _).trans (storeWith_gpr s ..)

theorem setGpr_zero {s : State} {r : Reg} (v : Word) (hr : r ≠ 0) : (s.setGpr r v).gpr 0 = s.gpr 0 := by
  rw [State.setGpr_gpr, Function.update_of_ne (Ne.symm hr)]

theorem executeVfpu_zero (H : Host) (s : State) (w currentPc : Word) :
    (executeVfpu H s w currentPc).gpr 0 = s.gpr 0 := by
  unfold executeVfpu
  split
  · unfold vfpuMove
    dsimp only
    split
    · split
      · rename_i hrt
        exact setGpr_zero _ hrt
      · rfl
    · split_ifs <;> rfl
  · exact congrFun (load32_gpr s (vfpuAddress s w)) 0
  · exact congrFun (storeWith_gpr ..) 0
  · unfold vfpuLoadPart
    dsimp only
    split <;> exact congrFun (vfpuLoadLanes_gpr ..) 0
  · unfold vfpuStorePart
    dsimp only
    split <;> exact congrFun (vfpuStoreLanes_gpr ..) 0
  · exact congrFun (vfpuLoadLanes_gpr s 4 id (wordsUp (vfpuAddress s w)) (lanesOf [])) 0
  · exact congrFun (vfpuStoreLanes_gpr ..) 0
  all_goals rfl

theorem executeVfpu_memoryBase (H : Host) (s : State) (w currentPc : Word) :
    (executeVfpu H s w currentPc).memoryBase = s.memoryBase := by
  by_cases hw : vfpuStraight w = true
  · exact (executeVfpu_faultStep hw s).memoryBase
  · -- a branch
    have hop : opOf w = 0x12#6 := by
      by_contra hop
      exact hw (decide_eq_true (.inl hop))
    simp only [executeVfpu, hop, vfpuMove]
    split_ifs <;> rfl

namespace Dest

theorem assign_zero {dest : Dest} (hdest : dest ≠ .gpr 0) (r : Word × State) :
    (dest.assign r).gpr 0 = r.2.gpr 0 := by
  cases dest with
  | none => rfl
  | gpr i => exact setGpr_zero _ fun hi => hdest (congrArg Dest.gpr hi)
  | fpr i => rfl

end Dest

namespace Stmt
variable {H : Host} {currentPc : Word}

/-- Register zero stays zero under a statement whose text does not write it. -/
theorem exec_zero (p : Stmt) {s : State} (hp : p.writesZero = false) :
    (p.exec H currentPc s).gpr 0 = s.gpr 0 := by
  induction p generalizing s with
  | setGpr r e => exact setGpr_zero _ (of_decide_eq_false hp)
  | wide op rs rt => exact congrFun (op.exec_gpr ..) 0
  | load op dest address =>
    exact (Dest.assign_zero (of_decide_eq_false hp) _).trans (congrFun (op.exec_gpr ..) 0)
  | loadPart side dest address value =>
    exact (Dest.assign_zero (of_decide_eq_false hp) _).trans (congrFun (side.load_gpr ..) 0)
  | store op address value => exact congrFun (op.exec_gpr ..) 0
  | storePart side address value => exact congrFun (side.store_gpr ..) 0
  | seq a b iha ihb =>
    obtain ⟨ha, hb⟩ := Bool.or_eq_false_iff.1 hp
    exact (ihb hb).trans (iha ha)
  | ifThen c a ih =>
    simp only [exec]
    split
    · exact ih (Bool.or_eq_false_iff.1 hp).2
    · rfl
  | ifElse c a b iha ihb =>
    obtain ⟨hca, hb⟩ := Bool.or_eq_false_iff.1 hp
    simp only [exec]
    split
    · exact iha (Bool.or_eq_false_iff.1 hca).2
    · exact ihb hb
  | executeVfpu w pc => exact executeVfpu_zero ..
  | ifIdentity a b iha ihb =>
    obtain ⟨ha, hb⟩ := Bool.or_eq_false_iff.1 hp
    simp only [exec]
    split
    · exact iha ha
    · exact ihb hb
  | _ => rfl

theorem exec_memoryBase (p : Stmt) (s : State) : (p.exec H currentPc s).memoryBase = s.memoryBase := by
  induction p generalizing s with
  | seq a b iha ihb => exact (ihb _).trans (iha s)
  | ifThen c a ih =>
    simp only [exec]
    split
    · exact ih s
    · rfl
  | ifElse c a b iha ihb =>
    simp only [exec]
    split
    · exact iha s
    · exact ihb s
  | ifIdentity a b iha ihb =>
    simp only [exec]
    split
    · exact iha s
    · exact ihb s
  | executeVfpu w pc => exact executeVfpu_memoryBase ..
  | branch => rfl
  | setPc => rfl
  | invalidPc => rfl
  | syscall => rfl
  -- the others are plain
  | _ => exact (exec_faultStep _ rfl s).memoryBase

end Stmt

/-! ### A stale pc -/

theorem FaultStep.faultPc_of_running {s t : State} (h : FaultStep s t)
    (ht : t.stopReason = .running) : t.faultPc = s.faultPc := by
  rcases h.fault with ⟨-, hf⟩ | ⟨hs, -⟩
  · exact hf
  · rw [hs] at ht; cases ht

theorem State.eq_of_data {s t : State} (hdata : s.data = t.data) (hpc : s.pc = t.pc)
    (hpending : s.branchPending = t.branchPending) (htarget : s.branchTarget = t.branchTarget)
    (hfault : s.faultPc = t.faultPc) : s = t := by
  have h : ∀ u : State, u = { u.data with
      pc := u.pc, branchPending := u.branchPending, branchTarget := u.branchTarget,
      faultPc := u.faultPc } := fun _ => rfl
  rw [h s, h t, hdata, hpc, hpending, htarget, hfault]

/-- While the CPU runs, a plain statement carries the pc along. -/
theorem Stmt.exec_setPc {H : Host} {currentPc : Word} {p : Stmt} (hp : p.plain = true) {s : State}
    (hrun : (p.exec H currentPc s).stopReason = .running) (pc : Word) :
    p.exec H currentPc (s.setPc pc) = (p.exec H currentPc s).setPc pc := by
  have hdata : (p.exec H currentPc (s.setPc pc)).data = (p.exec H currentPc s).data :=
    p.exec_data_congr hp rfl
  have hstop : (p.exec H currentPc (s.setPc pc)).stopReason = (p.exec H currentPc s).stopReason := by
    have h := congrArg State.stopReason hdata
    exact h
  have hs : FaultStep s (p.exec H currentPc s) := p.exec_faultStep hp s
  have ht : FaultStep (s.setPc pc) (p.exec H currentPc (s.setPc pc)) := p.exec_faultStep hp (s.setPc pc)
  refine State.eq_of_data hdata ht.pc (ht.branchPending.trans hs.branchPending.symm)
    (ht.branchTarget.trans hs.branchTarget.symm) ?_
  exact (ht.faultPc_of_running (hstop.trans hrun)).trans (hs.faultPc_of_running hrun).symm

/-- VFPU words that are no delayed branch. -/
theorem vfpuStraight_of_classify {w : Word} (hl : (classify w).lowering ≠ .invalid)
    (hd : (classify w).flags.delayedBranch = false) : vfpuStraight w = true := by
  by_contra hs
  obtain ⟨hop, hgroup⟩ := not_or.1 (of_decide_eq_false (Bool.not_eq_true _ ▸ hs))
  rw [not_not] at hop
  unfold classify at hl hd
  dsimp only at hl hd
  split at hl
  case isTrue hv =>
    rw [if_pos hv] at hd
    have h8 : vfpuGroup w = 8 := by
      simp only [vfpuOpcodeSupported, hop] at hv
      rcases of_decide_eq_true hv with h | h | h
      · exact absurd (.inl h) hgroup
      · exact absurd (.inr h) hgroup
      · exact h
    have hflags : (Classification.vfpu w).flags.delayedBranch = true := by
      unfold Classification.vfpu
      dsimp only
      rw [if_pos ⟨hop, h8⟩]
      split <;> rfl
    rw [hflags] at hd
    cases hd
  case isFalse hv =>
    simp only [hop] at hl
    exact hl rfl

/-- What is emitted for a word that is no control transfer is plain, or stops the CPU. -/
theorem emitInstruction_straight {w : Word} (hw : startsDelayedBranch w = false) (pc : Word)
    (relocated : Bool) (preferredBase : Word) :
    (emitInstruction pc w relocated preferredBase).plain = true ∨
      ∀ (H : Host) (currentPc : Word) (s : State),
        ((emitInstruction pc w relocated preferredBase).exec H currentPc s).stopReason ≠ .running := by
  have hvfpu : (classify w).lowering ≠ .invalid → vfpuStraight w = true :=
    fun hl => vfpuStraight_of_classify hl hw
  unfold emitInstruction
  rw [show (decodeAllegrex w).lowering = (classify w).lowering from rfl]
  cases hl : (classify w).lowering with
  | invalid => exact .inr fun H currentPc s h => by cases h
  | guardedNative => exact .inl (hvfpu (by rw [hl]; decide))
  | runtimeFallback => exact .inl (hvfpu (by rw [hl]; decide))
  | native =>
    by_cases hsys : opOf w = 0x00#6 ∧ functionOf w = 0x0c#6
    · refine .inr fun H currentPc s h => ?_
      simp only [emitNative, emitSpecial, hsys.1, hsys.2] at h
      cases h
    · exact .inl (emitNative_plain ⟨hl, hw, hsys⟩ pc relocated preferredBase)

/-! ### Agreement with the interpreter -/

theorem HoldsWord.access {s : State} {currentPc w : Word} (hrun : s.stopReason = .running)
    (h : HoldsWord s currentPc w) : ∃ p, s.mem.access32 currentPc = some p := by
  cases hp : s.mem.access32 currentPc with
  | some p => exact ⟨p, rfl⟩
  | none =>
    have hfetch := congrArg (fun r : Word × State => r.2.stopReason) h.fetch
    simp only [load32, loadWith, hp, noteMemoryFault, hrun] at hfetch
    cases hfetch

/-- A running CPU holds words at multiples of four. -/
theorem HoldsWord.aligned {s : State} {currentPc w : Word} (hrun : s.stopReason = .running)
    (h : HoldsWord s currentPc w) : currentPc &&& 3 = 0 := by
  obtain ⟨p, hp⟩ := h.access hrun
  have hmod : currentPc.toNat % 4 = 0 := by
    by_contra hne
    unfold GuestMemory.access32 GuestMemory.access at hp
    simp only [hne, and_false, if_false, not_false_eq_true, if_true] at hp
    cases hp
  have h3 : (currentPc &&& 3).toNat = 0 :=
    (BitVec.toNat_and ..).trans ((Nat.and_two_pow_sub_one_eq_mod currentPc.toNat 2).trans hmod)
  exact BitVec.eq_of_toNat_eq h3

/-- The words a running CPU holds are those of its memory. -/
theorem HoldsWord.of_mem {s t : State} {currentPc w : Word} (hrun : s.stopReason = .running)
    (hmem : t.mem = s.mem) (h : HoldsWord s currentPc w) : HoldsWord t currentPc w := by
  obtain ⟨p, hp⟩ := h.access hrun
  have hfetch := congrArg Prod.fst h.fetch
  simp only [load32, loadWith, hp] at hfetch
  refine ⟨?_, ?_⟩
  · rw [load32, hmem, hp]
    simp only [loadWith, hmem, hfetch]
  · have himm := h.immediate
    unfold instructionWord at himm ⊢
    rw [hmem]
    exact himm

/-- The statement at an image offset does what the interpreter does with the word that guest memory
holds there, whenever it leaves the CPU running. -/
def Agrees (H : Host) (pc w : Word) (code : Stmt) : Prop :=
  ∀ s : State, s.stopReason = .running → s.gpr 0 = 0 → HoldsWord s (s.memoryBase + pc) w →
    (caseStep H code s (s.memoryBase + pc)).stopReason = .running →
      interpretAllegrex H s (s.memoryBase + pc) = (true, caseStep H code s (s.memoryBase + pc))

theorem valid_of_native {w : Word} (h : (classify w).lowering = .native) :
    (decodeAllegrex w).valid = true := by
  simp only [DecodedInstruction.valid, show (decodeAllegrex w).lowering = .native from h]
  rfl

theorem agrees_of_plainWord (H : Host) {w : Word} (hw : PlainWord w) (hconv : convertsToWord w = false)
    (pc preferredBase : Word) (relocated : Bool) :
    Agrees H pc w (emitInstruction pc w relocated preferredBase) := by
  intro s hrun h0 hword _
  rw [interpretAllegrex_of_holds (hword.aligned hrun) hrun hword (valid_of_native hw.native), caseStep,
    emitInstruction_plain hw, exec_emitNative (s := s.advance (s.memoryBase + pc)) h0 hword.immediate hw hconv,
    State.resetZero_of_zero (State.resetZero_gpr_zero _)]

theorem agrees_of_controlWord (H : Host) {w : Word} (hw : ControlWord w) (hjump : isJump w = false)
    (hlink : linksOverTarget w = false) (pc preferredBase : Word) (relocated : Bool) :
    Agrees H pc w (emitInstruction pc w relocated preferredBase) := by
  intro s hrun _ hword _
  have hemit : emitInstruction pc w relocated preferredBase = emitNative pc w relocated preferredBase := by
    unfold emitInstruction
    rw [show (decodeAllegrex w).lowering = .native from hw.native]
  obtain ⟨target, hexec, htarget⟩ := exec_emitNative_control (H := H)
    (s := s.advance (s.memoryBase + pc)) (show s.memoryBase + pc = s.memoryBase + pc from rfl)
    hword.immediate hw relocated preferredBase
  have ht := htarget hjump
  rw [hlink, if_neg Bool.false_ne_true] at ht
  rw [interpretAllegrex_of_holds (hword.aligned hrun) hrun hword (valid_of_native hw.native), caseStep,
    hemit, hexec, ht]

/-- The words for which a statement is known to agree. -/
def agreesWord (w : Word) : Bool :=
  (PlainWord w ∧ convertsToWord w = false) ∨
    (ControlWord w ∧ isJump w = false ∧ linksOverTarget w = false)

theorem agrees_of_agreesWord (H : Host) {w : Word} (hw : agreesWord w = true) (pc preferredBase : Word)
    (relocated : Bool) : Agrees H pc w (emitInstruction pc w relocated preferredBase) := by
  rcases of_decide_eq_true hw with ⟨hplain, hconv⟩ | ⟨hcontrol, hjump, hlink⟩
  · exact agrees_of_plainWord H hplain hconv pc preferredBase relocated
  · exact agrees_of_controlWord H hcontrol hjump hlink pc preferredBase relocated

/-! ### The statement of an item -/

namespace Item
variable {H : Host} {i : Item} {s : State}

/-- Register zero is clear after the item. -/
theorem exec_eq (h0 : s.gpr 0 = 0) : i.exec H s =
    (i.code.exec H (s.memoryBase + i.pc)
      (if i.storesPc then s.setPc (s.memoryBase + (i.pc + 4)) else s)).resetZero := by
  unfold exec
  dsimp only
  split
  · rfl
  · rename_i hz
    refine (State.resetZero_of_zero ?_).symm
    rw [i.code.exec_zero (Bool.eq_false_iff.2 hz)]
    split <;> exact h0

theorem exec_zero (h0 : s.gpr 0 = 0) : (i.exec H s).gpr 0 = 0 := by
  rw [exec_eq h0]
  exact State.resetZero_gpr_zero _

theorem exec_memoryBase : (i.exec H s).memoryBase = s.memoryBase := by
  have hreset : ∀ t : State, t.resetZero.memoryBase = t.memoryBase := fun _ => rfl
  unfold exec
  dsimp only
  split
  · rw [hreset, Stmt.exec_memoryBase]
    split <;> rfl
  · rw [Stmt.exec_memoryBase]
    split <;> rfl

/-- An item after which the CPU runs has run on a running CPU. -/
theorem exec_running (h : (i.exec H s).stopReason = .running) : s.stopReason = .running := by
  have hstop : (i.code.exec H (s.memoryBase + i.pc)
      (if i.storesPc then s.setPc (s.memoryBase + (i.pc + 4)) else s)).stopReason = .running := by
    unfold exec at h
    dsimp only at h
    split at h <;> exact h
  have hs := i.code.exec_running hstop
  split at hs <;> exact hs

theorem advance_eq (hpending : s.branchPending = false) (currentPc : Word) :
    s.advance currentPc = s.setPc (currentPc + 4) := by
  rw [State.advance, State.setPc, ← hpending]

/-- Where the pc is stored, the statement runs as it does in the interpreter's place. -/
theorem exec_of_storesPc (h0 : s.gpr 0 = 0) (hpending : s.branchPending = false)
    (hstores : i.storesPc = true) : i.exec H s =
      (i.code.exec H (s.memoryBase + i.pc) (s.advance (s.memoryBase + i.pc))).resetZero := by
  rw [exec_eq h0, if_pos hstores, advance_eq hpending, BitVec.add_assoc]

/-- Elsewhere only the pc is left behind. -/
theorem exec_straight (h0 : s.gpr 0 = 0) (hpending : s.branchPending = false)
    (hcode : i.code.plain = true) (hrun : (i.exec H s).stopReason = .running) :
    (i.code.exec H (s.memoryBase + i.pc) (s.advance (s.memoryBase + i.pc))).resetZero =
      (i.exec H s).setPc (s.memoryBase + i.pc + 4) := by
  rw [exec_eq h0] at hrun ⊢
  rw [advance_eq hpending, BitVec.add_assoc]
  split
  · rename_i hstores
    rw [if_pos hstores] at hrun
    have hpc : ∀ t : State, (i.code.exec H (s.memoryBase + i.pc) t).resetZero.pc = t.pc :=
      fun t => (i.code.exec_faultStep hcode t).pc
    exact (State.setPc_self (hpc _)).symm
  · rename_i hstores
    rw [if_neg hstores] at hrun
    rw [Stmt.exec_setPc hcode hrun]
    rfl

end Item

end Psprism
