import Psprism.EmitPlain

/-!
# Control transfers: translated and interpreted

Jumps and branches of the main opcodes, REGIMM and COP1. The statement of each leaves what the
interpreter's `switch` leaves, with two exceptions. The target of j and jal is computed from other
inputs (`Psprism.JumpTargets`). And jalr reads its target register first in the interpreter, but
after the link register is written in generated code: where they are the same register, the target
is the link.
-/

namespace Psprism

/-- The words that start a delayed branch and are lowered natively. -/
structure ControlWord (w : Word) : Prop where
  native : (classify w).lowering = .native
  delayed : (classify w).flags.delayedBranch = true

instance (w : Word) : Decidable (ControlWord w) :=
  decidable_of_iff ((classify w).lowering = .native ∧ (classify w).flags.delayedBranch = true)
    ⟨fun h => ⟨h.1, h.2⟩, fun h => ⟨h.1, h.2⟩⟩

/-- j and jal. -/
def isJump (w : Word) : Bool := opOf w = 0x02 ∨ opOf w = 0x03

/-- A jalr that links into the register it jumps to. -/
def linksOverTarget (w : Word) : Bool :=
  opOf w = 0x00 ∧ functionOf w = 0x09 ∧ rdOf w = rsOf w ∧ rsOf w ≠ 0

/-- The loop body of the `run` that `emit_cpp` writes, in the case of the statement. -/
def caseStep (H : Host) (p : Stmt) (s : State) (currentPc : Word) : State :=
  ((p.exec H currentPc (s.advance currentPc)).resetZero).applyBranch s.branchPending s.branchTarget

/-! ### The forms -/

theorem nativeIf_delayedBranch (c : Bool) (name : String) :
    (Classification.nativeIf c name).flags.delayedBranch = false := by
  cases c <;> rfl

theorem special_delayedBranch {rs shift : Reg} {function : BitVec 6}
    (h : (Classification.special rs shift function).flags.delayedBranch = true) :
    function = 0x08#6 ∨ function = 0x09#6 := by
  unfold Classification.special at h
  split at h
  case h_7 => exact .inl rfl
  case h_8 => exact .inr rfl
  all_goals
    first
      | cases h
      | exact absurd h (by rw [nativeIf_delayedBranch]; decide)
      | skip
  all_goals
    split at h
    · cases h
    · exact absurd h (by rw [nativeIf_delayedBranch]; decide)

theorem regimmDefined_of_native : ∀ rt : Reg, (Classification.regimm rt).lowering = .native →
    regimmDefined rt = true := by
  decide

theorem cop1_delayedBranch {rs rt : Reg} {function : BitVec 6}
    (h : (Classification.cop1 rs rt function).flags.delayedBranch = true) : rs = 0x08 := by
  unfold Classification.cop1 at h
  dsimp only at h
  split_ifs at h with h1 h2
  · cases h
  · exact h2
  · cases h

/-- The opcodes of the conditional branches. -/
def branchOps : List (BitVec 6) :=
  [0x04#6, 0x05#6, 0x06#6, 0x07#6, 0x14#6, 0x15#6, 0x16#6, 0x17#6]

theorem ControlWord.cases {w : Word} (hw : ControlWord w) :
    (opOf w = 0x00#6 ∧ functionOf w = 0x08#6) ∨ (opOf w = 0x00#6 ∧ functionOf w = 0x09#6) ∨
    (opOf w = 0x01#6 ∧ regimmDefined (rtOf w) = true) ∨ opOf w = 0x02#6 ∨ opOf w = 0x03#6 ∨
    opOf w ∈ branchOps ∨ (opOf w = 0x11#6 ∧ rsOf w = 0x08#5) := by
  obtain ⟨hn, hd⟩ := hw
  unfold classify at hn hd
  dsimp only at hn hd
  split at hn
  · exact absurd hn (vfpu_lowering w)
  rename_i hv
  rw [if_neg hv] at hd
  split at hn
  all_goals
    rename_i hop
    simp only [hop] at hn hd
    first
      | (cases hd; done)
      | exact absurd hd (by rw [nativeIf_delayedBranch]; decide)
      | skip
  · rcases special_delayedBranch hd with hf | hf
    · exact .inl ⟨hop, hf⟩
    · exact .inr (.inl ⟨hop, hf⟩)
  · exact .inr (.inr (.inl ⟨hop, regimmDefined_of_native _ hn⟩))
  · exact .inr (.inr (.inr (.inl hop)))
  · exact .inr (.inr (.inr (.inr (.inl hop))))
  iterate 4 exact .inr (.inr (.inr (.inr (.inr (.inl (by rw [hop]; decide))))))
  · exact .inr (.inr (.inr (.inr (.inr (.inr ⟨hop, cop1_delayedBranch hd⟩)))))
  iterate 4 exact .inr (.inr (.inr (.inr (.inr (.inl (by rw [hop]; decide))))))
  · exact absurd hd (by rw [Classification.special3, nativeIf_delayedBranch]; decide)

/-! ### Branches -/

/-- bc1 reads its condition and its flags from the `rt` field. -/
theorem rtOf_bits (w : Word) : (rtOf w).extractLsb' 2 3 = w.extractLsb' 18 3 ∧
    (rtOf w).getLsbD 0 = w.getLsbD 16 ∧ (rtOf w).getLsbD 1 = w.getLsbD 17 := by
  refine ⟨?_, ?_, ?_⟩
  · ext i hi
    simp only [rtOf, BitVec.getElem_extractLsb', BitVec.getLsbD_extractLsb']
    rw [decide_eq_true (by omega : 2 + i < 5), Bool.true_and]
    congr 1
    omega
  · simp [rtOf]
  · simp [rtOf]

section
variable {H : Host} {pc w currentPc : Word} {s : State}

theorem eval_emitBranchTarget (hcur : s.memoryBase + pc = currentPc)
    (himm : instructionWord s currentPc w = w) (relocated : Bool) :
    (emitBranchTarget pc w relocated).eval H currentPc s = currentPc + 4 + signedImmediate w * 4 := by
  cases relocated
  · show s.memoryBase + (pc + 4 + signedImmediate w * 4) = _
    rw [← hcur]
    simp only [BitVec.add_assoc]
  · show currentPc + 4 + signedImmediate (instructionWord s currentPc w &&& 0xffff) * 4 = _
    rw [himm, signedImmediate_and]

theorem exec_emitBranch (hcur : s.memoryBase + pc = currentPc)
    (himm : instructionWord s currentPc w = w) (relocated : Bool) (c : Cond) (likely : Bool) :
    (emitBranch c (emitBranchTarget pc w relocated) pc likely).exec H currentPc s =
      s.branch currentPc w (c.eval H currentPc s) likely := by
  have ht := eval_emitBranchTarget (H := H) hcur himm relocated
  have hskip : s.memoryBase + (pc + 8) = currentPc + 8 := by rw [← hcur, BitVec.add_assoc]
  cases likely
  · simp only [emitBranch, State.branch, Stmt.exec, ht, Bool.false_eq_true, if_false]
  · simp only [emitBranch, State.branch, Stmt.exec, Expr.eval, ht, hskip, if_true]

/-- Op 1: the link register is written first on both sides. -/
theorem exec_emitRegimm (hcur : s.memoryBase + pc = currentPc)
    (himm : instructionWord s currentPc w = w) (relocated : Bool) (hdef : regimmDefined (rtOf w) = true) :
    (emitRegimm pc w relocated).exec H currentPc s = interpretRegimm s currentPc w := by
  have hlink : s.memoryBase + (pc + 8) = currentPc + 8 := by rw [← hcur, BitVec.add_assoc]
  have hcond : ∀ t : State,
      (Cond.cmp (if regimmGe (rtOf w) then .geS else .ltS) (.gpr (rsOf w)) (.lit 0)).eval H currentPc t =
        if regimmGe (rtOf w) then !(t.gpr (rsOf w)).slt 0 else (t.gpr (rsOf w)).slt 0 := by
    intro t
    split
    · exact BitVec.sle_eq_not_slt ..
    · rfl
  have hreg : (rtOf w = 0x10 ∨ rtOf w = 0x11 ∨ rtOf w = 0x12 ∨ rtOf w = 0x13) ↔
      regimmLink (rtOf w) = true := by
    generalize rtOf w = rt
    revert rt
    decide
  unfold emitRegimm interpretRegimm
  simp only [hdef, not_true_eq_false, if_false, hreg]
  by_cases hl : regimmLink (rtOf w) = true
  · rw [if_pos hl, if_pos hl]
    show (emitBranch _ _ _ _).exec H currentPc (s.setGpr 31 (s.memoryBase + (pc + 8))) = _
    rw [hlink, exec_emitBranch (s := s.setGpr 31 (currentPc + 8)) hcur himm, hcond]
  · rw [if_neg hl, if_neg hl, exec_emitBranch hcur himm, hcond]

/-- jalr: generated code reads the target after the link is written. -/
theorem exec_emitSpecial_jalr (hcur : s.memoryBase + pc = currentPc) (hf : functionOf w = 0x09#6) :
    (emitSpecial pc w).exec H currentPc s =
      { interpretSpecial s currentPc w with
        branchTarget := if rdOf w = rsOf w ∧ rsOf w ≠ 0 then currentPc + 8 else s.gpr (rsOf w) } := by
  have hlink : s.memoryBase + (pc + 8) = currentPc + 8 := by rw [← hcur, BitVec.add_assoc]
  simp only [emitSpecial, interpretSpecial, hf]
  by_cases hrd : rdOf w = 0
  · have hne : ¬ (rdOf w = rsOf w ∧ rsOf w ≠ 0) := fun h => h.2 (h.1 ▸ hrd)
    simp only [hrd, ne_eq, not_true_eq_false, if_false] at hne ⊢
    rw [if_neg hne]
    rfl
  · simp only [if_pos hrd, Stmt.exec, Expr.eval, hlink, State.jumpTo, State.setGpr_gpr]
    by_cases heq : rdOf w = rsOf w
    · rw [if_pos ⟨heq, heq ▸ hrd⟩, ← heq, Function.update_self]
    · rw [if_neg fun h => heq h.1, Function.update_of_ne (Ne.symm heq)]

/-- The statement leaves what the `switch` leaves but for the target, which also agrees unless the
word is a jump or a jalr over its own target. -/
theorem exec_emitNative_control (hcur : s.memoryBase + pc = currentPc)
    (himm : instructionWord s currentPc w = w) (hw : ControlWord w) (relocated : Bool)
    (preferredBase : Word) :
    ∃ target, (emitNative pc w relocated preferredBase).exec H currentPc s =
        { interpretBody H s currentPc w with branchTarget := target } ∧
      (isJump w = false → target =
        if linksOverTarget w then currentPc + 8 else (interpretBody H s currentPc w).branchTarget) := by
  have hb := fun c likely => exec_emitBranch (H := H) hcur himm relocated c likely
  have hlink : s.memoryBase + (pc + 8) = currentPc + 8 := by rw [← hcur, BitVec.add_assoc]
  -- where the statement and the `switch` leave the same state
  have same : linksOverTarget w = false →
      (emitNative pc w relocated preferredBase).exec H currentPc s = interpretBody H s currentPc w →
      ∃ target, (emitNative pc w relocated preferredBase).exec H currentPc s =
          { interpretBody H s currentPc w with branchTarget := target } ∧
        (isJump w = false → target = if linksOverTarget w then currentPc + 8
          else (interpretBody H s currentPc w).branchTarget) :=
    fun hl h => ⟨(interpretBody H s currentPc w).branchTarget, h, fun _ => by rw [hl]; rfl⟩
  rcases hw.cases with ⟨hop, hf⟩ | ⟨hop, hf⟩ | ⟨hop, hdef⟩ | hop | hop | hop | ⟨hop, hrs⟩
  · refine same (by simp [linksOverTarget, hf]) ?_
    simp only [emitNative, interpretBody, hop, emitSpecial, interpretSpecial, hf]
    rfl
  · refine ⟨if rdOf w = rsOf w ∧ rsOf w ≠ 0 then currentPc + 8 else s.gpr (rsOf w), ?_, fun _ => ?_⟩
    · simp only [emitNative, interpretBody, hop]
      exact exec_emitSpecial_jalr hcur hf
    · simp [linksOverTarget, hop, hf, interpretBody, interpretSpecial, State.jumpTo]
  · refine same (by simp [linksOverTarget, hop]) ?_
    simp only [emitNative, interpretBody, hop]
    exact exec_emitRegimm hcur himm relocated hdef
  · refine ⟨(emitJumpTarget pc w relocated preferredBase).eval H currentPc s, ?_, fun h => ?_⟩
    · simp only [emitNative, interpretBody, emitJump, hop]
      rfl
    · simp [isJump, hop] at h
  · refine ⟨(emitJumpTarget pc w relocated preferredBase).eval H currentPc
      (s.setGpr 31 (currentPc + 8)), ?_, fun h => ?_⟩
    · simp only [emitNative, interpretBody, emitJump, hop]
      rw [← hlink]
      rfl
    · simp [isJump, hop] at h
  · simp only [branchOps, List.mem_cons, List.not_mem_nil, or_false] at hop
    rcases hop with hop | hop | hop | hop | hop | hop | hop | hop <;>
      refine same (by simp [linksOverTarget, hop]) ?_ <;>
      simp only [emitNative, interpretBody, hop, hb] <;> rfl
  · refine same (by simp [linksOverTarget, hop]) ?_
    obtain ⟨hcc, hvalue, hlikely⟩ := rtOf_bits w
    simp only [emitNative, interpretBody, emitCop1, interpretCop1, hop, hrs, hcc, hvalue, hlikely]
    exact hb _ _

end

/-! ### One step -/

theorem State.applyBranch_withTarget (b : State) (target : Word) (apply : Bool) (delayed : Word) :
    State.applyBranch (State.resetZero { b with branchTarget := target }) apply delayed =
      { b.resetZero.applyBranch apply delayed with branchTarget := target } := by
  rw [applyBranch_eq, applyBranch_eq]
  rfl

theorem interpretBody_jalr {H : Host} {s : State} {currentPc w : Word} (h : linksOverTarget w = true) :
    (interpretBody H s currentPc w).branchTarget = s.gpr (rsOf w) := by
  obtain ⟨hop, hf, -⟩ := of_decide_eq_true h
  simp only [interpretBody, hop, interpretSpecial, hf, State.jumpTo]
  rfl

/-- A translated control transfer leaves the link register, the pending branch, its target (that of
j and jal apart) and the next pc as one step of the interpreter does, exactly when it is no jalr over
its own target, or one whose target is its link. -/
theorem caseStep_control_iff (H : Host) (pc w preferredBase : Word) (relocated : Bool) (s : State)
    (hw : ControlWord w) (halign : (s.memoryBase + pc) &&& 3 = 0) (hrun : s.stopReason = .running)
    (hword : HoldsWord s (s.memoryBase + pc) w) :
    let currentPc := s.memoryBase + pc
    let t := caseStep H (emitInstruction pc w relocated preferredBase) s currentPc
    let i := (interpretAllegrex H s currentPc).2
    (t.gpr = i.gpr ∧ t.branchPending = i.branchPending ∧
        (isJump w = false → t.branchTarget = i.branchTarget) ∧ t.pc = i.pc) ↔
      ¬ (linksOverTarget w = true ∧ s.gpr (rsOf w) ≠ currentPc + 8) := by
  intro currentPc t i
  have hl : (decodeAllegrex w).lowering = .native := hw.native
  have hvalid : (decodeAllegrex w).valid = true := by
    simp only [DecodedInstruction.valid, hl]
    rfl
  obtain ⟨target, hexec, htarget⟩ := exec_emitNative_control (H := H) (s := s.advance currentPc)
    (show s.memoryBase + pc = currentPc from rfl) hword.immediate hw relocated preferredBase
  have hi : i = ((interpretBody H (s.advance currentPc) currentPc w).resetZero).applyBranch
      s.branchPending s.branchTarget :=
    congrArg Prod.snd (interpretAllegrex_of_holds halign hrun hword hvalid)
  have ht : t = { i with branchTarget := target } := by
    have hemit : emitInstruction pc w relocated preferredBase =
        emitNative pc w relocated preferredBase := by
      unfold emitInstruction
      rw [hl]
    rw [hi, ← State.applyBranch_withTarget]
    show caseStep H _ s currentPc = _
    rw [caseStep, hemit, hexec]
  have hib : i.branchTarget = (interpretBody H (s.advance currentPc) currentPc w).branchTarget := by
    rw [hi, State.applyBranch_eq]
    rfl
  rw [ht]
  simp only [true_and, and_true]
  cases hj : isJump w
  · simp only [forall_const, htarget hj]
    cases hlink : linksOverTarget w
    · simp only [Bool.false_eq_true, if_false, hib, false_and, not_false_eq_true]
    · simp only [if_true, true_and, ne_eq, not_not, hib, interpretBody_jalr hlink]
      exact eq_comm
  · have hlink : linksOverTarget w = false := by
      rcases of_decide_eq_true hj with hop | hop <;> simp [linksOverTarget, hop]
    simp only [Bool.true_eq_false, false_implies, hlink, Bool.false_eq_true, false_and,
      not_false_eq_true]

/-- `beq $0, $0, 1`. -/
theorem caseStep_control_iff_beq :
    let s := State.ofImage 0x08804000 [0x10000001]
    ControlWord 0x10000001 ∧ HoldsWord s 0x08804000 0x10000001 ∧
      (caseStep zeroOperandHost (emitInstruction 0 0x10000001 false 0) s 0x08804000).branchTarget =
        (interpretAllegrex zeroOperandHost s 0x08804000).2.branchTarget := by
  have hw : ControlWord 0x10000001 := by decide
  have hword : HoldsWord (State.ofImage 0x08804000 [0x10000001]) 0x08804000 0x10000001 := ⟨rfl, rfl⟩
  exact ⟨hw, hword, ((caseStep_control_iff zeroOperandHost 0 0x10000001 0 false
    (State.ofImage 0x08804000 [0x10000001]) hw (by decide) rfl hword).2 (by decide)).2.2.1 (by decide)⟩

/-- `jalr $31, $31` with 0x08804100 in `$31`: the interpreter goes there, translated code to the
instruction after the delay slot. -/
theorem caseStep_jalr_ne :
    let s := (State.ofImage 0x08804000 [0x03e0f809]).setGpr 31 0x08804100
    ControlWord 0x03e0f809 ∧ HoldsWord s 0x08804000 0x03e0f809 ∧
      (caseStep zeroOperandHost (emitInstruction 0 0x03e0f809 false 0) s 0x08804000).branchTarget =
        0x08804008 ∧
      (interpretAllegrex zeroOperandHost s 0x08804000).2.branchTarget = 0x08804100 :=
  ⟨by decide, ⟨rfl, rfl⟩, by decide, by decide⟩

end Psprism
